import Mathlib

/-!
# Walking a path

A relative path is a list of segments: a name, a segment that stays, or one that
goes up.  Resolving it without a file system keeps a stack of names; going up
from the empty stack cannot be resolved and stays in front of what remains.
Whether what remains lies strictly below a given name can be read off the
segments by counting.
-/

namespace LinuxAdvance.Foundation

inductive Segment (α : Type) where
  | name (a : α)
  | here
  | up
  deriving DecidableEq, Repr

/-- The names entered and not left again, the last one first, and how often the
path went up with none left. -/
structure Walk (α : Type) where
  ups : Nat
  names : List α
  deriving DecidableEq, Repr

namespace Walk

variable {α : Type}

def start : Walk α := ⟨0, []⟩

def step (w : Walk α) : Segment α → Walk α
  | .name a => { w with names := a :: w.names }
  | .here => w
  | .up =>
      match w.names with
      | [] => { w with ups := w.ups + 1 }
      | _ :: names => { w with names }

def walk (w : Walk α) (path : List (Segment α)) : Walk α := path.foldl step w

def segments (w : Walk α) : List (Segment α) :=
  List.replicate w.ups .up ++ w.names.reverse.map .name

end Walk

namespace Segment

variable {α : Type}

def resolve (path : List (Segment α)) : List (Segment α) :=
  (Walk.start.walk path).segments

def level : Segment α → Int
  | name _ => 1
  | here => 0
  | up => -1

def depth (path : List (Segment α)) : Int := (path.map level).sum

/-- No beginning of the path goes up more often than it enters a name. -/
def Grounded (path : List (Segment α)) : Prop :=
  ∀ before, before <+: path → 0 ≤ depth before

/-- What remains of the path is strictly below `a`. -/
def Below (a : α) (path : List (Segment α)) : Prop :=
  ∃ next rest, resolve path = .name a :: next :: rest

section Walk

variable {path : List (Segment α)} {seg : Segment α} {w : Walk α}

theorem depth_concat (path : List (Segment α)) (seg : Segment α) :
    depth (path ++ [seg]) = depth path + level seg := by
  simp [depth]

theorem grounded_concat :
    Grounded (path ++ [seg]) ↔ Grounded path ∧ 0 ≤ depth (path ++ [seg]) := by
  constructor
  · intro h
    exact ⟨fun before hb => h before (hb.trans (List.prefix_append _ _)),
      h _ (List.prefix_refl _)⟩
  · rintro ⟨hpath, hdepth⟩ before hb
    rcases List.prefix_concat_iff.mp hb with rfl | hb
    · exact hdepth
    · exact hpath before hb

theorem grounded_nil : Grounded ([] : List (Segment α)) := by
  intro before hb
  rw [List.prefix_nil.mp hb]
  simp [depth]

theorem walk_concat (w : Walk α) (path : List (Segment α)) (seg : Segment α) :
    w.walk (path ++ [seg]) = (w.walk path).step seg := by
  simp [Walk.walk]

theorem walk_append (w : Walk α) (path path' : List (Segment α)) :
    w.walk (path ++ path') = (w.walk path).walk path' := by
  simp [Walk.walk]

theorem walk_of_grounded (h : Grounded path) (w : Walk α) :
    ∃ names, w.walk path = { w with names := names ++ w.names } ∧
      depth path = names.length := by
  induction path using List.reverseRecOn with
  | nil => exact ⟨[], rfl, rfl⟩
  | append_singleton path seg ih =>
      obtain ⟨hpath, hdepth⟩ := grounded_concat.mp h
      obtain ⟨names, hwalk, hnames⟩ := ih hpath
      rw [depth_concat] at hdepth ⊢
      rw [walk_concat, hwalk]
      cases seg with
      | name a =>
          refine ⟨a :: names, rfl, ?_⟩
          simp [level, hnames]
      | here => exact ⟨names, rfl, by simp [level, hnames]⟩
      | up =>
          cases names with
          | nil =>
              simp only [level, hnames, List.length_nil] at hdepth
              omega
          | cons a names =>
              refine ⟨names, rfl, ?_⟩
              simp [level, hnames]

theorem grounded_of_walk (h : (Walk.start.walk path).ups = 0) :
    Grounded path ∧ depth path = (Walk.start.walk path).names.length := by
  induction path using List.reverseRecOn with
  | nil => exact ⟨grounded_nil, rfl⟩
  | append_singleton path seg ih =>
      rw [walk_concat] at h ⊢
      rw [grounded_concat, depth_concat]
      cases seg with
      | name a =>
          obtain ⟨hpath, hdepth⟩ := ih h
          refine ⟨⟨hpath, ?_⟩, ?_⟩
          · simp only [level]
            omega
          · simp [level, hdepth, Walk.step]
      | here =>
          obtain ⟨hpath, hdepth⟩ := ih h
          refine ⟨⟨hpath, ?_⟩, ?_⟩
          · simp only [level]
            omega
          · simp [level, hdepth, Walk.step]
      | up =>
          cases hnames : (Walk.start.walk path).names with
          | nil => simp [Walk.step, hnames] at h
          | cons a names =>
              simp only [Walk.step, hnames] at h ⊢
              obtain ⟨hpath, hdepth⟩ := ih h
              rw [hnames, List.length_cons] at hdepth
              refine ⟨⟨hpath, ?_⟩, ?_⟩ <;> simp only [level] <;> omega

theorem split_of_walk {a : α} {names : List α}
    (h : Walk.start.walk path = ⟨0, names ++ [a]⟩) :
    ∃ before after, path = before ++ .name a :: after ∧
      Walk.start.walk before = .start ∧
      Grounded after ∧ depth after = names.length := by
  induction path using List.reverseRecOn generalizing names with
  | nil => simp [Walk.walk, Walk.start] at h
  | append_singleton path seg ih =>
      rw [walk_concat] at h
      have goesOn : ∀ names', Walk.start.walk path = ⟨0, names' ++ [a]⟩ →
          names'.length + level seg = (names.length : Int) →
          ∃ before after, path ++ [seg] = before ++ .name a :: after ∧
            Walk.start.walk before = .start ∧
            Grounded after ∧ depth after = names.length := by
        intro names' hwalk hlevel
        obtain ⟨before, after, rfl, hbefore, hafter, hdepth⟩ := ih hwalk
        refine ⟨before, after ++ [seg], by simp, hbefore, ?_⟩
        rw [grounded_concat, depth_concat]
        exact ⟨⟨hafter, by omega⟩, by omega⟩
      obtain ⟨ups, stack, hw⟩ :
          ∃ ups stack, Walk.start.walk path = ⟨ups, stack⟩ := ⟨_, _, rfl⟩
      cases seg with
      | name b =>
          obtain ⟨rfl, hstack⟩ : ups = 0 ∧ b :: stack = names ++ [a] := by
            simpa [hw, Walk.step] using h
          cases names with
          | nil =>
              obtain ⟨rfl, rfl⟩ : b = a ∧ stack = [] := by simpa using hstack
              exact ⟨path, [], rfl, hw, grounded_nil, rfl⟩
          | cons c names =>
              obtain ⟨rfl, rfl⟩ : b = c ∧ stack = names ++ [a] := by
                simpa using hstack
              exact goesOn names hw (by simp [level])
      | here => exact goesOn names h (by simp [level])
      | up =>
          cases stack with
          | nil => simp [hw, Walk.step] at h
          | cons c stack =>
              obtain ⟨rfl, rfl⟩ : ups = 0 ∧ stack = names ++ [a] := by
                simpa [hw, Walk.step] using h
              exact goesOn (c :: names) hw (by simp [level])

theorem segments_eq_name_cons {w : Walk α} {a : α} {rest : List (Segment α)} :
    w.segments = .name a :: rest ↔
      w.ups = 0 ∧ ∃ names, w.names = names ++ [a] ∧ rest = names.reverse.map .name := by
  obtain ⟨ups, stack⟩ := w
  cases ups with
  | succ ups => simp [Walk.segments, List.replicate_succ]
  | zero =>
      induction stack using List.reverseRecOn with
      | nil => simp [Walk.segments]
      | append_singleton names b => simp [Walk.segments, and_comm, eq_comm]

/-- By counting: everything before some `a` has been undone, and after it the
path stays above ground and enters more names than it leaves. -/
theorem below_iff {a : α} :
    Below a path ↔ ∃ before after, path = before ++ .name a :: after ∧
      Grounded before ∧ depth before = 0 ∧ Grounded after ∧ 0 < depth after := by
  constructor
  · rintro ⟨next, rest, h⟩
    obtain ⟨hups, names, hnames, hrest⟩ := segments_eq_name_cons.mp h
    have hwalk : Walk.start.walk path = ⟨0, names ++ [a]⟩ := by
      rw [← hups, ← hnames]
    obtain ⟨before, after, hpath, hbefore, hafter, hdepth⟩ := split_of_walk hwalk
    have hups' : (Walk.start.walk before).ups = 0 := by
      rw [hbefore]
      rfl
    have hground := grounded_of_walk hups'
    rw [hbefore] at hground
    refine ⟨before, after, hpath, hground.1, hground.2, hafter, ?_⟩
    have hlength := congrArg List.length hrest
    simp only [List.length_cons, List.length_map, List.length_reverse] at hlength
    omega
  · rintro ⟨before, after, rfl, hbefore, hzero, hafter, hpos⟩
    obtain ⟨names, hwalk, hnames⟩ := walk_of_grounded hbefore .start
    obtain rfl : names = [] := by
      rw [hzero] at hnames
      exact List.length_eq_zero_iff.mp (by omega)
    obtain ⟨names, hwalk', hnames'⟩ := walk_of_grounded hafter ⟨0, [a]⟩
    have hall : Walk.start.walk (before ++ .name a :: after) = ⟨0, names ++ [a]⟩ := by
      rw [walk_append, hwalk]
      exact hwalk'
    have hsegments := segments_eq_name_cons.mpr
      ⟨congrArg Walk.ups hall, names, congrArg Walk.names hall, rfl⟩
    cases hrev : names.reverse.map Segment.name with
    | nil =>
        have := congrArg List.length hrev
        simp only [List.length_map, List.length_reverse, List.length_nil] at this
        omega
    | cons next rest => exact ⟨next, rest, by rw [resolve, hsegments, hrev]⟩

/-! ## A path that begins with a name -/

theorem depth_cons (seg : Segment α) (path : List (Segment α)) :
    depth (seg :: path) = level seg + depth path := by
  simp [depth]

theorem grounded_name_cons {a : α} :
    Grounded (.name a :: path) ↔ ∀ before, before <+: path → -1 ≤ depth before := by
  constructor
  · intro h before hb
    have hdepth := h (.name a :: before) ((List.prefix_cons_inj _).mpr hb)
    rw [depth_cons, level] at hdepth
    omega
  · intro h before hb
    rcases List.prefix_cons_iff.mp hb with rfl | ⟨before, rfl, hbefore⟩
    · simp [depth]
    · have hdepth := h before hbefore
      rw [depth_cons, level]
      omega

/-- A path whose first segment is a name: either that name is `a` and the rest stays
above ground and enters more names than it leaves, or the rest goes up once to
where the path began, and no further, and comes in again at some `a`. -/
theorem below_name_cons_iff {a b : α} :
    Below a (.name b :: path) ↔
      (b = a ∧ Grounded path ∧ 0 < depth path) ∨
      ∃ out back, path = out ++ .name a :: back ∧
        (∀ before, before <+: out → -1 ≤ depth before) ∧ depth out = -1 ∧
        Grounded back ∧ 0 < depth back := by
  rw [below_iff]
  constructor
  · rintro ⟨before, after, hsplit, hbefore, hzero, hafter, hpos⟩
    cases before with
    | nil =>
        obtain ⟨hname, rfl⟩ := List.cons.inj hsplit
        exact .inl ⟨Segment.name.inj hname, hafter, hpos⟩
    | cons seg out =>
        obtain ⟨rfl, rfl⟩ := List.cons.inj hsplit
        rw [depth_cons, level] at hzero
        exact .inr ⟨out, after, rfl, grounded_name_cons.mp hbefore, by omega, hafter, hpos⟩
  · rintro (⟨rfl, hground, hpos⟩ | ⟨out, back, rfl, hout, hlevel, hback, hpos⟩)
    · exact ⟨[], path, rfl, grounded_nil, rfl, hground, hpos⟩
    · refine ⟨.name b :: out, back, rfl, grounded_name_cons.mpr hout, ?_, hback, hpos⟩
      rw [depth_cons, level]
      omega

end Walk

end Segment

end LinuxAdvance.Foundation
