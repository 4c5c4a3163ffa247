import LinuxAdvance.Calculator.Tiling
import LinuxAdvance.Termination

/-!
# What the drain loops leave behind

The loops take an empty package for the sign that nothing can be decoded, and a
frame may carry an empty payload.  Such a frame is taken off the buffer, and the
frames behind it stay.  A frame of 2^31 bytes or more is not taken as it is.
-/

namespace LinuxAdvance

open LinuxAdvance.Foundation
open LinuxAdvance.Cxx
open LinuxAdvance.Calculator
open LinuxAdvance.Reactor

def behindEmpty : List Bytes → List Bytes
  | [] => []
  | m :: ms => if m = [] then ms else behindEmpty ms

theorem behindEmpty_eq_nil_iff (ms : List Bytes) :
    behindEmpty ms = [] ↔ [] ∉ ms.dropLast := by
  induction ms with
  | nil => simp [behindEmpty]
  | cons m ms ih =>
      rw [behindEmpty]
      cases ms with
      | nil => simp [behindEmpty]
      | cons m' ms =>
          rw [List.dropLast_cons_of_ne_nil (List.cons_ne_nil _ _), List.mem_cons, not_or]
          split
          · next hm => simp [hm]
          · next hm => rw [ih, and_iff_right (Ne.symm hm)]

theorem flatMap_encode_append_eq_iff (ms : List Bytes) (rest : Bytes) :
    ms.flatMap encode ++ rest = rest ↔ ms = [] := by
  rw [List.append_left_eq_self]
  cases ms with
  | nil => simp
  | cons m ms => simp [encode, sep_eq]

/-! ## The loop on any buffer of complete frames -/

section Loop

variable {σ β : Type} {get : Proc Fault σ Bytes} {put : Bytes → Proc Fault σ Unit}
  {body : Bytes → β → Proc Fault σ β} {Good : σ → Prop} {buf : σ → Bytes}

theorem drainRound_stops (laws : OwnsBuffer Good buf get put body) {s : σ} (hs : Good s)
    {rest : Bytes} (hdecode : decode (buf s) = .ok ([], rest)) (x : β) :
    ∃ s', (drainRound get put body x).run s = .done (.inr x) s' ∧ buf s' = rest := by
  obtain ⟨s', hput, -, hbuf⟩ := laws.put_run s rest hs
  refine ⟨s', ?_, hbuf⟩
  rw [drainRound, Proc.run_bind_done (laws.get_run s hs), hdecode, eval_ok, Proc.pure_bind]
  dsimp only
  rw [Proc.run_bind_done hput, if_pos rfl]
  rfl

theorem iterate_stops (laws : OwnsBuffer Good buf get put body) {s s' : σ} (hs : Good s)
    {rest : Bytes} (hdecode : decode (buf s) = .ok ([], rest)) {n : Nat} {x x' : β}
    (hrun : (Proc.iterate (drainRound get put body) n x).run s = .done x' s') :
    buf s' = rest := by
  obtain ⟨s₁, hround, hbuf⟩ := drainRound_stops laws hs hdecode x
  cases n with
  | zero => cases hrun
  | succ n =>
      rw [Proc.iterate_succ_inr hround] at hrun
      cases hrun
      exact hbuf

theorem iterate_goes_on (laws : OwnsBuffer Good buf get put body) {s s' : σ} (hs : Good s)
    {pkg rest : Bytes} (hdecode : decode (buf s) = .ok (pkg, rest)) (hpkg : pkg ≠ [])
    {n : Nat} {x x' : β}
    (hrun : (Proc.iterate (drainRound get put body) n x).run s = .done x' s') :
    ∃ k x₁ s₁, k < n ∧ Good s₁ ∧ buf s₁ = rest ∧
      (Proc.iterate (drainRound get put body) k x₁).run s₁ = .done x' s' := by
  cases n with
  | zero => cases hrun
  | succ n =>
      rcases drainRound_cases laws hs x with
        ⟨e, s₁, h⟩ | ⟨x₁, s₁, rest', h, hempty⟩ | ⟨x₁, s₁, pkg', rest', h, hd, -, hs₁, hbuf⟩
      · rw [Proc.iterate_succ_raised h] at hrun
        cases hrun
      · rw [hdecode] at hempty
        exact absurd (congrArg Prod.fst (Except.ok.inj hempty)) hpkg
      · rw [hdecode] at hd
        obtain ⟨rfl, rfl⟩ := Prod.mk.inj (Except.ok.inj hd)
        rw [Proc.iterate_succ_inl h] at hrun
        exact ⟨n, x₁, s₁, Nat.lt_succ_self n, hs₁, hbuf, hrun⟩

theorem iterate_leaves (laws : OwnsBuffer Good buf get put body) {ms : List Bytes}
    (hms : ∀ m ∈ ms, (encode m).length < 2 ^ 31) {rest : Bytes}
    (hrest : decode rest = .ok ([], rest)) {n : Nat} {x x' : β} {s s' : σ} (hs : Good s)
    (hbuffer : buf s = ms.flatMap encode ++ rest)
    (hrun : (Proc.iterate (drainRound get put body) n x).run s = .done x' s') :
    buf s' = (behindEmpty ms).flatMap encode ++ rest := by
  induction ms generalizing n x s with
  | nil =>
      rw [List.flatMap_nil, List.nil_append] at hbuffer
      exact iterate_stops laws hs (hbuffer ▸ hrest) hrun
  | cons m ms ih =>
      have hdecode : decode (buf s) = .ok (m, ms.flatMap encode ++ rest) := by
        rw [hbuffer, List.flatMap_cons, List.append_assoc]
        exact decode_encode_append (hms m (by simp)) _
      rw [behindEmpty]
      by_cases hm : m = []
      · subst hm
        rw [if_pos rfl]
        exact iterate_stops laws hs hdecode hrun
      · rw [if_neg hm]
        obtain ⟨k, x₁, s₁, -, hs₁, hbuf, hrun'⟩ := iterate_goes_on laws hs hdecode hm hrun
        exact ih (fun m' hm' => hms m' (by simp [hm'])) hs₁ hbuf hrun'

/-! ### Frames of any length -/

theorem exists_decode (laws : OwnsBuffer Good buf get put body) {s s' : σ} (hs : Good s)
    {n : Nat} {x x' : β}
    (hrun : (Proc.iterate (drainRound get put body) n x).run s = .done x' s') :
    ∃ pkg rest, decode (buf s) = .ok (pkg, rest) := by
  cases n with
  | zero => cases hrun
  | succ n =>
      rcases drainRound_cases laws hs x with
        ⟨e, s₁, h⟩ | ⟨x₁, s₁, rest, h, hd⟩ | ⟨x₁, s₁, pkg, rest, h, hd, -⟩
      · rw [Proc.iterate_succ_raised h] at hrun
        cases hrun
      · exact ⟨_, rest, hd⟩
      · exact ⟨pkg, rest, hd⟩

theorem exists_tiles (laws : OwnsBuffer Good buf get put body) {n : Nat} {x x' : β}
    {s s' : σ} (hs : Good s)
    (hrun : (Proc.iterate (drainRound get put body) n x).run s = .done x' s') :
    ∃ pieces, buf s = pieces.flatten ++ buf s' ∧ Tiles (buf s') pieces := by
  induction n using Nat.strong_induction_on generalizing x s with
  | _ n ih =>
      obtain ⟨pkg, rest, hdecode⟩ := exists_decode laws hs hrun
      by_cases hpkg : pkg = []
      · subst hpkg
        obtain rfl := iterate_stops laws hs hdecode hrun
        rcases tile_of_decode hdecode with
          ⟨-, hrest, hstay⟩ | ⟨piece, d, hsplit, haccepts, hyields, htotal⟩
        · rw [hrest]
          exact ⟨[], rfl, .stay hstay⟩
        · refine ⟨[piece], by simpa using hsplit, .last haccepts ?_ htotal⟩
          exact fun hy => hyields.mpr hy rfl
      · obtain ⟨k, x₁, s₁, hk, hs₁, hbuf, hrun'⟩ :=
          iterate_goes_on laws hs hdecode hpkg hrun
        obtain ⟨pieces, hsplit, htiles⟩ := ih k hk hs₁ hrun'
        rcases tile_of_decode hdecode with
          ⟨hempty, -⟩ | ⟨piece, d, hpiece, -, hyields, htotal⟩
        · exact absurd hempty hpkg
        · rw [hbuf] at hsplit
          rw [hsplit] at hyields htotal hpiece
          refine ⟨piece :: pieces, ?_, .next (hyields.mp hpkg) htotal htiles⟩
          rw [hpiece, List.flatten_cons, List.append_assoc]

theorem leaves_of_tiles (laws : OwnsBuffer Good buf get put body) {rest : Bytes}
    {pieces : List Bytes} (h : Tiles rest pieces) {n : Nat} {x x' : β} {s s' : σ}
    (hs : Good s) (hbuffer : buf s = pieces.flatten ++ rest)
    (hrun : (Proc.iterate (drainRound get put body) n x).run s = .done x' s') :
    buf s' = rest := by
  induction h generalizing n x s with
  | stay hstay =>
      obtain ⟨pkg, rest', hdecode⟩ := exists_decode laws hs hrun
      rcases decode_cases hdecode with ⟨rfl, hrest⟩ | ⟨d, haccepts, -⟩
      · exact (iterate_stops laws hs hdecode hrun).trans (hrest.trans hbuffer)
      · rw [hbuffer] at haccepts
        exact absurd haccepts (hstay d)
  | last haccepts hnone htotal =>
      rw [List.flatten_singleton] at hbuffer
      have hdecode := decode_of_tile haccepts htotal
      rw [slice_eq_nil haccepts hnone, ← hbuffer] at hdecode
      exact iterate_stops laws hs hdecode hrun
  | next hyields htotal _ ih =>
      rw [List.flatten_cons, List.append_assoc] at hbuffer
      have hdecode := decode_of_tile hyields.toAccepts htotal
      rw [← hbuffer] at hdecode
      obtain ⟨k, x₁, s₁, -, hs₁, hbuf, hrun'⟩ := iterate_goes_on laws hs hdecode
        (hbuffer ▸ (yields_iff.mp hyields).2) hrun
      exact ih hs₁ hbuf hrun'

/-- The first frame of 2^31 bytes or more stops the loop, and stays. -/
theorem iterate_leaves_long (laws : OwnsBuffer Good buf get put body) {ms : List Bytes}
    (hms : ∀ m ∈ ms, (encode m).length < 2 ^ 32) {rest : Bytes}
    (hlong : ∃ m ∈ ms, 2 ^ 31 ≤ (encode m).length) {n : Nat} {x x' : β} {s s' : σ}
    (hs : Good s) (hbuffer : buf s = ms.flatMap encode ++ rest)
    (hsize : (buf s).length < 2 ^ 63)
    (hrun : (Proc.iterate (drainRound get put body) n x).run s = .done x' s') :
    buf s' ≠ rest := by
  obtain ⟨before, m, behind, rfl, hshort, hm⟩ :
      ∃ before m behind, ms = before ++ m :: behind ∧
        (∀ m' ∈ before, (encode m').length < 2 ^ 31) ∧ 2 ^ 31 ≤ (encode m).length := by
    have hsome : (ms.find? fun m => decide (2 ^ 31 ≤ (encode m).length)).isSome := by
      rw [List.find?_isSome]
      simpa only [decide_eq_true_eq] using hlong
    obtain ⟨m, hfind⟩ := Option.isSome_iff_exists.mp hsome
    obtain ⟨hm, before, behind, heq, hbefore⟩ := List.find?_eq_some_iff_append.mp hfind
    exact ⟨before, m, behind, heq, fun m' hm' => by simpa using hbefore m' hm',
      of_decide_eq_true hm⟩
  have hsplit : (before ++ m :: behind).flatMap encode ++ rest =
      before.flatMap encode ++ (encode m ++ (behind.flatMap encode ++ rest)) := by
    simp
  rw [hbuffer, hsplit] at hsize
  rw [hsplit] at hbuffer
  have hstays : decode (encode m ++ (behind.flatMap encode ++ rest)) =
      .ok ([], encode m ++ (behind.flatMap encode ++ rest)) := by
    refine decode_of_long_frame hm (hms m (by simp)) ?_
    rw [List.length_append] at hsize
    omega
  rw [iterate_leaves laws hshort hstays hs hbuffer hrun]
  intro heq
  have hlen := congrArg List.length heq
  simp only [List.length_append] at hlen
  omega

end Loop

/--
What is `left` of the frames of `ms` and the proper prefix `rest` of that of `m`.
It is `rest` alone exactly when the frames fall into pieces as their headers
announce them; among frames shorter than 2^32 these are the frames themselves,
if no payload but the last is empty and none is of 2^31 bytes or more.
-/
structure Leaves (ms : List Bytes) (m rest left : Bytes) : Prop where
  tiled : left = rest ↔ ∃ pieces, pieces.flatten = ms.flatMap encode ∧ Tiles rest pieces
  below : (∀ m' ∈ m :: ms, (encode m').length < 2 ^ 32) →
    (ms.flatMap encode ++ rest).length < 2 ^ 63 →
    (left = rest ↔ [] ∉ ms.dropLast ∧ ∀ m' ∈ ms, (encode m').length < 2 ^ 31)
  behind : (∀ m' ∈ ms, (encode m').length < 2 ^ 31) → (encode m).length < 2 ^ 32 →
    left = (behindEmpty ms).flatMap encode ++ rest

section Loop

variable {σ β : Type} {get : Proc Fault σ Bytes} {put : Bytes → Proc Fault σ Unit}
  {body : Bytes → β → Proc Fault σ β} {Good : σ → Prop} {buf : σ → Bytes}

theorem drain_leaves (laws : OwnsBuffer Good buf get put body) {ms : List Bytes}
    {m rest : Bytes} (hpre : rest <+: encode m) (hproper : rest ≠ encode m) {x x' : β}
    {s s' : σ} (hs : Good s) (hbuffer : buf s = ms.flatMap encode ++ rest)
    (hrun : (drain get put body x).run s = .done x' s') :
    Leaves ms m rest (buf s') := by
  rw [drain, Proc.run_bind_done (laws.get_run s hs)] at hrun
  have hbehind (hms : ∀ m' ∈ ms, (encode m').length < 2 ^ 31)
      (hm : (encode m).length < 2 ^ 32) :
      buf s' = (behindEmpty ms).flatMap encode ++ rest :=
    iterate_leaves laws hms (decode_of_cut hm hpre hproper) hs hbuffer hrun
  constructor
  · constructor
    · rintro rfl
      obtain ⟨pieces, hsplit, htiles⟩ := exists_tiles laws hs hrun
      exact ⟨pieces, List.append_cancel_right (hsplit.symm.trans hbuffer), htiles⟩
    · rintro ⟨pieces, hflatten, htiles⟩
      exact leaves_of_tiles laws htiles hs (hbuffer.trans (by rw [hflatten])) hrun
  · intro hall hsize
    rw [List.forall_mem_cons] at hall
    by_cases hms : ∀ m' ∈ ms, (encode m').length < 2 ^ 31
    · rw [hbehind hms hall.1, flatMap_encode_append_eq_iff, behindEmpty_eq_nil_iff]
      exact (and_iff_left hms).symm
    · refine iff_of_false ?_ fun h => hms h.2
      push Not at hms
      exact iterate_leaves_long laws hall.2 hms hs hbuffer (hbuffer ▸ hsize) hrun
  · exact hbehind

end Loop

/-! ## The two servers -/

section Servers

variable (build : Build) (execute : Request → Except Exn Response) (uninit : Request)

/-- A buffer of complete frames and a proper prefix of another, when the loop of
`Parse`, or that of `AddService`, stops. -/
theorem loops_leave_iff (ms : List Bytes) (m rest : Bytes)
    (hpre : rest <+: encode m) (hproper : rest ≠ encode m) :
    (∀ (s s' : Session) (req : Request), s.registered = true →
      s.conn.inbuffer = ms.flatMap encode ++ rest →
      (parseDrain build execute uninit).run s = .done req s' →
      Leaves ms m rest s'.conn.inbuffer) ∧
    ∀ (c c' : Conversation) (req : Request),
      c.recvmessage = ms.flatMap encode ++ rest →
      (serviceDrain build execute uninit).run c = .done req c' →
      Leaves ms m rest c'.recvmessage := by
  constructor
  · intro s s' req hlive hbuffer hrun
    exact drain_leaves (parse_ownsBuffer build execute) hpre hproper hlive hbuffer hrun
  · intro c c' req hbuffer hrun
    exact drain_leaves (serve_ownsBuffer build execute) hpre hproper trivial hbuffer hrun

end Servers

def emptyFirst : List Bytes := [[], text "1 + 1"]

def emptyFirstSession : Session :=
  (Session.opened 5).withInbuffer (text "0\r\n\r\n5\r\n1 + 1\r\n")

theorem parseDrain_emptyFirst :
    (parseDrain .self Calculate.execute ⟨0, 0, 0⟩).run emptyFirstSession =
      .done ⟨0, 0, 0⟩ (emptyFirstSession.withInbuffer (text "5\r\n1 + 1\r\n")) := by
  rfl

def longPayload : Bytes := List.replicate 2147483634 48

theorem length_encode_longPayload : (encode longPayload).length = 2 ^ 31 := by
  rw [length_encode, longPayload, List.length_replicate]
  decide

theorem two_prefix_encode_longPayload : text "2" <+: encode longPayload := by
  rw [encode_parts, longPayload, List.length_replicate, List.append_assoc]
  exact (show text "2" <+: _ from by decide).trans (List.prefix_append _ _)

def cutSession : Session :=
  (Session.opened 5).withInbuffer (text "5\r\n1 + 1\r\n2")

/-- Behind an empty payload a frame stays, and of a frame of 2^31 bytes its
first byte. -/
theorem loops_leave_iff_emptyFirst :
    text "5\r\n1 + 1\r\n" = (behindEmpty emptyFirst).flatMap encode ++ [] ∧
      text "5\r\n1 + 1\r\n" ≠ [] ∧
      ∃ s', (parseDrain .self Calculate.execute ⟨0, 0, 0⟩).run cutSession =
          .done ⟨1, 1, 43⟩ s' ∧ s'.conn.inbuffer = text "2" := by
  have h := (loops_leave_iff .self Calculate.execute ⟨0, 0, 0⟩ emptyFirst [] []
    (by decide) (by decide)).1 emptyFirstSession _ _ rfl (by decide) parseDrain_emptyFirst
  have hproper : text "2" ≠ encode longPayload := by
    intro heq
    have := congrArg List.length heq
    rw [length_encode_longPayload] at this
    exact absurd this (by decide)
  have hcut (s' : Session) (hrun : (parseDrain .self Calculate.execute ⟨0, 0, 0⟩).run
      cutSession = .done ⟨1, 1, 43⟩ s') : s'.conn.inbuffer = text "2" := by
    refine (((loops_leave_iff .self Calculate.execute ⟨0, 0, 0⟩ [text "1 + 1"] longPayload
      (text "2") two_prefix_encode_longPayload hproper).1 cutSession s' _ rfl rfl hrun).below
      ?_ (by decide)).mpr (by decide)
    rw [List.forall_mem_cons, length_encode_longPayload]
    exact ⟨by decide, by decide⟩
  exact ⟨h.behind (by decide) (by decide),
    fun heq => ((h.below (by decide) (by decide)).mp heq).1 (by decide),
    _, rfl, hcut _ rfl⟩

/-- The request behind the empty payload is not answered, although it is there
as a whole. -/
theorem complete_frame_stays : ¬ ∀ (ms : List Bytes) (m rest : Bytes),
    rest <+: encode m → rest ≠ encode m → ∀ (s s' : Session) (req : Request),
      s.registered = true → s.conn.inbuffer = ms.flatMap encode ++ rest →
      (parseDrain .self Calculate.execute ⟨0, 0, 0⟩).run s = .done req s' →
      s'.conn.inbuffer = rest := by
  intro h
  have hrest := h emptyFirst [] [] (by decide) (by decide) emptyFirstSession _ _ rfl
    (by decide) parseDrain_emptyFirst
  exact absurd hrest (by decide)

end LinuxAdvance
