import LinuxAdvance.Calculator.Arithmetic
import LinuxAdvance.Calculator.RealFrames

/-!
# The text codec

The two `DeSerialize` of the `SELF` build find the fields by blanks: a request's
by the first and the last one, a response's by the first two.  The character
between them may be a blank itself, and so may those of the equation.
-/

namespace LinuxAdvance.Calculator

open LinuxAdvance.Foundation
open LinuxAdvance.Cxx

theorem calSep_eq : calSep = [32] := by decide

theorem blank_notMem_intToString (i : Int) : (32 : UInt8) ∉ intToString i := by
  intro h
  rcases mem_intToString h with h | h <;> revert h <;> decide

/-! ## Positions of blanks -/

theorem find_blank {pre : Bytes} (h : (32 : UInt8) ∉ pre) (post : Bytes) :
    find (pre ++ 32 :: post) calSep = pre.length := by
  rw [find, calSep_eq, findSub?_append_cons h, Option.getD_some]

theorem rfind_blank {post : Bytes} (h : (32 : UInt8) ∉ post) (pre : Bytes) :
    rfind (pre ++ 32 :: post) calSep = pre.length := by
  rw [rfind, calSep_eq, rfindSub?_append h, Option.getD_some]

theorem exists_of_find_ne {s : Bytes} (h : find s calSep ≠ npos) :
    ∃ pre post, s = pre ++ 32 :: post ∧ (32 : UInt8) ∉ pre ∧ find s calSep = pre.length := by
  cases hfind : findSub? calSep s with
  | none => exact absurd (by rw [find, hfind, Option.getD_none]) h
  | some i =>
      rw [calSep_eq] at hfind
      obtain ⟨pre, post, rfl, hpre, -⟩ := findSub?_singleton_iff.mp hfind
      exact ⟨pre, post, rfl, hpre, find_blank hpre post⟩

theorem exists_of_rfind_ne {s : Bytes} (h : rfind s calSep ≠ npos) :
    ∃ pre post, s = pre ++ 32 :: post ∧ (32 : UInt8) ∉ post ∧ rfind s calSep = pre.length := by
  cases hfind : rfindSub? calSep s with
  | none => exact absurd (by rw [rfind, hfind, Option.getD_none]) h
  | some i =>
      rw [calSep_eq] at hfind
      obtain ⟨pre, post, rfl, hpost, -⟩ := rfindSub?_singleton_iff.mp hfind
      exact ⟨pre, post, rfl, hpost, rfind_blank hpost pre⟩

theorem findFrom_blank (pre : Bytes) {mid : Bytes} (h : (32 : UInt8) ∉ mid) (post : Bytes) :
    findFrom (pre ++ (mid ++ 32 :: post)) calSep pre.length = pre.length + mid.length := by
  rw [findFrom, if_pos (by simp), List.drop_left, calSep_eq, findSub?_append_cons h]

theorem exists_of_findFrom_ne {pre s : Bytes}
    (h : findFrom (pre ++ s) calSep pre.length ≠ npos) :
    ∃ mid post, s = mid ++ 32 :: post ∧ (32 : UInt8) ∉ mid ∧
      findFrom (pre ++ s) calSep pre.length = pre.length + mid.length := by
  cases hfind : findSub? calSep s with
  | none =>
      rw [findFrom, if_pos (by simp), List.drop_left, hfind] at h
      exact absurd rfl h
  | some i =>
      rw [calSep_eq] at hfind
      obtain ⟨mid, post, rfl, hmid, -⟩ := findSub?_singleton_iff.mp hfind
      exact ⟨mid, post, rfl, hmid, findFrom_blank pre hmid post⟩

theorem substr_front (pre post : Bytes) : substr (pre ++ post) 0 pre.length = .ok pre := by
  rw [substr_eq_ok_iff]
  exact ⟨Nat.zero_le _, by simp⟩

theorem substr_back {s pre post : Bytes} {pos : Nat} (hs : s.length < 2 ^ 64)
    (htext : s = pre ++ post) (hpos : pos = pre.length) :
    substr s pos npos = .ok post := by
  subst htext hpos
  have hnpos : npos = 2 ^ 64 - 1 := rfl
  rw [List.length_append] at hs
  rw [substr_eq_ok_iff]
  refine ⟨by simp, ?_⟩
  rw [List.drop_left, List.take_of_length_le (by omega)]

/-! ## A text, a blank, one character, a blank, and the rest -/

section Fields

variable {xs xs' : Bytes} {c c' : UInt8} {ys ys' : Bytes}

theorem fields_inj (hx : (32 : UInt8) ∉ xs) (hx' : (32 : UInt8) ∉ xs')
    (h : xs ++ 32 :: c :: 32 :: ys = xs' ++ 32 :: c' :: 32 :: ys') :
    xs = xs' ∧ c = c' ∧ ys = ys' := by
  have hfind := find_blank hx (c :: 32 :: ys)
  have hfind' := find_blank hx' (c' :: 32 :: ys')
  rw [h, hfind'] at hfind
  obtain ⟨hxs, hrest⟩ := List.append_inj h hfind.symm
  simp only [List.cons.injEq, true_and] at hrest
  exact ⟨hxs, hrest⟩

theorem length_fields :
    (xs ++ 32 :: c :: 32 :: ys).length = xs.length + ys.length + 3 := by
  simp only [List.length_append, List.length_cons]
  omega

theorem getD_fields : (xs ++ 32 :: c :: 32 :: ys).getD (xs.length + 2 - 1) 0 = c := by
  rw [List.getD_append_right _ _ _ _ (by omega)]
  simp

theorem substr_fields (hs : (xs ++ 32 :: c :: 32 :: ys).length < 2 ^ 64) :
    substr (xs ++ 32 :: c :: 32 :: ys) (xs.length + 2 + 1) npos = .ok ys := by
  have htext : xs ++ 32 :: c :: 32 :: ys = (xs ++ [32, c, 32]) ++ ys := by simp
  exact substr_back hs htext (by simp)

end Fields

def Canonical (s : Bytes) : Prop := ∃ i : Int32, s = intToString i.toInt

/-- The call returns, it returns true on what `Written` says and on nothing
else, and otherwise the object is left as it was. -/
def Exact {τ : Type} (p : Proc Fault τ Bool) (Written : Prop) : Prop :=
  ∀ object, ∃ verdict object', p.run object = .done verdict object' ∧
    (verdict = true ↔ Written) ∧ (verdict ≠ true → object' = object)

theorem exact_of_accepted {τ : Type} {p : Proc Fault τ Bool} {value : τ} {Written : Prop}
    (h : Accepted p value) (hwritten : Written) : Exact p Written :=
  fun object => ⟨true, value, h object, iff_of_true rfl hwritten, fun hne => absurd rfl hne⟩

theorem exact_of_rejected {τ : Type} {p : Proc Fault τ Bool} {Written : Prop}
    (h : Rejected p) (hwritten : ¬ Written) : Exact p Written :=
  fun object => ⟨false, object, h object, iff_of_false Bool.false_ne_true hwritten,
    fun _ => rfl⟩

namespace Request

/-- What passes the four checks: a text, a blank, one character, a blank, and a
text; neither text is empty or has a blank in it. -/
structure Shaped (s xs : Bytes) (c : UInt8) (ys : Bytes) : Prop where
  text : s = xs ++ 32 :: c :: 32 :: ys
  blankX : (32 : UInt8) ∉ xs
  blankY : (32 : UInt8) ∉ ys
  nonemptyX : xs ≠ []
  nonemptyY : ys ≠ []

theorem shaped_serialize (q : Request) :
    Shaped (q.serialize .self) (intToString q.x.toInt) q.oper (intToString q.y.toInt) where
  text := by simp [serialize, calSep_eq]
  blankX := blank_notMem_intToString _
  blankY := blank_notMem_intToString _
  nonemptyX := intToString_ne_nil _
  nonemptyY := intToString_ne_nil _

theorem Shaped.unique {s xs xs' ys ys' : Bytes} {c c' : UInt8} (h : Shaped s xs c ys)
    (h' : Shaped s xs' c' ys') : xs = xs' ∧ c = c' ∧ ys = ys' :=
  fields_inj h.blankX h'.blankX (h.text.symm.trans h'.text)

def assign (xs : Bytes) (c : UInt8) (ys : Bytes) : Proc Fault Request Bool := do
  let x ← eval (stoi xs)
  Proc.modify fun req => { req with x }
  let y ← eval (stoi ys)
  Proc.modify fun req => { req with y }
  Proc.modify fun req => { req with oper := c }
  return true

theorem deSerialize_of_shaped {s xs ys : Bytes} {c : UInt8} (hs : s.length < 2 ^ 64)
    (h : Shaped s xs c ys) : deSerialize s .self = assign xs c ys := by
  obtain ⟨rfl, hx, hy, hxne, hyne⟩ := h
  have hleft := find_blank hx (c :: 32 :: ys)
  have hsplit : xs ++ 32 :: c :: 32 :: ys = (xs ++ [32, c]) ++ 32 :: ys := by simp
  have hright : rfind (xs ++ 32 :: c :: 32 :: ys) calSep = xs.length + 2 := by
    rw [hsplit, rfind_blank hy]
    simp
  have hlen : (xs ++ 32 :: c :: 32 :: ys).length = xs.length + ys.length + 3 := length_fields
  have hnpos : npos = 2 ^ 64 - 1 := rfl
  unfold deSerialize
  dsimp only
  rw [hleft, if_neg (by omega), substr_front, eval_ok, Proc.pure_bind, if_neg hxne, hright,
    if_neg (by omega), substr_fields hs, eval_ok, Proc.pure_bind, if_neg hyne,
    if_neg (by rw [calSep_eq]; simp), getD_fields]
  rfl

theorem shaped_of_positions {xs rest pre ys : Bytes}
    (htext : xs ++ 32 :: rest = pre ++ 32 :: ys) (hpos : xs.length + 2 = pre.length) :
    ∃ c, xs ++ 32 :: rest = xs ++ 32 :: c :: 32 :: ys := by
  have hsplit : (xs ++ [32]) ++ rest = pre ++ 32 :: ys := by simpa using htext
  rcases List.append_eq_append_iff.mp hsplit with ⟨mid, hpre, hrest⟩ | ⟨mid, hxs, -⟩
  · have hmid : mid.length = 1 := by
      have := congrArg List.length hpre
      simp only [List.length_append, List.length_cons, List.length_nil] at this
      omega
    obtain ⟨c, rfl⟩ := List.length_eq_one_iff.mp hmid
    exact ⟨c, by rw [hrest]; rfl⟩
  · have := congrArg List.length hxs
    simp only [List.length_append, List.length_cons, List.length_nil] at this
    omega

theorem rejected_of_unshaped {s : Bytes} (hs : s.length < 2 ^ 64)
    (h : ¬ ∃ xs c ys, Shaped s xs c ys) : Rejected (deSerialize s .self) := by
  unfold deSerialize
  dsimp only
  split
  · exact fun _ => rfl
  next hleft =>
  obtain ⟨xs, rest, htext, hx, hfind⟩ := exists_of_find_ne hleft
  have hxStr : substr s 0 (find s calSep) = .ok xs := by
    rw [hfind, htext, substr_front]
  rw [hxStr, eval_ok, Proc.pure_bind]
  split
  · exact fun _ => rfl
  next hxne =>
  split
  · exact fun _ => rfl
  next hright =>
  obtain ⟨pre, ys, htext', hy, hrfind⟩ := exists_of_rfind_ne hright
  have hyStr : substr s (rfind s calSep + 1) npos = .ok ys := by
    have hpre : s = (pre ++ [32]) ++ ys := by simpa using htext'
    refine substr_back hs hpre ?_
    rw [hrfind, List.length_append, List.length_singleton]
  rw [hyStr, eval_ok, Proc.pure_bind]
  split
  · exact fun _ => rfl
  next hyne =>
  split
  · exact fun _ => rfl
  next hpos =>
  rw [hfind, hrfind, calSep_eq] at hpos
  obtain ⟨c, hc⟩ := shaped_of_positions (htext.symm.trans htext') (Decidable.not_not.mp hpos)
  exact absurd ⟨xs, c, ys, htext.trans hc, hx, hy, hxne, hyne⟩ h

theorem run_assign {xs ys : Bytes} {c : UInt8} {x y : Int32} (hx : stoi xs = .ok x)
    (hy : stoi ys = .ok y) (object : Request) :
    (assign xs c ys).run object = .done true ⟨x, y, c⟩ := by
  rw [assign, hx, hy]
  rfl

theorem assign_returns {xs ys : Bytes} {c : UInt8} {object object' : Request}
    {verdict : Bool} (h : (assign xs c ys).run object = .done verdict object') :
    verdict = true := by
  unfold assign at h
  cases hx : stoi xs with
  | error e =>
      rw [hx] at h
      cases h
  | ok x =>
      cases hy : stoi ys with
      | error e =>
          rw [hx, hy] at h
          cases h
      | ok y =>
          rw [hx, hy] at h
          cases h
          rfl

theorem length_serialize_le (q : Request) : (q.serialize .self).length ≤ 25 := by
  have hx := length_intToString_le q.x
  have hy := length_intToString_le q.y
  simp only [serialize, calSep_eq, List.length_append, List.length_singleton]
  omega

theorem accepted_of_shaped {s : Bytes} {q : Request} (hs : s.length < 2 ^ 64)
    (h : Shaped s (intToString q.x.toInt) q.oper (intToString q.y.toInt)) :
    Accepted (deSerialize s .self) q := by
  intro object
  rw [deSerialize_of_shaped hs h]
  exact run_assign (stoi_intToString q.x) (stoi_intToString q.y) object

theorem accepted_serialize (q : Request) :
    Accepted (deSerialize (q.serialize .self) .self) q := by
  have hlen := length_serialize_le q
  exact accepted_of_shaped (by omega) (shaped_serialize q)

theorem exact_iff {s : Bytes} (hs : s.length < 2 ^ 64) :
    Exact (deSerialize s .self) (∃ q : Request, s = q.serialize .self) ↔
      ∀ xs c ys, Shaped s xs c ys → Canonical xs ∧ Canonical ys := by
  constructor
  · intro hexact xs c ys hshaped
    obtain ⟨verdict, object', hrun, hwritten, -⟩ := hexact ⟨0, 0, 0⟩
    rw [deSerialize_of_shaped hs hshaped] at hrun
    obtain ⟨q, rfl⟩ := hwritten.mp (assign_returns hrun)
    obtain ⟨rfl, -, rfl⟩ := hshaped.unique (shaped_serialize q)
    exact ⟨⟨q.x, rfl⟩, ⟨q.y, rfl⟩⟩
  · intro hcanonical
    by_cases hshaped : ∃ xs c ys, Shaped s xs c ys
    · obtain ⟨xs, c, ys, hshaped⟩ := hshaped
      obtain ⟨⟨x, rfl⟩, ⟨y, rfl⟩⟩ := hcanonical xs c ys hshaped
      have hs' : s = serialize ⟨x, y, c⟩ .self :=
        hshaped.text.trans (shaped_serialize ⟨x, y, c⟩).text.symm
      exact exact_of_accepted (accepted_of_shaped (q := ⟨x, y, c⟩) hs hshaped) ⟨_, hs'⟩
    · refine exact_of_rejected (rejected_of_unshaped hs hshaped) ?_
      rintro ⟨q, rfl⟩
      exact hshaped ⟨_, _, _, shaped_serialize q⟩

end Request

namespace Response

/-- What passes the four checks here: the second blank is the first one behind
the character, which then is none itself. -/
structure Shaped (s rs : Bytes) (c : UInt8) (equation : Bytes) : Prop where
  text : s = rs ++ 32 :: c :: 32 :: equation
  blankResult : (32 : UInt8) ∉ rs
  blankFlag : c ≠ 32
  nonemptyResult : rs ≠ []
  nonemptyEquation : equation ≠ []

theorem Shaped.unique {s rs rs' e e' : Bytes} {c c' : UInt8} (h : Shaped s rs c e)
    (h' : Shaped s rs' c' e') : rs = rs' ∧ c = c' ∧ e = e' :=
  fields_inj h.blankResult h'.blankResult (h.text.symm.trans h'.text)

def assign (rs : Bytes) (c : UInt8) (equation : Bytes) : Proc Fault Response Bool := do
  let result ← eval (stoi rs)
  Proc.modify fun resp => { resp with result }
  Proc.modify fun resp => { resp with flag := intOfChar c - 48 }
  Proc.modify fun resp => { resp with equation }
  return true

theorem deSerialize_of_shaped {s rs e : Bytes} {c : UInt8} (hs : s.length < 2 ^ 64)
    (h : Shaped s rs c e) : deSerialize s .self = assign rs c e := by
  obtain ⟨rfl, hr, hc, hrne, hene⟩ := h
  have hleft := find_blank hr (c :: 32 :: e)
  have hlen : (rs ++ 32 :: c :: 32 :: e).length = rs.length + e.length + 3 := length_fields
  have hnpos : npos = 2 ^ 64 - 1 := rfl
  have hsecond : findFrom (rs ++ 32 :: c :: 32 :: e) calSep (rs.length + 1) =
      rs.length + 2 := by
    have hsplit : rs ++ 32 :: c :: 32 :: e = (rs ++ [32]) ++ ([c] ++ 32 :: e) := by simp
    have hmid : (32 : UInt8) ∉ [c] := by simpa using hc.symm
    have hfrom := findFrom_blank (rs ++ [32]) hmid e
    rw [← hsplit, List.length_append] at hfrom
    exact hfrom
  unfold deSerialize
  dsimp only
  rw [hleft, if_neg (by omega), substr_front, eval_ok, Proc.pure_bind, if_neg hrne, hsecond,
    if_neg (by omega), substr_fields hs, eval_ok, Proc.pure_bind, if_neg hene,
    if_neg (by rw [calSep_eq]; simp), getD_fields]
  rfl

theorem rejected_of_unshaped {s : Bytes} (hs : s.length < 2 ^ 64)
    (h : ¬ ∃ rs c e, Shaped s rs c e) : Rejected (deSerialize s .self) := by
  unfold deSerialize
  dsimp only
  split
  · exact fun _ => rfl
  next hleft =>
  obtain ⟨rs, rest, htext, hr, hfind⟩ := exists_of_find_ne hleft
  have hsplit : s = (rs ++ [32]) ++ rest := by simpa using htext
  have hstart : find s calSep + 1 = (rs ++ [32]).length := by
    rw [hfind, List.length_append, List.length_singleton]
  have hrStr : substr s 0 (find s calSep) = .ok rs := by
    rw [hfind, htext, substr_front]
  rw [hrStr, eval_ok, Proc.pure_bind, hstart]
  split
  · exact fun _ => rfl
  next hrne =>
  split
  · exact fun _ => rfl
  next hsecond =>
  rw [hsplit] at hsecond
  obtain ⟨mid, e, rfl, hmid, hfrom⟩ := exists_of_findFrom_ne hsecond
  rw [← hsplit] at hfrom
  have hequation : substr s (findFrom s calSep (rs ++ [32]).length + 1) npos = .ok e := by
    have hpre : s = (rs ++ [32] ++ mid ++ [32]) ++ e := by simpa using htext
    refine substr_back hs hpre ?_
    rw [hfrom]
    simp only [List.length_append, List.length_singleton]
  rw [hequation, eval_ok, Proc.pure_bind]
  split
  · exact fun _ => rfl
  next hene =>
  split
  · exact fun _ => rfl
  next hpos =>
  have hone : mid.length = 1 := by
    rw [hfrom, calSep_eq] at hpos
    simp only [List.length_append, List.length_singleton, ne_eq, Decidable.not_not] at hpos
    omega
  obtain ⟨c, rfl⟩ := List.length_eq_one_iff.mp hone
  exact absurd ⟨rs, c, e, htext, hr, fun hc => hmid (by simp [hc]), hrne, hene⟩ h

/-! ## The flag as one character -/

def OneDigit (flag : Int32) : Prop := 0 ≤ flag.toInt ∧ flag.toInt ≤ 9

instance (flag : Int32) : Decidable (OneDigit flag) :=
  inferInstanceAs (Decidable (0 ≤ flag.toInt ∧ flag.toInt ≤ 9))

theorem digit_of_nat {n : Nat} (h : n < 10) :
    isDigit (UInt8.ofNat (48 + n)) = true ∧
      intToString (Int32.ofNat n).toInt = [UInt8.ofNat (48 + n)] ∧
      intOfChar (UInt8.ofNat (48 + n)) - 48 = Int32.ofNat n := by
  revert n
  decide

theorem digit_of_flag {flag : Int32} (h : OneDigit flag) :
    ∃ c, isDigit c = true ∧ intToString flag.toInt = [c] ∧ intOfChar c - 48 = flag := by
  obtain ⟨hlow, hhigh⟩ := h
  have hflag : flag = Int32.ofNat flag.toInt.toNat := by
    rw [← Int32.toInt_inj, Int32.toInt_ofNat_of_lt (by omega)]
    omega
  obtain ⟨hdigit, htext, hvalue⟩ := digit_of_nat (by omega : flag.toInt.toNat < 10)
  rw [← hflag] at htext hvalue
  exact ⟨_, hdigit, htext, hvalue⟩

theorem flag_of_digit {c : UInt8} (h : isDigit c = true) :
    OneDigit (intOfChar c - 48) ∧ intToString (intOfChar c - 48).toInt = [c] := by
  simp only [isDigit, Bool.and_eq_true, decide_eq_true_eq, UInt8.le_iff_toNat_le,
    UInt8.reduceToNat] at h
  have hc : c = UInt8.ofNat (48 + (c.toNat - 48)) := by
    have hsize : UInt8.size = 256 := rfl
    rw [← UInt8.toNat_inj, UInt8.toNat_ofNat_of_lt' (by omega)]
    omega
  obtain ⟨-, htext, hvalue⟩ := digit_of_nat (by omega : c.toNat - 48 < 10)
  rw [← hc] at htext hvalue
  rw [hvalue]
  refine ⟨?_, htext⟩
  rw [OneDigit, Int32.toInt_ofNat_of_lt (by omega)]
  omega

/-! ## Exactness -/

theorem run_assign {rs e : Bytes} {c : UInt8} {result : Int32} (hr : stoi rs = .ok result)
    (object : Response) :
    (assign rs c e).run object = .done true ⟨result, intOfChar c - 48, e⟩ := by
  rw [assign, hr]
  rfl

theorem assign_returns {rs e : Bytes} {c : UInt8} {object object' : Response}
    {verdict : Bool} (h : (assign rs c e).run object = .done verdict object') :
    verdict = true := by
  unfold assign at h
  cases hr : stoi rs with
  | error _ =>
      rw [hr] at h
      cases h
  | ok result =>
      rw [hr] at h
      cases h
      rfl

theorem serialize_of_digit {resp : Response} {c : UInt8}
    (h : intToString resp.flag.toInt = [c]) :
    resp.serialize .self =
      intToString resp.result.toInt ++ 32 :: c :: 32 :: resp.equation := by
  rw [serialize, calSep_eq, h]
  simp

theorem shaped_serialize {resp : Response} (hflag : OneDigit resp.flag)
    (hequation : resp.equation ≠ []) :
    ∃ c, isDigit c = true ∧ intOfChar c - 48 = resp.flag ∧
      Shaped (resp.serialize .self) (intToString resp.result.toInt) c resp.equation := by
  obtain ⟨c, hdigit, htext, hvalue⟩ := digit_of_flag hflag
  refine ⟨c, hdigit, hvalue, serialize_of_digit htext, blank_notMem_intToString _, ?_,
    intToString_ne_nil _, hequation⟩
  rintro rfl
  exact absurd hdigit (by decide)

theorem accepted_of_shaped {s : Bytes} {c : UInt8} {resp : Response} (hs : s.length < 2 ^ 64)
    (h : Shaped s (intToString resp.result.toInt) c resp.equation)
    (hvalue : intOfChar c - 48 = resp.flag) : Accepted (deSerialize s .self) resp := by
  intro object
  rw [deSerialize_of_shaped hs h, run_assign (stoi_intToString resp.result), hvalue]

theorem accepted_serialize {resp : Response} (hflag : OneDigit resp.flag)
    (hequation : resp.equation ≠ []) (hs : (resp.serialize .self).length < 2 ^ 64) :
    Accepted (deSerialize (resp.serialize .self) .self) resp := by
  obtain ⟨c, -, hvalue, hshaped⟩ := shaped_serialize hflag hequation
  exact accepted_of_shaped hs hshaped hvalue

theorem exact_iff {s : Bytes} (hs : s.length < 2 ^ 64) :
    Exact (deSerialize s .self) (∃ resp : Response, OneDigit resp.flag ∧
        resp.equation ≠ [] ∧ s = resp.serialize .self) ↔
      ∀ rs c e, Shaped s rs c e → Canonical rs ∧ isDigit c = true := by
  constructor
  · intro hexact rs c e hshaped
    obtain ⟨verdict, object', hrun, hwritten, -⟩ := hexact {}
    rw [deSerialize_of_shaped hs hshaped] at hrun
    obtain ⟨resp, hflag, hequation, rfl⟩ := hwritten.mp (assign_returns hrun)
    obtain ⟨c', hdigit, -, hshaped'⟩ := shaped_serialize hflag hequation
    obtain ⟨rfl, rfl, -⟩ := hshaped.unique hshaped'
    exact ⟨⟨resp.result, rfl⟩, hdigit⟩
  · intro hcanonical
    by_cases hshaped : ∃ rs c e, Shaped s rs c e
    · obtain ⟨rs, c, e, hshaped⟩ := hshaped
      obtain ⟨⟨result, rfl⟩, hdigit⟩ := hcanonical rs c e hshaped
      obtain ⟨hflag, htext⟩ := flag_of_digit hdigit
      generalize hvalue : intOfChar c - 48 = flag at hflag htext
      let resp : Response := ⟨result, flag, e⟩
      have haccepted : Accepted (deSerialize s .self) resp :=
        accepted_of_shaped hs hshaped hvalue
      have htext' : intToString resp.flag.toInt = [c] := htext
      have hs' : s = resp.serialize .self := by
        rw [serialize_of_digit htext']
        exact hshaped.text
      exact exact_of_accepted haccepted ⟨resp, hflag, hshaped.nonemptyEquation, hs'⟩
    · refine exact_of_rejected (rejected_of_unshaped hs hshaped) ?_
      rintro ⟨resp, hflag, hequation, rfl⟩
      obtain ⟨c, -, -, hshaped'⟩ := shaped_serialize hflag hequation
      exact hshaped ⟨_, _, _, hshaped'⟩

end Response

/--
For strings as long as a `std::string` can be: a call returns, returns true on
exactly what some object is written as, and otherwise leaves its object alone,
if and only if the number fields of a text that passes the four checks are
numbers as `to_string` writes them (and the flag is a digit).
-/
theorem deSerialize_exact_iff (s : Bytes) (hs : s.length < 2 ^ 64) :
    (Exact (Request.deSerialize s .self) (∃ q : Request, s = q.serialize .self) ↔
      ∀ xs c ys, Request.Shaped s xs c ys → Canonical xs ∧ Canonical ys) ∧
    (Exact (Response.deSerialize s .self) (∃ resp : Response,
        Response.OneDigit resp.flag ∧ resp.equation ≠ [] ∧ s = resp.serialize .self) ↔
      ∀ rs c e, Response.Shaped s rs c e → Canonical rs ∧ isDigit c = true) :=
  ⟨Request.exact_iff hs, Response.exact_iff hs⟩

/-- A request and a response that pass the checks, a text that does not, and one
that passes them with a number that is not written so. -/
theorem deSerialize_exact_iff_sum :
    Exact (Request.deSerialize (text "1 + 2") .self)
        (∃ q : Request, text "1 + 2" = q.serialize .self) ∧
      Exact (Response.deSerialize (text "2 0 1 + 1 = 2") .self)
        (∃ resp : Response, Response.OneDigit resp.flag ∧ resp.equation ≠ [] ∧
          text "2 0 1 + 1 = 2" = resp.serialize .self) ∧
      Exact (Request.deSerialize (text "1 +2") .self)
        (∃ q : Request, text "1 +2" = q.serialize .self) ∧
      ¬ Exact (Request.deSerialize (text "01 + 2") .self)
        (∃ q : Request, text "01 + 2" = q.serialize .self) := by
  have hsum : Request.Shaped (text "1 + 2") (text "1") 43 (text "2") :=
    ⟨rfl, by decide, by decide, by decide, by decide⟩
  have hresult : Response.Shaped (text "2 0 1 + 1 = 2") (text "2") 48 (text "1 + 1 = 2") :=
    ⟨rfl, by decide, by decide, by decide, by decide⟩
  have hzero : Request.Shaped (text "01 + 2") (text "01") 43 (text "2") :=
    ⟨rfl, by decide, by decide, by decide, by decide⟩
  refine ⟨(deSerialize_exact_iff _ (by decide)).1.mpr ?_,
    (deSerialize_exact_iff _ (by decide)).2.mpr ?_,
    (deSerialize_exact_iff _ (by decide)).1.mpr ?_, fun hexact => ?_⟩
  · intro xs c ys h
    obtain ⟨rfl, -, rfl⟩ := hsum.unique h
    exact ⟨⟨1, rfl⟩, ⟨2, rfl⟩⟩
  · intro rs c e h
    obtain ⟨rfl, rfl, -⟩ := hresult.unique h
    exact ⟨⟨2, rfl⟩, rfl⟩
  · intro xs c ys h
    have hlen := congrArg List.length h.text
    have hx := List.length_pos_of_ne_nil h.nonemptyX
    have hy := List.length_pos_of_ne_nil h.nonemptyY
    rw [length_fields, show (text "1 +2").length = 4 from rfl] at hlen
    omega
  · obtain ⟨⟨x, hx⟩, -⟩ := (deSerialize_exact_iff _ (by decide)).1.mp hexact _ _ _ hzero
    have hone : x = 1 := by
      have hstoi := stoi_intToString x
      rw [← hx] at hstoi
      exact (Except.ok.inj hstoi).symm
    rw [hone] at hx
    exact absurd hx (by decide)

/-- `stoi` throws at `"x"`, after `_x` has been assigned; at `"a"` before. -/
theorem letter_field_throws :
    (¬ ∀ s, Exact (Request.deSerialize s .self) (∃ q : Request, s = q.serialize .self)) ∧
    ¬ ∀ s, Exact (Response.deSerialize s .self) (∃ resp : Response,
      Response.OneDigit resp.flag ∧ resp.equation ≠ [] ∧ s = resp.serialize .self) := by
  constructor
  · intro h
    obtain ⟨verdict, object', hrun, -⟩ := h (text "1 + x") ⟨0, 0, 0⟩
    have hraised : (Request.deSerialize (text "1 + x") .self).run ⟨0, 0, 0⟩ =
        .raised (.exn .invalidArgument) ⟨1, 0, 0⟩ := by
      decide
    rw [hraised] at hrun
    cases hrun
  · intro h
    obtain ⟨verdict, object', hrun, -⟩ := h (text "a 0 e") {}
    have hraised : (Response.deSerialize (text "a 0 e") .self).run {} =
        .raised (.exn .invalidArgument) {} := by
      decide
    rw [hraised] at hrun
    cases hrun

/-! ## Through the framing -/

theorem length_encode_le (m : Bytes) : (encode m).length ≤ 15 + m.length := by
  have hheader := length_intToString_le (intOfSize m.length)
  simp only [encode, List.length_append, sep_length]
  omega

theorem decode_encode_iff {m : Bytes} (hne : m ≠ []) (hm : m.length < 2 ^ 63) :
    (∀ tail, decode (encode m ++ tail) = .ok (m, tail)) ↔ (encode m).length < 2 ^ 31 := by
  constructor
  · intro hround
    have hdecode := hround []
    rw [List.append_nil] at hdecode
    rcases decode_cases hdecode with ⟨hnil, -⟩ | ⟨d, haccepts, hslice, hrest⟩
    · exact absurd hnil hne
    have hyields : Yields (encode m) d := yields_iff.mpr ⟨haccepts, hslice ▸ hne⟩
    have hframed : Framed (encode m) d := by
      refine framed_of_eq_encode_append hyields ?_
      rw [← hslice, ← hrest, List.append_nil]
    have htotal := (sizeOfInt_totalLen_iff _ _).mpr hframed.uncut
    have hfits := haccepts.fits
    have hall : (encode m).length ≤ sizeOfInt (totalLen (sepPos (encode m)) d) :=
      List.drop_eq_nil_iff.mp hrest.symm
    have hlen := length_encode_le m
    have huncut := hframed.uncut
    omega
  · intro hfits tail
    exact decode_encode_append hfits tail

theorem Request.encode_serialize_lt (q : Request) :
    (encode (q.serialize .self)).length < 2 ^ 31 := by
  have hlen := Request.length_serialize_le q
  have hframe := length_encode_le (q.serialize .self)
  omega

/-- The responses `Execute` makes: a flag below four, and an equation of a few
dozen characters. -/
theorem Calculate.execute_small {req : Request} {resp : Response}
    (h : Calculate.execute req = .ok resp) :
    Response.OneDigit resp.flag ∧ resp.equation ≠ [] ∧ resp.equation.length ≤ 48 := by
  rcases Calculate.execute_cases h with ⟨v, -, hflag, -, hequation⟩ | ⟨-, -, rfl⟩ |
    ⟨-, -, rfl⟩ | ⟨-, rfl⟩
  · have hx := length_intToString_le req.x
    have hy := length_intToString_le req.y
    have hr := length_intToString_le resp.result
    have hblank : (text " ").length = 1 := by decide
    have hequals : (text " = ").length = 3 := by decide
    rw [hequation, hflag]
    refine ⟨by decide, ?_, ?_⟩
    · simp [Calculate.equationOf]
    · simp only [Calculate.equationOf, List.length_append, List.length_singleton, hblank,
        hequals]
      omega
  all_goals decide

theorem Response.length_serialize_le (resp : Response) :
    (resp.serialize .self).length ≤ 24 + resp.equation.length := by
  have hresult := length_intToString_le resp.result
  have hflag := length_intToString_le resp.flag
  simp only [serialize, calSep_eq, List.length_append, List.length_singleton]
  omega

theorem Response.serialize_ne_nil (resp : Response) : resp.serialize .self ≠ [] := by
  simp [serialize, intToString_ne_nil]

/--
Requests round-trip through the text codec and the framing, all of them, and so
do the responses of `Execute`.  A response with a flag of one digit and an
equation round-trips through the codec, and through the framing as well exactly
when its frame fits an `int`.
-/
theorem text_codec_round_trips (q : Request) (resp : Response) :
    (Accepted (Request.deSerialize (q.serialize .self) .self) q ∧
      ∀ tail, decode (encode (q.serialize .self) ++ tail) = .ok (q.serialize .self, tail)) ∧
    (Response.OneDigit resp.flag → resp.equation ≠ [] →
      (resp.serialize .self).length < 2 ^ 63 →
      Accepted (Response.deSerialize (resp.serialize .self) .self) resp ∧
      ((∀ tail, decode (encode (resp.serialize .self) ++ tail) =
          .ok (resp.serialize .self, tail)) ↔
        (encode (resp.serialize .self)).length < 2 ^ 31)) ∧
    ∀ req, Calculate.execute req = .ok resp →
      Accepted (Response.deSerialize (resp.serialize .self) .self) resp ∧
      ∀ tail, decode (encode (resp.serialize .self) ++ tail) =
        .ok (resp.serialize .self, tail) := by
  refine ⟨⟨Request.accepted_serialize q, fun tail => ?_⟩, ?_, ?_⟩
  · exact decode_encode_append (Request.encode_serialize_lt q) tail
  · intro hflag hequation hstring
    exact ⟨Response.accepted_serialize hflag hequation (by omega),
      decode_encode_iff (Response.serialize_ne_nil resp) hstring⟩
  · intro req hexecute
    obtain ⟨hflag, hequation, hshort⟩ := Calculate.execute_small hexecute
    have hlen := Response.length_serialize_le resp
    have hframe := length_encode_le (resp.serialize .self)
    have hfits : (encode (resp.serialize .self)).length < 2 ^ 31 := by omega
    exact ⟨Response.accepted_serialize hflag hequation (by omega),
      fun tail => decode_encode_append hfits tail⟩

def threeResponse : Response := { result := 3, equation := text "1 + 2 = 3" }

theorem text_codec_round_trips_three :
    Accepted (Response.deSerialize (threeResponse.serialize .self) .self) threeResponse ∧
    ∀ tail, decode (encode (threeResponse.serialize .self) ++ tail) =
      .ok (threeResponse.serialize .self, tail) := by
  have h := (text_codec_round_trips ⟨1, 2, 43⟩ threeResponse).2.1 (by decide) (by decide)
    (by decide)
  exact ⟨h.1, h.2.mpr (by decide)⟩

def longResponse (n : Nat) : Response := { equation := List.replicate n 65 }

theorem length_longResponse_le (n : Nat) :
    n ≤ (encode ((longResponse n).serialize .self)).length := by
  have hequation : (longResponse n).equation.length = n := List.length_replicate
  simp only [encode, Response.serialize, List.length_append, hequation]
  omega

/-- An equation of two gibibytes: the length in front of its frame is negative,
and `decode` waits for more. -/
theorem long_response_lost : ¬ ∀ resp : Response, Response.OneDigit resp.flag →
    resp.equation ≠ [] → ∀ tail, decode (encode (resp.serialize .self) ++ tail) =
      .ok (resp.serialize .self, tail) := by
  intro hround
  have hfits : ∀ n, 0 < n → n < 2 ^ 62 → n < 2 ^ 31 := by
    intro n hpos hn
    have hne : (longResponse n).equation ≠ [] := by
      rw [← List.length_pos_iff]
      exact Nat.lt_of_lt_of_eq hpos List.length_replicate.symm
    have hflag : Response.OneDigit (longResponse n).flag :=
      (by decide : Response.OneDigit 0)
    have hlen : (longResponse n).equation.length = n := List.length_replicate
    have hle := Response.length_serialize_le (longResponse n)
    have hlt := (decode_encode_iff (Response.serialize_ne_nil _) (by omega)).mp
      (hround (longResponse n) hflag hne)
    exact Nat.lt_of_le_of_lt (length_longResponse_le n) hlt
  exact absurd (hfits (2 ^ 31) (by decide) (by decide)) (by decide)

end LinuxAdvance.Calculator
