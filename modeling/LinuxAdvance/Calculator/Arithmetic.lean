import LinuxAdvance.Calculator.Calculate

/-!
# The arithmetic of `Calculate::Execute`

What the operators mean on integers, and for which operands the code computes
it.  The operands and the operator are the peer's.
-/

namespace LinuxAdvance.Calculator.Calculate

open LinuxAdvance.Cxx

/-- `x op y` is `v`: the quotient is truncated towards zero, and the remainder
has the sign of `x`. -/
inductive Denotes (x y : Int) : UInt8 → Int → Prop
  | add : Denotes x y 43 (x + y)
  | sub : Denotes x y 45 (x - y)
  | mul : Denotes x y 42 (x * y)
  | div (hy : y ≠ 0) : Denotes x y 47 (x.tdiv y)
  | mod (hy : y ≠ 0) : Denotes x y 37 (x.tmod y)

def opers : List UInt8 := [43, 45, 42, 47, 37]

structure Computes (req : Request) (resp : Response) : Prop where
  divZero : resp.flag = 1 ↔ req.oper = 47 ∧ req.y.toInt = 0
  modZero : resp.flag = 2 ↔ req.oper = 37 ∧ req.y.toInt = 0
  noOper : resp.flag = 3 ↔ req.oper ∉ opers
  flags : resp.flag = 0 ∨ resp.flag = 1 ∨ resp.flag = 2 ∨ resp.flag = 3
  exact : resp.flag = 0 → Denotes req.x.toInt req.y.toInt req.oper resp.result.toInt

/-- The value fits an `int`; for `/` and `%` that is all operands but the least
`int` and minus one. -/
structure Fits (req : Request) : Prop where
  add : req.oper = 43 →
    -2 ^ 31 ≤ req.x.toInt + req.y.toInt ∧ req.x.toInt + req.y.toInt < 2 ^ 31
  sub : req.oper = 45 →
    -2 ^ 31 ≤ req.x.toInt - req.y.toInt ∧ req.x.toInt - req.y.toInt < 2 ^ 31
  mul : req.oper = 42 →
    -2 ^ 31 ≤ req.x.toInt * req.y.toInt ∧ req.x.toInt * req.y.toInt < 2 ^ 31
  quotient : req.oper = 47 ∨ req.oper = 37 →
    ¬ (req.x.toInt = -2 ^ 31 ∧ req.y.toInt = -1)

/-! ## The two ways to fail -/

theorem inIntRange_iff {v : Int} : inIntRange v = true ↔ -2 ^ 31 ≤ v ∧ v < 2 ^ 31 := by
  simp [inIntRange]

theorem toInt_ofInt_of_inIntRange {v : Int} (h : inIntRange v = true) :
    (Int32.ofInt v).toInt = v := by
  obtain ⟨hlow, hhigh⟩ := inIntRange_iff.mp h
  exact Int32.toInt_ofInt_of_le hlow hhigh

theorem ofInt_eq_iff {v : Int} {i : Int32} (h : inIntRange v = true) :
    Int32.ofInt v = i ↔ i.toInt = v := by
  rw [← Int32.toInt_inj, toInt_ofInt_of_inIntRange h, eq_comm]

theorem checked_eq_ok_iff {v : Int} {i : Int32} :
    checked v = .ok i ↔ (-2 ^ 31 ≤ v ∧ v < 2 ^ 31) ∧ i.toInt = v := by
  rw [checked, ← inIntRange_iff]
  split
  · next hrange => simp [hrange, ofInt_eq_iff]
  · next hrange => simp [hrange]

theorem natAbs_tdiv_le_half {x y : Int} (hy : y.natAbs ≠ 1) :
    (x.tdiv y).natAbs ≤ x.natAbs / 2 := by
  rw [Int.natAbs_tdiv]
  change x.natAbs / y.natAbs ≤ x.natAbs / 2
  by_cases hzero : y.natAbs = 0
  · rw [hzero, Nat.div_zero]
    exact Nat.zero_le _
  · exact Nat.div_le_div_left (by omega) (by decide)

theorem inIntRange_tdiv_iff {x y : Int32} :
    inIntRange (x.toInt.tdiv y.toInt) = true ↔ ¬ (x.toInt = -2 ^ 31 ∧ y.toInt = -1) := by
  have hlow := x.le_toInt
  have hhigh := x.toInt_lt
  rw [inIntRange_iff]
  by_cases hone : y.toInt.natAbs = 1
  · rcases Int.natAbs_eq_iff.mp hone with hy | hy
    · rw [hy, Nat.cast_one, Int.tdiv_one]
      omega
    · rw [hy, Nat.cast_one, Int.tdiv_neg, Int.tdiv_one]
      omega
  · have hhalf := natAbs_tdiv_le_half (x := x.toInt) hone
    have hne : y.toInt ≠ -1 := fun h => hone (by rw [h]; rfl)
    simp only [hne, and_false, not_false_eq_true, iff_true]
    omega

theorem inIntRange_tmod (x y : Int32) : inIntRange (x.toInt.tmod y.toInt) = true := by
  have hlow := x.le_toInt
  have hhigh := x.toInt_lt
  have hle : (x.toInt.tmod y.toInt).natAbs ≤ x.toInt.natAbs := by
    rw [Int.natAbs_tmod]
    exact Nat.mod_le _ _
  rw [inIntRange_iff]
  rcases Int.le_total 0 x.toInt with hx | hx
  · have hsign := Int.tmod_nonneg y.toInt hx
    omega
  · have hsign := Int.tmod_nonneg y.toInt (by omega : 0 ≤ -x.toInt)
    rw [Int.neg_tmod] at hsign
    omega

theorem divide_eq_ok_iff {x y : Int32} {value : Int} {i : Int32}
    (hvalue : inIntRange (x.toInt.tdiv y.toInt) = true → inIntRange value = true) :
    divide x.toInt y.toInt value = .ok i ↔
      ¬ (x.toInt = -2 ^ 31 ∧ y.toInt = -1) ∧ i.toInt = value := by
  rw [divide, ← inIntRange_tdiv_iff]
  split
  · next hrange => simp only [Except.ok.injEq, hrange, true_and, ofInt_eq_iff (hvalue hrange)]
  · next hrange => simp [hrange]

/-! ## The labels of the `switch` -/

private theorem bind_pure_eq_ok_iff {α β : Type} {e : Except Exn α} {f : α → β} {b : β} :
    (e >>= fun a => pure (f a)) = .ok b ↔ ∃ a, e = .ok a ∧ f a = b := by
  cases e with
  | error e => simp [bind, Except.bind]
  | ok a => simp [bind, Except.bind, pure, Except.pure]

theorem execute_cases {req : Request} {resp : Response} (h : execute req = .ok resp) :
    (∃ v, Denotes req.x.toInt req.y.toInt req.oper v ∧ resp.flag = 0 ∧
      resp.result.toInt = v ∧ resp.equation = equationOf req resp.result) ∨
    (req.oper = 47 ∧ req.y.toInt = 0 ∧ resp = { flag := 1, equation := text "除0错误" }) ∨
    (req.oper = 37 ∧ req.y.toInt = 0 ∧ resp = { flag := 2, equation := text "模0错误" }) ∨
    (req.oper ∉ opers ∧ resp = { flag := 3 }) := by
  unfold execute at h
  dsimp only at h
  split at h
  · next hoper =>
      obtain ⟨i, hi, rfl⟩ := bind_pure_eq_ok_iff.mp h
      exact .inl ⟨_, hoper ▸ .add, rfl, (checked_eq_ok_iff.mp hi).2, rfl⟩
  split at h
  · next hoper =>
      obtain ⟨i, hi, rfl⟩ := bind_pure_eq_ok_iff.mp h
      exact .inl ⟨_, hoper ▸ .sub, rfl, (checked_eq_ok_iff.mp hi).2, rfl⟩
  split at h
  · next hoper =>
      obtain ⟨i, hi, rfl⟩ := bind_pure_eq_ok_iff.mp h
      exact .inl ⟨_, hoper ▸ .mul, rfl, (checked_eq_ok_iff.mp hi).2, rfl⟩
  split at h
  · next hoper =>
      split at h
      · next hy =>
          cases h
          exact .inr (.inl ⟨hoper, hy, rfl⟩)
      · next hy =>
          obtain ⟨i, hi, rfl⟩ := bind_pure_eq_ok_iff.mp h
          exact .inl ⟨_, hoper ▸ .div hy, rfl, ((divide_eq_ok_iff id).mp hi).2, rfl⟩
  split at h
  · next hoper =>
      split at h
      · next hy =>
          cases h
          exact .inr (.inr (.inl ⟨hoper, hy, rfl⟩))
      · next hy =>
          obtain ⟨i, hi, rfl⟩ := bind_pure_eq_ok_iff.mp h
          have hvalue := (divide_eq_ok_iff fun _ => inIntRange_tmod req.x req.y).mp hi
          exact .inl ⟨_, hoper ▸ .mod hy, rfl, hvalue.2, rfl⟩
  · next hadd hsub hmul hdiv hmod =>
      cases h
      refine .inr (.inr (.inr ⟨?_, rfl⟩))
      simp [opers, hadd, hsub, hmul, hdiv, hmod]

theorem Denotes.oper_mem {x y v : Int} {oper : UInt8} (h : Denotes x y oper v) :
    oper ∈ opers := by
  cases h <;> decide

theorem Denotes.divisor_ne_zero {x y v : Int} {oper : UInt8} (h : Denotes x y oper v)
    (hoper : oper = 47 ∨ oper = 37) : y ≠ 0 := by
  cases h with
  | add => simp at hoper
  | sub => simp at hoper
  | mul => simp at hoper
  | div hy => exact hy
  | mod hy => exact hy

/-- A call that returns has computed the value: only the faults are left. -/
theorem execute_computes {req : Request} {resp : Response} (h : execute req = .ok resp) :
    Computes req resp := by
  rcases execute_cases h with ⟨v, hdenotes, hflag, hv, -⟩ | ⟨hoper, hy, rfl⟩ |
    ⟨hoper, hy, rfl⟩ | ⟨hoper, rfl⟩
  · exact {
      divZero := by
        have hy := fun hoper => hdenotes.divisor_ne_zero (.inl hoper)
        simpa [hflag] using hy
      modZero := by
        have hy := fun hoper => hdenotes.divisor_ne_zero (.inr hoper)
        simpa [hflag] using hy
      noOper := by simp [hflag, hdenotes.oper_mem]
      flags := .inl hflag
      exact := fun _ => hv ▸ hdenotes }
  · exact {
      divZero := by simp [hoper, hy]
      modZero := by simp [hoper]
      noOper := by simp [hoper, opers]
      flags := .inr (.inl rfl)
      exact := by simp }
  · exact {
      divZero := by simp [hoper]
      modZero := by simp [hoper, hy]
      noOper := by simp [hoper, opers]
      flags := .inr (.inr (.inl rfl))
      exact := by simp }
  · have hdiv : req.oper ≠ 47 := fun h => hoper (by simp [h, opers])
    have hmod : req.oper ≠ 37 := fun h => hoper (by simp [h, opers])
    exact {
      divZero := by simp [hdiv]
      modZero := by simp [hmod]
      noOper := by simp [hoper]
      flags := .inr (.inr (.inr rfl))
      exact := by simp }

theorem exists_divide_eq_ok_iff {x y : Int32} {value : Int}
    (hvalue : inIntRange (x.toInt.tdiv y.toInt) = true → inIntRange value = true) :
    (∃ i, divide x.toInt y.toInt value = .ok i) ↔
      ¬ (x.toInt = -2 ^ 31 ∧ y.toInt = -1) := by
  simp only [divide_eq_ok_iff hvalue]
  constructor
  · rintro ⟨i, hne, -⟩
    exact hne
  · intro hne
    have hrange := hvalue (inIntRange_tdiv_iff.mpr hne)
    exact ⟨Int32.ofInt value, hne, toInt_ofInt_of_inIntRange hrange⟩

theorem exists_checked_eq_ok_iff {v : Int} :
    (∃ i, checked v = .ok i) ↔ -2 ^ 31 ≤ v ∧ v < 2 ^ 31 := by
  simp only [checked_eq_ok_iff]
  constructor
  · rintro ⟨i, hrange, -⟩
    exact hrange
  · intro hrange
    exact ⟨Int32.ofInt v, hrange, toInt_ofInt_of_inIntRange (inIntRange_iff.mpr hrange)⟩

private theorem exists_bind_pure_eq_ok_iff {α β : Type} {e : Except Exn α} {f : α → β} :
    (∃ b, (e >>= fun a => pure (f a)) = .ok b) ↔ ∃ a, e = .ok a := by
  simp only [bind_pure_eq_ok_iff]
  exact ⟨fun ⟨_, a, ha, _⟩ => ⟨a, ha⟩, fun ⟨a, ha⟩ => ⟨f a, a, ha, rfl⟩⟩

theorem execute_returns_iff (req : Request) :
    (∃ resp, execute req = .ok resp) ↔ Fits req := by
  unfold execute
  dsimp only
  split
  · next hoper =>
      rw [exists_bind_pure_eq_ok_iff, exists_checked_eq_ok_iff]
      exact ⟨fun h => ⟨fun _ => h, by simp [hoper], by simp [hoper], by simp [hoper]⟩,
        fun h => h.add hoper⟩
  split
  · next hoper =>
      rw [exists_bind_pure_eq_ok_iff, exists_checked_eq_ok_iff]
      exact ⟨fun h => ⟨by simp [hoper], fun _ => h, by simp [hoper], by simp [hoper]⟩,
        fun h => h.sub hoper⟩
  split
  · next hoper =>
      rw [exists_bind_pure_eq_ok_iff, exists_checked_eq_ok_iff]
      exact ⟨fun h => ⟨by simp [hoper], by simp [hoper], fun _ => h, by simp [hoper]⟩,
        fun h => h.mul hoper⟩
  split
  · next hoper =>
      split
      · next hy =>
          exact ⟨fun _ => ⟨by simp [hoper], by simp [hoper], by simp [hoper], by simp [hy]⟩,
            fun _ => ⟨_, rfl⟩⟩
      · rw [exists_bind_pure_eq_ok_iff, exists_divide_eq_ok_iff id]
        exact ⟨fun h => ⟨by simp [hoper], by simp [hoper], by simp [hoper], fun _ => h⟩,
          fun h => h.quotient (.inl hoper)⟩
  split
  · next hoper =>
      split
      · next hy =>
          exact ⟨fun _ => ⟨by simp [hoper], by simp [hoper], by simp [hoper], by simp [hy]⟩,
            fun _ => ⟨_, rfl⟩⟩
      · rw [exists_bind_pure_eq_ok_iff,
          exists_divide_eq_ok_iff fun _ => inIntRange_tmod req.x req.y]
        exact ⟨fun h => ⟨by simp [hoper], by simp [hoper], by simp [hoper], fun _ => h⟩,
          fun h => h.quotient (.inr hoper)⟩
  · next hadd hsub hmul hdiv hmod =>
      exact ⟨fun _ => ⟨by simp [hadd], by simp [hsub], by simp [hmul], by simp [hdiv, hmod]⟩,
        fun _ => ⟨_, rfl⟩⟩

theorem execute_computes_iff (req : Request) :
    (∃ resp, execute req = .ok resp ∧ Computes req resp) ↔ Fits req := by
  rw [← execute_returns_iff]
  constructor
  · rintro ⟨resp, h, -⟩
    exact ⟨resp, h⟩
  · rintro ⟨resp, h⟩
    exact ⟨resp, h, execute_computes h⟩

/-- The check for a divisor of zero does not cover the other division that
traps. -/
theorem least_int_traps : ¬ ∀ req : Request,
    ∃ resp, execute req = .ok resp ∧ Computes req resp := by
  intro h
  obtain ⟨resp, hreturns, -⟩ := h ⟨-2 ^ 31, -1, 47⟩
  have htrap : execute ⟨-2 ^ 31, -1, 47⟩ = .error .divideTrap := by decide
  rw [htrap] at hreturns
  cases hreturns

end LinuxAdvance.Calculator.Calculate
