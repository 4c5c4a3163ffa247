import LinuxAdvance.Cxx.Text

/-!
# `std::to_string` and `std::stoi`

`stoi` follows `strtol` in base ten: leading white space, an optional sign, as
many digits as there are, and whatever comes after them is left alone.
-/

namespace LinuxAdvance.Cxx

def natToString (n : Nat) : Bytes := (Nat.toDigits 10 n).map Char.toUInt8

def intToString : Int → Bytes
  | .ofNat n => natToString n
  | .negSucc n => 45 :: natToString (n + 1)

def digitsValue (digits : Bytes) : Nat :=
  digits.foldl (fun value b => 10 * value + (b.toNat - 48)) 0

def stripSign : Bytes → Bool × Bytes
  | 45 :: s => (true, s)
  | 43 :: s => (false, s)
  | s => (false, s)

def stoi (s : Bytes) : Except Exn Int32 :=
  let (negative, unsigned) := stripSign (s.dropWhile isSpace)
  let digits := unsigned.takeWhile isDigit
  if digits = [] then .error .invalidArgument
  else
    let value : Int :=
      if negative then -(digitsValue digits : Int) else digitsValue digits
    if -2 ^ 31 ≤ value ∧ value < 2 ^ 31 then .ok (Int32.ofInt value)
    else .error .outOfRange

/-! ## Reading back what was written -/

private theorem digitChar_range {c : Char} (h : c.isDigit) :
    48 ≤ c.toNat ∧ c.toNat ≤ 57 := by
  simp only [Char.isDigit, ge_iff_le, Bool.and_eq_true, decide_eq_true_eq,
    UInt32.le_iff_toNat_le] at h
  exact h

private theorem toNat_toUInt8 {c : Char} (h : c.isDigit) :
    c.toUInt8.toNat = c.toNat := by
  have hrange := digitChar_range h
  have hmod : c.toUInt8.toNat = c.toNat % 256 := rfl
  rw [hmod]
  omega

theorem isDigit_of_mem_natToString {n : Nat} {b : UInt8}
    (h : b ∈ natToString n) : isDigit b = true := by
  obtain ⟨c, hc, rfl⟩ := List.mem_map.mp h
  have hdigit := Nat.isDigit_of_mem_toDigits (by decide) (by decide) hc
  have hrange := digitChar_range hdigit
  simp only [isDigit, Bool.and_eq_true, decide_eq_true_eq,
    UInt8.le_iff_toNat_le, toNat_toUInt8 hdigit]
  exact hrange

theorem notMem_natToString {b : UInt8} (hdigit : isDigit b = false) (n : Nat) :
    b ∉ natToString n := by
  intro hmem
  rw [isDigit_of_mem_natToString hmem] at hdigit
  cases hdigit

theorem natToString_ne_nil (n : Nat) : natToString n ≠ [] := by
  simp [natToString, Nat.toDigits_ne_nil]

private theorem foldl_digits (cs : List Char) (hcs : ∀ c ∈ cs, c.isDigit)
    (init : Nat) :
    (cs.map Char.toUInt8).foldl
        (fun value b => 10 * value + (b.toNat - 48)) init =
      Nat.ofDigitChars 10 cs init := by
  induction cs generalizing init with
  | nil => rfl
  | cons c cs ih =>
      have hc := toNat_toUInt8 (hcs c (by simp))
      rw [List.map_cons, List.foldl_cons, hc, Nat.ofDigitChars_cons,
        ih (fun d hd => hcs d (by simp [hd]))]
      rfl

@[simp] theorem digitsValue_natToString (n : Nat) :
    digitsValue (natToString n) = n := by
  rw [digitsValue, natToString, foldl_digits _
    (fun c hc => Nat.isDigit_of_mem_toDigits (by decide) (by decide) hc)]
  exact Nat.ofDigitChars_ten_toDigits

theorem natToString_injective : Function.Injective natToString :=
  Function.LeftInverse.injective digitsValue_natToString

theorem takeWhile_natToString (n : Nat) :
    (natToString n).takeWhile isDigit = natToString n := by
  rw [List.takeWhile_eq_self_iff]
  exact fun b hb => isDigit_of_mem_natToString hb

theorem of_isDigit {b : UInt8} (h : isDigit b = true) :
    isSpace b = false ∧ b ≠ 45 ∧ b ≠ 43 := by
  simp only [isDigit, isSpace, Bool.and_eq_true, decide_eq_true_eq,
    Bool.or_eq_false_iff, decide_eq_false_iff_not, Bool.and_eq_false_iff, ne_eq,
    UInt8.le_iff_toNat_le, ← UInt8.toNat_inj, UInt8.reduceToNat] at h ⊢
  omega

private theorem stripSign_natToString (n : Nat) :
    stripSign ((natToString n).dropWhile isSpace) = (false, natToString n) := by
  obtain ⟨b, s, hs⟩ := List.exists_cons_of_ne_nil (natToString_ne_nil n)
  have hb : isDigit b = true := isDigit_of_mem_natToString (by rw [hs]; simp)
  obtain ⟨hspace, hminus, hplus⟩ := of_isDigit hb
  rw [hs, List.dropWhile_cons_of_neg (by simp [hspace])]
  unfold stripSign
  split <;> simp_all

theorem stoi_natToString {n : Nat} (h : n < 2 ^ 31) :
    stoi (natToString n) = .ok (Int32.ofInt n) := by
  have hrange : -2 ^ 31 ≤ (n : Int) ∧ (n : Int) < 2 ^ 31 := by omega
  simp only [stoi, stripSign_natToString, takeWhile_natToString,
    natToString_ne_nil, if_false, digitsValue_natToString, Bool.false_eq_true,
    hrange, and_self, if_true]

theorem stoi_intToString (i : Int32) : stoi (intToString i.toInt) = .ok i := by
  have hlow := i.le_toInt
  have hhigh := i.toInt_lt
  cases h : i.toInt with
  | ofNat n =>
      rw [h] at hhigh
      have hn : n < 2 ^ 31 := by
        simpa using hhigh
      change stoi (natToString n) = .ok i
      rw [stoi_natToString hn, ← Int32.ofInt_toInt (x := i), h]
      rfl
  | negSucc n =>
      rw [h] at hlow
      have hskip : (intToString (.negSucc n)).dropWhile isSpace =
          45 :: natToString (n + 1) := by
        rw [intToString, List.dropWhile_cons_of_neg (by decide)]
      have hrange : -2 ^ 31 ≤ (.negSucc n : Int) ∧
          (.negSucc n : Int) < 2 ^ 31 := ⟨hlow, by omega⟩
      have hvalue : -((n + 1 : Nat) : Int) = .negSucc n := rfl
      simp only [stoi, hskip, stripSign, takeWhile_natToString,
        natToString_ne_nil, if_false, digitsValue_natToString, if_true, hvalue,
        hrange, and_self]
      rw [← h, Int32.ofInt_toInt]

/-! ## The shape of what was written -/

theorem mem_intToString {i : Int} {b : UInt8} (h : b ∈ intToString i) :
    b = 45 ∨ isDigit b = true := by
  cases i with
  | ofNat n => exact .inr (isDigit_of_mem_natToString h)
  | negSucc n =>
      rcases List.mem_cons.mp h with rfl | hmem
      · exact .inl rfl
      · exact .inr (isDigit_of_mem_natToString hmem)

theorem intToString_ne_nil (i : Int) : intToString i ≠ [] := by
  cases i with
  | ofNat n => exact natToString_ne_nil n
  | negSucc n => exact List.cons_ne_nil _ _

theorem length_natToString_le {n k : Nat} (hk : 0 < k) (h : n < 10 ^ k) :
    (natToString n).length ≤ k := by
  rw [natToString, List.length_map]
  exact (Nat.length_toDigits_le_iff (by decide) hk).mpr h

/-- Ten digits and a sign. -/
theorem length_intToString_le (i : Int32) : (intToString i.toInt).length ≤ 11 := by
  have hlow := i.le_toInt
  have hhigh := i.toInt_lt
  cases h : i.toInt with
  | ofNat n =>
      rw [h] at hhigh
      have hn : n < 10 ^ 10 := by
        have : (n : Int) < 2 ^ 31 := hhigh
        omega
      exact Nat.le_succ_of_le (length_natToString_le (by decide) hn)
  | negSucc n =>
      rw [h] at hlow
      have hn : n + 1 < 10 ^ 10 := by omega
      exact Nat.succ_le_succ (length_natToString_le (by decide) hn)

end LinuxAdvance.Cxx
