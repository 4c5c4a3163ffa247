import LinuxAdvance.Cxx.Decimal

/-!
# The texts `std::stoi` has a value for

White space, a sign, digits, and then anything that is not a digit: the grammar
of `strtol`, on its own, and that `stoi` accepts exactly its words whose value
is an `int`.
-/

namespace LinuxAdvance.Cxx

inductive Unsigned : Bytes → Nat → Prop
  | digits {digits rest : Bytes} (hne : digits ≠ [])
      (hdigits : ∀ b ∈ digits, isDigit b = true)
      (hrest : ∀ b, rest.head? = some b → isDigit b = false) :
      Unsigned (digits ++ rest) (digitsValue digits)

inductive Reads : Bytes → Int → Prop
  | blank {b : UInt8} {s : Bytes} {v : Int} (hb : isSpace b = true) (hs : Reads s v) :
      Reads (b :: s) v
  | plain {s : Bytes} {n : Nat} (hs : Unsigned s n) : Reads s n
  | plus {s : Bytes} {n : Nat} (hs : Unsigned s n) : Reads (43 :: s) n
  | minus {s : Bytes} {n : Nat} (hs : Unsigned s n) : Reads (45 :: s) (-n)

theorem unsigned_iff {s : Bytes} {n : Nat} :
    Unsigned s n ↔
      s.takeWhile isDigit ≠ [] ∧ digitsValue (s.takeWhile isDigit) = n := by
  constructor
  · intro h
    cases h with
    | @digits digits rest hne hdigits hrest =>
        have htake : (digits ++ rest).takeWhile isDigit = digits := by
          rw [List.takeWhile_append_of_pos hdigits]
          cases rest with
          | nil => simp
          | cons b rest => simp [hrest b rfl]
        rw [htake]
        exact ⟨hne, rfl⟩
  · rintro ⟨hne, rfl⟩
    have hrest : ∀ b, (s.dropWhile isDigit).head? = some b → isDigit b = false := by
      intro b hb
      have := List.head?_dropWhile_not isDigit s
      rw [hb] at this
      simpa using this
    have hword := Unsigned.digits hne (fun b hb => List.mem_takeWhile_imp hb) hrest
    rwa [List.takeWhile_append_dropWhile] at hword

/-- Its first byte is a digit. -/
theorem Unsigned.head {s : Bytes} {n : Nat} (h : Unsigned s n) :
    ∃ b u, s = b :: u ∧ isDigit b = true := by
  cases h with
  | @digits digits rest hne hdigits hrest =>
      obtain ⟨b, u, rfl⟩ := List.exists_cons_of_ne_nil hne
      exact ⟨b, u ++ rest, rfl, hdigits b (by simp)⟩

/-- The value of the number that starts at a sign or at a digit. -/
def signedValue (s : Bytes) : Option Int :=
  let (negative, unsigned) := stripSign s
  let digits := unsigned.takeWhile isDigit
  if digits = [] then none
  else some (if negative then -(digitsValue digits : Int) else digitsValue digits)

theorem stoi_eq (s : Bytes) :
    stoi s =
      match signedValue (s.dropWhile isSpace) with
      | none => .error .invalidArgument
      | some v =>
          if -2 ^ 31 ≤ v ∧ v < 2 ^ 31 then .ok (Int32.ofInt v) else .error .outOfRange := by
  rw [signedValue, stoi]
  dsimp only
  split <;> rfl

theorem signedValue_minus {u : Bytes} {v : Int} :
    signedValue (45 :: u) = some v ↔ ∃ n : Nat, Unsigned u n ∧ -(n : Int) = v := by
  simp [signedValue, stripSign, unsigned_iff]

theorem signedValue_plus {u : Bytes} {v : Int} :
    signedValue (43 :: u) = some v ↔ ∃ n : Nat, Unsigned u n ∧ (n : Int) = v := by
  simp [signedValue, stripSign, unsigned_iff]

theorem signedValue_plain {s : Bytes} {v : Int} (hminus : s.head? ≠ some 45)
    (hplus : s.head? ≠ some 43) :
    signedValue s = some v ↔ ∃ n : Nat, Unsigned s n ∧ (n : Int) = v := by
  have hstrip : stripSign s = (false, s) := by
    unfold stripSign
    split <;> simp_all
  simp [signedValue, hstrip, unsigned_iff]

theorem signedValue_of_unsigned {s : Bytes} {n : Nat} (h : Unsigned s n) :
    signedValue s = some (n : Int) ∧ s.dropWhile isSpace = s := by
  obtain ⟨b, u, rfl, hb⟩ := h.head
  obtain ⟨hspace, hminus, hplus⟩ := of_isDigit hb
  constructor
  · exact (signedValue_plain (by simpa using hminus) (by simpa using hplus)).mpr ⟨n, h, rfl⟩
  · rw [List.dropWhile_cons_of_neg (by simp [hspace])]

theorem reads_of_signedValue {s : Bytes} {v : Int} (h : signedValue s = some v) :
    Reads s v := by
  by_cases hminus : s.head? = some 45
  · obtain ⟨u, rfl⟩ := List.head?_eq_some_iff.mp hminus
    obtain ⟨n, hu, rfl⟩ := signedValue_minus.mp h
    exact .minus hu
  by_cases hplus : s.head? = some 43
  · obtain ⟨u, rfl⟩ := List.head?_eq_some_iff.mp hplus
    obtain ⟨n, hu, rfl⟩ := signedValue_plus.mp h
    exact .plus hu
  · obtain ⟨n, hs, rfl⟩ := (signedValue_plain hminus hplus).mp h
    exact .plain hs

theorem reads_iff {s : Bytes} {v : Int} :
    Reads s v ↔ signedValue (s.dropWhile isSpace) = some v := by
  constructor
  · intro h
    induction h with
    | blank hb hs ih => rwa [List.dropWhile_cons_of_pos hb]
    | plain hs =>
        obtain ⟨hvalue, hdrop⟩ := signedValue_of_unsigned hs
        rw [hdrop, hvalue]
    | plus hs =>
        rw [List.dropWhile_cons_of_neg (by decide)]
        exact signedValue_plus.mpr ⟨_, hs, rfl⟩
    | minus hs =>
        rw [List.dropWhile_cons_of_neg (by decide)]
        exact signedValue_minus.mpr ⟨_, hs, rfl⟩
  · intro h
    induction s with
    | nil => exact reads_of_signedValue h
    | cons b s ih =>
        by_cases hb : isSpace b = true
        · rw [List.dropWhile_cons_of_pos hb] at h
          exact .blank hb (ih h)
        · rw [List.dropWhile_cons_of_neg hb] at h
          exact reads_of_signedValue h

theorem exists_stoi_eq_ok_iff {s : Bytes} :
    (∃ i, stoi s = .ok i) ↔ ∃ v, Reads s v ∧ -2 ^ 31 ≤ v ∧ v < 2 ^ 31 := by
  simp only [reads_iff, stoi_eq]
  cases signedValue (s.dropWhile isSpace) with
  | none => simp
  | some v =>
      simp only [Option.some.injEq, exists_eq_left']
      split
      · next hrange => exact iff_of_true ⟨_, rfl⟩ hrange
      · next hrange => exact iff_of_false (by simp) hrange

end LinuxAdvance.Cxx
