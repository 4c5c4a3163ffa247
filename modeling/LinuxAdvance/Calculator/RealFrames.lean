import LinuxAdvance.Calculator.DrainEnds

/-!
# The packages `decode` returns and the frames `encode` writes

`decode` reads the length with `stoi` and finds the end of the frame by adding
up, so it also returns packages that nobody framed.  Here is what a buffer has
to be like for a package to be a frame's payload.
-/

namespace LinuxAdvance.Calculator

open LinuxAdvance.Foundation
open LinuxAdvance.Cxx

structure Yields (b : Bytes) (d : Int32) : Prop extends Accepts b d where
  nonzero : d ≠ 0
  more : (sizeOfInt (sepPos b) + sep.length) % sizeMod < b.length

/-- The bytes are those of a frame: the decimal that `to_string` writes, the
separator, as many bytes as it counts, and the separator again.  The length of
the whole is computed without being cut. -/
structure Framed (b : Bytes) (d : Int32) : Prop where
  canonical : lenStr b = intToString d.toInt
  separated : (b.drop (sizeOfInt (sepPos b))).take 2 = sep
  terminated : (b.drop (sizeOfInt (sepPos b) + 2 + sizeOfInt d)).take 2 = sep
  uncut : sizeOfInt (sepPos b) + 4 + sizeOfInt d < 2 ^ 31 ∨
    2 ^ 64 - 2 ^ 31 ≤ sizeOfInt (sepPos b) + 4 + sizeOfInt d ∧
      sizeOfInt (sepPos b) + 4 + sizeOfInt d < 2 ^ 64

theorem yields_iff {b : Bytes} {d : Int32} :
    Yields b d ↔ Accepts b d ∧ slice b d ≠ [] := by
  have hslice : slice b d ≠ [] ↔
      d ≠ 0 ∧ (sizeOfInt (sepPos b) + sep.length) % sizeMod < b.length := by
    rw [slice, ne_eq, List.take_eq_nil_iff, List.drop_eq_nil_iff, sizeOfInt_eq_zero_iff,
      not_or, Nat.not_le]
  rw [hslice]
  constructor
  · intro h
    exact ⟨h.toAccepts, h.nonzero, h.more⟩
  · rintro ⟨haccepts, hnonzero, hmore⟩
    exact ⟨haccepts, hnonzero, hmore⟩

/-! ## The conversions of a frame's length -/

theorem toInt_intOfSize (n : Nat) : (intOfSize n).toInt = (n : Int).bmod (2 ^ 32) :=
  Int32.toInt_ofNat'

theorem intOfSize_sizeOfInt (d : Int32) : intOfSize (sizeOfInt d) = d := by
  have hlow := d.le_toInt
  have hhigh := d.toInt_lt
  rw [← Int32.toInt_inj, toInt_intOfSize, Int.bmod_def]
  rcases Int.lt_or_le d.toInt 0 with hneg | hnonneg
  · have := sizeOfInt_of_neg hneg
    omega
  · have := sizeOfInt_of_nonneg hnonneg
    omega

theorem sizeOfInt_intOfSize_iff (n : Nat) :
    sizeOfInt (intOfSize (n % sizeMod)) = n ↔
      n < 2 ^ 31 ∨ 2 ^ 64 - 2 ^ 31 ≤ n ∧ n < 2 ^ 64 := by
  have hval : (intOfSize (n % sizeMod)).toInt = ((n % 2 ^ 64 : Nat) : Int).bmod (2 ^ 32) :=
    toInt_intOfSize _
  rw [Int.bmod_def] at hval
  rcases Int.lt_or_le (intOfSize (n % sizeMod)).toInt 0 with hneg | hnonneg
  · have hsize := sizeOfInt_of_neg hneg
    omega
  · have hsize := sizeOfInt_of_nonneg hnonneg
    omega

theorem sizeOfInt_totalLen_iff (pos d : Int32) :
    sizeOfInt (totalLen pos d) = sizeOfInt pos + 4 + sizeOfInt d ↔
      sizeOfInt pos + 4 + sizeOfInt d < 2 ^ 31 ∨
        2 ^ 64 - 2 ^ 31 ≤ sizeOfInt pos + 4 + sizeOfInt d ∧
          sizeOfInt pos + 4 + sizeOfInt d < 2 ^ 64 :=
  sizeOfInt_intOfSize_iff _

theorem cr_notMem_intToString (i : Int) : (13 : UInt8) ∉ intToString i := by
  intro h
  rcases mem_intToString h with h | h <;> revert h <;> decide

/-! ## One package -/

theorem drop_eq_take_append_drop {α : Type} (l : List α) (i n : Nat) :
    l.drop i = (l.drop i).take n ++ l.drop (i + n) := by
  rw [← List.drop_drop, List.take_append_drop]

theorem eq_encode_append_of_framed {b : Bytes} {d : Int32} (haccepts : Accepts b d)
    (hframed : Framed b d) :
    b = encode (slice b d) ++ eraseFront b (sizeOfInt (totalLen (sepPos b) d)) := by
  obtain ⟨hcanonical, hseparated, hterminated, huncut⟩ := hframed
  have htotal := (sizeOfInt_totalLen_iff _ _).mpr huncut
  have hfits := haccepts.fits
  have hmod : (sizeOfInt (sepPos b) + 2) % sizeMod = sizeOfInt (sepPos b) + 2 :=
    mod_sizeMod (by omega)
  have hslice : slice b d = (b.drop (sizeOfInt (sepPos b) + 2)).take (sizeOfInt d) := by
    rw [slice, sep_length, hmod]
  have hlength : (slice b d).length = sizeOfInt d := by
    rw [hslice, List.length_take, List.length_drop]
    omega
  rw [encode, hlength, intOfSize_sizeOfInt, ← hcanonical, eraseFront, htotal, hslice]
  have hheader : b = lenStr b ++ b.drop (sizeOfInt (sepPos b)) :=
    (List.take_append_drop _ _).symm
  rw [drop_eq_take_append_drop b _ 2, hseparated,
    drop_eq_take_append_drop b _ (sizeOfInt d),
    drop_eq_take_append_drop b (sizeOfInt (sepPos b) + 2 + sizeOfInt d) 2, hterminated]
    at hheader
  have hend : sizeOfInt (sepPos b) + 2 + sizeOfInt d + 2 =
      sizeOfInt (sepPos b) + 4 + sizeOfInt d := by omega
  rw [hend] at hheader
  simpa only [List.append_assoc] using hheader

theorem framed_of_eq_encode_append {b : Bytes} {d : Int32} (hyields : Yields b d)
    (hb : b = encode (slice b d) ++ eraseFront b (sizeOfInt (totalLen (sepPos b) d))) :
    Framed b d := by
  obtain ⟨m, hm⟩ : ∃ m, slice b d = m := ⟨_, rfl⟩
  obtain ⟨rest, hrest⟩ : ∃ rest, eraseFront b (sizeOfInt (totalLen (sepPos b) d)) = rest :=
    ⟨_, rfl⟩
  obtain ⟨header, hheader⟩ : ∃ header, intToString (intOfSize m.length).toInt = header :=
    ⟨_, rfl⟩
  have hshort : header.length ≤ 11 := hheader ▸ length_intToString_le _
  have hparts : b = header ++ sep ++ (m ++ sep ++ rest) := by
    rw [hm, hrest, encode, hheader] at hb
    rw [hb]
    simp only [List.append_assoc]
  have hpos : sizeOfInt (sepPos b) = header.length := by
    rw [hparts, sepPos_header (hheader ▸ cr_notMem_intToString _),
      sizeOfInt_intOfSize (by omega)]
  have hstr : lenStr b = header := by
    rw [lenStr, hpos, hparts, List.append_assoc, List.take_left]
  have hd : d = intOfSize m.length := by
    have hnumber := hyields.number
    rw [hstr, ← hheader, stoi_intToString] at hnumber
    exact (Except.ok.inj hnumber).symm
  have hmod : (header.length + 2) % sizeMod = header.length + 2 := mod_sizeMod (by omega)
  have hlength : b.length = header.length + 4 + m.length + rest.length := by
    rw [hparts]
    simp only [List.length_append, sep_length]
    omega
  have hsize : m.length = sizeOfInt d := by
    have hslice := congrArg List.length hm
    rw [slice, hpos, sep_length, hmod, List.length_take, List.length_drop] at hslice
    omega
  have htotal : sizeOfInt (totalLen (sepPos b) d) = header.length + 4 + sizeOfInt d := by
    have hdrop := congrArg List.length hrest
    rw [eraseFront, List.length_drop] at hdrop
    have hfits := hyields.fits
    omega
  refine ⟨?_, ?_, ?_, ?_⟩
  · rw [hstr, hd, hheader]
  · rw [hpos, hparts, List.append_assoc, List.drop_left, List.append_assoc]
    rfl
  · have hpre : header.length + 2 + sizeOfInt d = (header ++ sep ++ m).length := by
      simp only [List.length_append, sep_length, hsize]
    have hsplit : b = header ++ sep ++ m ++ (sep ++ rest) := by
      rw [hparts]
      simp only [List.append_assoc]
    rw [hpos, hpre, hsplit, List.drop_left]
    rfl
  · rw [← sizeOfInt_totalLen_iff, htotal, hpos]

theorem eq_encode_append_iff {b : Bytes} {d : Int32} (hyields : Yields b d) :
    b = encode (slice b d) ++ eraseFront b (sizeOfInt (totalLen (sepPos b) d)) ↔
      Framed b d :=
  ⟨framed_of_eq_encode_append hyields, eq_encode_append_of_framed hyields.toAccepts⟩

/-- Every package is a frame's payload exactly when every header that is acted
on, with bytes to return, is the header of a frame. -/
theorem decode_real_iff (b : Bytes) :
    (∀ m r, decode b = .ok (m, r) → m ≠ [] → b = encode m ++ r) ↔
      ∀ d, Yields b d → Framed b d := by
  constructor
  · intro hreal d hyields
    have hne := (yields_iff.mp hyields).2
    exact (eq_encode_append_iff hyields).mp
      (hreal _ _ (decode_of_accepts hyields.toAccepts) hne)
  · intro hframed m r hdecode hne
    rcases decode_cases hdecode with ⟨hnil, -⟩ | ⟨d, haccepts, rfl, rfl⟩
    · exact absurd hnil hne
    · have hyields := yields_iff.mpr ⟨haccepts, hne⟩
      exact (eq_encode_append_iff hyields).mpr (hframed d hyields)

/-- For buffers whose length fits an `int`, the condition as the peer's bytes show
it: no sign, no blank and no leading zero in the length, a length that is not
negative, and the separator behind the payload. -/
theorem framed_iff_of_small {b : Bytes} {p : Nat} {d : Int32} (hb : b.length < 2 ^ 31)
    (hfind : findSub? sep b = some p) (hyields : Yields b d) :
    Framed b d ↔
      b.take p = intToString d.toInt ∧ 0 < d.toInt ∧
        (b.drop (p + 2 + d.toInt.toNat)).take 2 = sep := by
  obtain ⟨hp, hsize, hstr⟩ := sepPos_of_found hb hfind
  have hfits := hyields.fits
  have hnonzero : d.toInt ≠ 0 := fun h => hyields.nonzero (Int32.toInt_inj.mp h)
  have htotal := sizeOfInt_totalLen_iff (sepPos b) d
  rw [hsize] at htotal
  constructor
  · rintro ⟨hcanonical, -, hterminated, huncut⟩
    rw [hsize] at hterminated huncut
    have hpos : 0 < d.toInt := by
      refine lt_of_le_of_ne (Int.not_lt.mp fun hneg => ?_) hnonzero.symm
      have := sizeOfInt_of_neg hneg
      have := d.le_toInt
      have := htotal.mpr huncut
      omega
    rw [sizeOfInt_of_nonneg (Int.le_of_lt hpos)] at hterminated
    exact ⟨hstr ▸ hcanonical, hpos, hterminated⟩
  · rintro ⟨hcanonical, hpos, hterminated⟩
    have hd := sizeOfInt_of_nonneg (Int.le_of_lt hpos)
    have huncut : p + 4 + sizeOfInt d < 2 ^ 31 := by
      have hmore := hyields.more
      rw [hsize, sep_length, mod_sizeMod (by omega)] at hmore
      have hhigh := d.toInt_lt
      have hval : (totalLen (sepPos b) d).toInt =
          ((p + 4 + sizeOfInt d : Nat) : Int).bmod (2 ^ 32) := by
        rw [totalLen, hsize, sep_length, mod_sizeMod (by omega)]
        exact toInt_intOfSize _
      -- past the range the sum is negative, and no buffer is that long
      by_contra hlong
      have hneg : (totalLen (sepPos b) d).toInt < 0 := by
        rw [hval, Int.bmod_def]
        omega
      have := sizeOfInt_of_neg hneg
      have := (totalLen (sepPos b) d).le_toInt
      omega
    obtain ⟨u, hu⟩ := prefix_of_findSub? hfind
    refine ⟨hstr.trans hcanonical, ?_, ?_, ?_⟩
    · rw [hsize, ← hu]
      rfl
    · rw [hsize, hd, hterminated]
    · rw [hsize]
      exact .inl huncut

/-- `stoi` leaves out the sign, and `encode` never writes one. -/
theorem plus_five_accepted : ¬ ∀ b m r,
    decode b = .ok (m, r) → m ≠ [] → b = encode m ++ r := by
  intro hreal
  have hdecode : decode (text "+5\r\nhello\r\n") = .ok (text "hello", []) := by
    decide
  exact absurd (hreal _ _ _ hdecode (by decide)) (by decide)

end LinuxAdvance.Calculator
