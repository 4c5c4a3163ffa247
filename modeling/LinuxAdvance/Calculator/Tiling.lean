import LinuxAdvance.Calculator.RealFrames

/-!
# Frames of any length

`encode` cuts the length to an `int`, and `decode` adds up the length of the frame
modulo 2^32.  A frame shorter than 2^31 is taken as it is; one shorter than 2^32
seems to be longer than any buffer.  Of a longer one a piece is taken, and what
follows is read as frames again.
-/

namespace LinuxAdvance.Calculator

open LinuxAdvance.Foundation
open LinuxAdvance.Cxx

/--
One behind the other, the pieces are as long as their headers announce, up to
`rest`, which announces nothing that is there.  Behind a piece without bytes to
return nothing is taken.
-/
inductive Tiles (rest : Bytes) : List Bytes → Prop
  | stay (hstay : ∀ d, ¬ Accepts rest d) : Tiles rest []
  | last {piece : Bytes} {d : Int32} (haccepts : Accepts (piece ++ rest) d)
      (hnone : ¬ Yields (piece ++ rest) d)
      (htotal : sizeOfInt (totalLen (sepPos (piece ++ rest)) d) = piece.length) :
      Tiles rest [piece]
  | next {piece : Bytes} {pieces : List Bytes} {d : Int32}
      (hyields : Yields (piece ++ (pieces.flatten ++ rest)) d)
      (htotal : sizeOfInt (totalLen (sepPos (piece ++ (pieces.flatten ++ rest))) d) =
        piece.length)
      (hpieces : Tiles rest pieces) : Tiles rest (piece :: pieces)

theorem decode_of_tile {piece rest : Bytes} {d : Int32} (haccepts : Accepts (piece ++ rest) d)
    (htotal : sizeOfInt (totalLen (sepPos (piece ++ rest)) d) = piece.length) :
    decode (piece ++ rest) = .ok (slice (piece ++ rest) d, rest) := by
  rw [decode_of_accepts haccepts, htotal, eraseFront, List.drop_left]

theorem slice_eq_nil {b : Bytes} {d : Int32} (haccepts : Accepts b d) (hnone : ¬ Yields b d) :
    slice b d = [] := by
  by_contra hne
  exact hnone (yields_iff.mpr ⟨haccepts, hne⟩)

theorem tile_of_decode {b pkg rest : Bytes} (h : decode b = .ok (pkg, rest)) :
    (pkg = [] ∧ rest = b ∧ ∀ d, ¬ Accepts b d) ∨
      ∃ piece d, b = piece ++ rest ∧ Accepts (piece ++ rest) d ∧
        (pkg ≠ [] ↔ Yields (piece ++ rest) d) ∧
        sizeOfInt (totalLen (sepPos (piece ++ rest)) d) = piece.length := by
  by_cases hany : ∃ d, Accepts b d
  · obtain ⟨d, haccepts⟩ := hany
    rw [decode_of_accepts haccepts] at h
    obtain ⟨rfl, rfl⟩ := Prod.mk.inj (Except.ok.inj h)
    have hsplit : b = b.take (sizeOfInt (totalLen (sepPos b) d)) ++
        eraseFront b (sizeOfInt (totalLen (sepPos b) d)) := (List.take_append_drop _ _).symm
    refine .inr ⟨_, d, hsplit, ?_⟩
    rw [← hsplit]
    refine ⟨haccepts, ?_, ?_⟩
    · rw [yields_iff, and_iff_right haccepts]
    · rw [List.length_take, Nat.min_eq_left haccepts.fits]
  · rw [not_exists] at hany
    rcases decode_cases h with ⟨rfl, rfl⟩ | ⟨d, haccepts, -⟩
    · exact .inl ⟨rfl, rfl, hany⟩
    · exact absurd haccepts (hany d)

/-! ## Frames shorter than 2^32 -/

theorem encode_parts (m : Bytes) :
    encode m = intToString (intOfSize m.length).toInt ++ sep ++ (m ++ sep) := by
  rw [encode]
  simp only [List.append_assoc]

theorem length_encode (m : Bytes) :
    (encode m).length = (intToString (intOfSize m.length).toInt).length + 4 + m.length := by
  rw [encode_parts]
  simp only [List.length_append, sep_length]
  omega

theorem totalLen_of_long {p n : Nat} {d : Int32} (hp : p < 2 ^ 31) (hlong : 2 ^ 31 ≤ p + 4 + n)
    (hlt : p + 4 + n < 2 ^ 32) (hd : d = intOfSize n) :
    2 ^ 63 ≤ sizeOfInt (totalLen (intOfSize p) d) := by
  have hdval := toInt_intOfSize n
  have hval := toInt_intOfSize ((p + 4 + sizeOfInt d) % 2 ^ 64)
  have htotal : totalLen (intOfSize p) d = intOfSize ((p + 4 + sizeOfInt d) % 2 ^ 64) := by
    rw [totalLen, sizeOfInt_intOfSize hp]
    rfl
  rw [← hd, Int.bmod_def] at hdval
  rw [← htotal, Int.bmod_def] at hval
  have hlow := (totalLen (intOfSize p) d).le_toInt
  have hneg : (totalLen (intOfSize p) d).toInt < 0 := by
    rcases Int.lt_or_le d.toInt 0 with hneg | hnonneg
    · have := sizeOfInt_of_neg hneg
      omega
    · have := sizeOfInt_of_nonneg hnonneg
      omega
  have := sizeOfInt_of_neg hneg
  omega

/-- A frame of 2^31 bytes or more seems not to be there yet, whatever follows its
header. -/
theorem decode_of_long {m u : Bytes} (hlong : 2 ^ 31 ≤ (encode m).length)
    (hlt : (encode m).length < 2 ^ 32)
    (hsize : (intToString (intOfSize m.length).toInt ++ sep ++ u).length < 2 ^ 63) :
    decode (intToString (intOfSize m.length).toInt ++ sep ++ u) =
      .ok ([], intToString (intOfSize m.length).toInt ++ sep ++ u) := by
  rw [length_encode] at hlong hlt
  obtain ⟨header, hheader⟩ : ∃ header, intToString (intOfSize m.length).toInt = header :=
    ⟨_, rfl⟩
  have hcr : (13 : UInt8) ∉ header := hheader ▸ cr_notMem_intToString _
  have hshort : header.length ≤ 11 := hheader ▸ length_intToString_le _
  have hstoi : stoi header = .ok (intOfSize m.length) := hheader ▸ stoi_intToString _
  have hne : header ≠ [] := by
    rintro rfl
    cases hstoi
  rw [hheader] at hlong hlt hsize ⊢
  have hpos := sepPos_header hcr u
  have hpsize : sizeOfInt (intOfSize header.length) = header.length :=
    sizeOfInt_intOfSize (by omega)
  have hstr : lenStr (header ++ sep ++ u) = header := by
    rw [lenStr, hpos, hpsize, List.append_assoc, List.take_left]
  have hfound : header.length ≠ npos := by
    have : npos = 2 ^ 64 - 1 := rfl
    omega
  have htotal := totalLen_of_long (d := intOfSize m.length) (p := header.length) (by omega)
    hlong hlt rfl
  rw [decode_eq, hpos, hpsize, if_neg hfound, hstr, if_neg hne, hstoi]
  dsimp only
  rw [if_pos (by omega)]

theorem decode_of_cut {m b : Bytes} (h : (encode m).length < 2 ^ 32)
    (hb : b <+: encode m) (hne : b ≠ encode m) : decode b = .ok ([], b) := by
  by_cases hshort : (encode m).length < 2 ^ 31
  · exact decode_of_short hshort hb hne
  have hle := hb.length_le
  rcases prefix_header_cases (cr_notMem_intToString _) (encode_parts m ▸ hb) with
    hnone | ⟨u, rfl⟩
  · exact decode_of_no_sep hnone
  · exact decode_of_long (Nat.not_lt.mp hshort) h (by omega)

theorem decode_of_long_frame {m tail : Bytes} (hlong : 2 ^ 31 ≤ (encode m).length)
    (hlt : (encode m).length < 2 ^ 32) (hsize : (encode m ++ tail).length < 2 ^ 63) :
    decode (encode m ++ tail) = .ok ([], encode m ++ tail) := by
  have hparts : encode m ++ tail =
      intToString (intOfSize m.length).toInt ++ sep ++ (m ++ sep ++ tail) := by
    rw [encode_parts]
    simp only [List.append_assoc]
  rw [hparts] at hsize ⊢
  exact decode_of_long hlong hlt hsize

end LinuxAdvance.Calculator
