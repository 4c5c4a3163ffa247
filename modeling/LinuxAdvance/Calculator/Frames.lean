import LinuxAdvance.Calculator.Protocol

/-!
# `decode` on streams of frames

The payloads the protocol can carry are the non-empty ones whose frame fits an
`int`.  On a buffer that starts with such a frame `decode` takes exactly that
frame; on a proper prefix of one it waits.  The first separator is always the
header's, since a length in decimal has no carriage return in it.
-/

namespace LinuxAdvance.Calculator

open LinuxAdvance.Foundation
open LinuxAdvance.Cxx

structure Payload where
  bytes : Bytes
  nonempty : bytes ≠ []
  fits : (encode bytes).length < 2 ^ 31

theorem cr_notMem_natToString (n : Nat) : (13 : UInt8) ∉ natToString n := by
  intro h
  have := isDigit_of_mem_natToString h
  revert this
  decide

theorem intToString_intOfSize {n : Nat} (h : n < 2 ^ 31) :
    intToString (intOfSize n).toInt = natToString n := by
  rw [toInt_intOfSize_of_lt h]
  rfl

theorem length_lt_of_encode {m : Bytes} (h : (encode m).length < 2 ^ 31) :
    m.length < 2 ^ 31 := by
  simp only [encode, List.length_append] at h
  omega

theorem encode_eq {m : Bytes} (h : (encode m).length < 2 ^ 31) :
    encode m = natToString m.length ++ sep ++ (m ++ sep) := by
  rw [encode, intToString_intOfSize (length_lt_of_encode h)]
  simp only [List.append_assoc]

theorem encode_length {m : Bytes} (h : (encode m).length < 2 ^ 31) :
    (encode m).length = (natToString m.length).length + 4 + m.length := by
  rw [encode_eq h]
  simp only [List.length_append, sep_length]
  omega

theorem sepPos_header {header : Bytes} (h : (13 : UInt8) ∉ header)
    (u : Bytes) : sepPos (header ++ sep ++ u) = intOfSize header.length := by
  rw [sepPos, find, sep_eq, findSub?_append h]
  rfl

theorem sepPos_none {b : Bytes} (h : findSub? sep b = none) :
    sizeOfInt (sepPos b) = npos := by
  rw [sepPos, find, h]
  decide

theorem decode_of_no_sep {b : Bytes} (h : findSub? sep b = none) :
    decode b = .ok ([], b) := by
  rw [decode_eq, if_pos (sepPos_none h)]

private theorem sizeOfInt_ofInt {n : Nat} (h : n < 2 ^ 31) :
    sizeOfInt (Int32.ofInt n) = n :=
  sizeOfInt_intOfSize h

theorem totalLen_of_small {p n : Nat} (h : p + 4 + n < 2 ^ 31) :
    sizeOfInt (totalLen (intOfSize p) (Int32.ofInt n)) = p + 4 + n := by
  have hp : sizeOfInt (intOfSize p) = p := sizeOfInt_intOfSize (by omega)
  have hn : sizeOfInt (Int32.ofInt n) = n := sizeOfInt_ofInt (by omega)
  have hsum : (p + sep.length * 2 + n) % sizeMod = p + 4 + n :=
    mod_sizeMod (by rw [sep_length]; omega)
  rw [totalLen, hp, hn, hsum, sizeOfInt_intOfSize h]

theorem decode_header {n : Nat} (u : Bytes)
    (hfits : (natToString n).length + 4 + n < 2 ^ 31) :
    decode (natToString n ++ sep ++ u) =
      if (natToString n ++ sep ++ u).length < (natToString n).length + 4 + n then
        .ok ([], natToString n ++ sep ++ u)
      else
        .ok (u.take n,
          (natToString n ++ sep ++ u).drop ((natToString n).length + 4 + n)) := by
  have hpos := sepPos_header (cr_notMem_natToString n) u
  have hsize : sizeOfInt (intOfSize (natToString n).length) =
      (natToString n).length := sizeOfInt_intOfSize (by omega)
  have hfound : (natToString n).length ≠ npos := by
    have : npos = 2 ^ 64 - 1 := rfl
    omega
  have hstr : lenStr (natToString n ++ sep ++ u) = natToString n := by
    rw [lenStr, hpos, hsize, List.append_assoc, List.take_left]
  have hinside : ((natToString n).length + sep.length) % sizeMod =
      (natToString n).length + 2 :=
    mod_sizeMod (by rw [sep_length]; omega)
  have hslice : slice (natToString n ++ sep ++ u) (Int32.ofInt n) = u.take n := by
    rw [slice, hpos, hsize, hinside, sizeOfInt_ofInt (by omega)]
    have hlen : (natToString n).length + 2 = (natToString n ++ sep).length := by
      simp
    rw [hlen, List.drop_left]
  rw [decode_eq, hpos, hsize, if_neg hfound, hstr,
    if_neg (natToString_ne_nil n), stoi_natToString (by omega)]
  dsimp only
  rw [totalLen_of_small hfits, hinside, hslice]
  split
  · rfl
  · rw [if_pos (by simp only [List.length_append, sep_length]; omega)]
    rfl

theorem decode_encode_append {m : Bytes} (h : (encode m).length < 2 ^ 31)
    (tail : Bytes) : decode (encode m ++ tail) = .ok (m, tail) := by
  have hlen := encode_length h
  have heq : encode m ++ tail =
      natToString m.length ++ sep ++ (m ++ (sep ++ tail)) := by
    rw [encode_eq h]
    simp only [List.append_assoc]
  have hall : (encode m ++ tail).length = (encode m).length + tail.length :=
    List.length_append
  rw [heq] at hall ⊢
  rw [decode_header _ (by omega), if_neg (by omega), List.take_left, ← heq,
    ← hlen, List.drop_left]

/-- A prefix ends in the header, between CR and LF, or behind the separator. -/
theorem prefix_header_cases {header body b : Bytes} (hcr : (13 : UInt8) ∉ header)
    (hb : b <+: header ++ sep ++ body) :
    findSub? sep b = none ∨ ∃ u, b = header ++ sep ++ u := by
  by_cases hdigits : b.length ≤ header.length
  · have hpre : b <+: header := by
      rw [List.append_assoc] at hb
      exact List.prefix_of_prefix_length_le hb (List.prefix_append _ _) hdigits
    left
    rw [sep_eq]
    exact findSub?_eq_none_of_notMem fun hmem => hcr (hpre.subset hmem)
  by_cases hcrlf : b.length = header.length + 1
  · have hpre : b <+: header ++ [13] := by
      have hfull : header ++ [13] <+: header ++ sep ++ body := by
        rw [sep_eq]
        exact ⟨10 :: body, by simp⟩
      exact List.prefix_of_prefix_length_le hb hfull (by simp [hcrlf])
    have hb' : b = header ++ [13] := hpre.eq_of_length (by simp [hcrlf])
    left
    rw [hb', sep_eq]
    exact findSub?_eq_none_of_last hcr
  · have hpre : header ++ sep <+: b := by
      refine List.prefix_of_prefix_length_le (List.prefix_append _ _) hb ?_
      simp only [List.length_append, sep_length]
      omega
    obtain ⟨u, rfl⟩ := hpre
    exact .inr ⟨u, rfl⟩

theorem decode_of_short {m b : Bytes} (h : (encode m).length < 2 ^ 31)
    (hb : b <+: encode m) (hne : b ≠ encode m) : decode b = .ok ([], b) := by
  have hlen := encode_length h
  have hlt : b.length < (encode m).length :=
    Nat.lt_of_le_of_ne hb.length_le fun heq => hne (hb.eq_of_length heq)
  rcases prefix_header_cases (cr_notMem_natToString m.length) (encode_eq h ▸ hb) with
    hnone | ⟨u, rfl⟩
  · exact decode_of_no_sep hnone
  · rw [decode_header u (by omega), if_pos (by omega)]

/-! ## The framing of the calculator -/

def framing : Framing UInt8 Payload where
  encode m := encode m.bytes
  encode_ne_nil m := by simp [encode, sep_eq]

@[simp] theorem framing_encode (m : Payload) :
    framing.encode m = encode m.bytes := rfl

theorem decode_frame (m : Payload) (tail : Bytes) :
    decode (framing.encode m ++ tail) = .ok (m.bytes, tail) :=
  decode_encode_append m.fits tail

theorem decode_short {b : Bytes} (h : framing.Short b) :
    decode b = .ok ([], b) := by
  rcases h with rfl | ⟨m, hb, hne⟩
  · exact decode_of_no_sep (by decide)
  · exact decode_of_short m.fits hb hne

theorem exists_payloads (ms : List Bytes)
    (h : ∀ m ∈ ms, m ≠ [] ∧ (encode m).length < 2 ^ 31) :
    ∃ payloads : List Payload, payloads.map Payload.bytes = ms ∧
      framing.frames payloads = ms.flatMap encode := by
  induction ms with
  | nil => exact ⟨[], rfl, rfl⟩
  | cons m ms ih =>
      obtain ⟨payloads, hmap, hframes⟩ := ih fun m' hm' => h m' (by simp [hm'])
      obtain ⟨hne, hfits⟩ := h m (by simp)
      exact ⟨⟨m, hne, hfits⟩ :: payloads, by simp [hmap], by simp [hframes]⟩

theorem notMem_frames {payloads : List Payload}
    (h : ∀ m ∈ payloads, (0 : UInt8) ∉ m.bytes) :
    (0 : UInt8) ∉ framing.frames payloads := by
  induction payloads with
  | nil => simp
  | cons m payloads ih =>
      have hm := h m (by simp)
      have hrest := ih fun m' hm' => h m' (by simp [hm'])
      have hdigits : (0 : UInt8) ∉ natToString m.bytes.length := by
        intro h0
        have := isDigit_of_mem_natToString h0
        revert this
        decide
      have hsep : (0 : UInt8) ∉ sep := by decide
      rw [Framing.frames_cons, framing_encode, encode_eq m.fits]
      simp [hm, hrest, hdigits, hsep]

end LinuxAdvance.Calculator
