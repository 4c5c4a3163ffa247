import LinuxAdvance.Cxx.Decimal
import LinuxAdvance.Foundation.Framing

/-!
# The length-prefixed protocol of the calculator

`encode` and `decode` of `Protocol.hpp`, the same text in the threaded server
and in the reactor.  A frame is `len CRLF payload CRLF`.  `decode` computes in
`int` and `size_t` by turns, and the conversions decide what it does with
lengths a peer makes up, so every one of them is kept.
-/

namespace LinuxAdvance.Calculator

open LinuxAdvance.Foundation
open LinuxAdvance.Cxx

def sep : Bytes := text "\r\n"

def calSep : Bytes := text " "

def encode (inbuff : Bytes) : Bytes :=
  let inbuffLen := intOfSize inbuff.length
  intToString inbuffLen.toInt ++ sep ++ inbuff ++ sep

/-- The length of a whole frame, added up in `size_t` and cut to `int`. -/
def totalLen (pos dataLen : Int32) : Int32 :=
  intOfSize ((sizeOfInt pos + sep.length * 2 + sizeOfInt dataLen) % sizeMod)

def decode (outbuff : Bytes) : Except Exn (Bytes × Bytes) := do
  let pos := intOfSize (find outbuff sep)
  if sizeOfInt pos = npos then
    return ([], outbuff)
  let lenStr ← substr outbuff 0 (sizeOfInt pos)
  if lenStr = [] then
    return ([], outbuff)
  let dataLen ← stoi lenStr
  let total := totalLen pos dataLen
  if outbuff.length < sizeOfInt total then
    return ([], outbuff)
  let message ← substr outbuff ((sizeOfInt pos + sep.length) % sizeMod)
    (sizeOfInt dataLen)
  return (message, eraseFront outbuff (sizeOfInt total))

@[simp] theorem sep_length : sep.length = 2 := by decide

theorem sep_eq : sep = [13, 10] := by decide

/-! ## What a call of `decode` can do -/

def sepPos (outbuff : Bytes) : Int32 := intOfSize (find outbuff sep)

def lenStr (outbuff : Bytes) : Bytes := outbuff.take (sizeOfInt (sepPos outbuff))

def slice (outbuff : Bytes) (dataLen : Int32) : Bytes :=
  (outbuff.drop ((sizeOfInt (sepPos outbuff) + sep.length) % sizeMod)).take
    (sizeOfInt dataLen)

/-- A header that `decode` acts on: it was found, it is a number, and the
buffer holds the total length computed from it. -/
structure Accepts (outbuff : Bytes) (dataLen : Int32) : Prop where
  found : sizeOfInt (sepPos outbuff) ≠ npos
  nonempty : lenStr outbuff ≠ []
  number : stoi (lenStr outbuff) = .ok dataLen
  fits : sizeOfInt (totalLen (sepPos outbuff) dataLen) ≤ outbuff.length
  inside : (sizeOfInt (sepPos outbuff) + sep.length) % sizeMod ≤ outbuff.length

theorem decode_eq (b : Bytes) :
    decode b =
      if sizeOfInt (sepPos b) = npos then .ok ([], b)
      else if lenStr b = [] then .ok ([], b)
      else
        match stoi (lenStr b) with
        | .error e => .error e
        | .ok d =>
            if b.length < sizeOfInt (totalLen (sepPos b) d) then .ok ([], b)
            else if (sizeOfInt (sepPos b) + sep.length) % sizeMod ≤ b.length then
              .ok (slice b d, eraseFront b (sizeOfInt (totalLen (sepPos b) d)))
            else .error .outOfRange := by
  have hlen : substr b 0 (sizeOfInt (sepPos b)) = .ok (lenStr b) := by
    rw [substr_eq_ok_iff]
    exact ⟨Nat.zero_le _, rfl⟩
  change (do
    if sizeOfInt (sepPos b) = npos then return ([], b)
    let s ← substr b 0 (sizeOfInt (sepPos b))
    if s = [] then return ([], b)
    let d ← stoi s
    if b.length < sizeOfInt (totalLen (sepPos b) d) then return ([], b)
    let message ← substr b ((sizeOfInt (sepPos b) + sep.length) % sizeMod)
      (sizeOfInt d)
    return (message, eraseFront b (sizeOfInt (totalLen (sepPos b) d)))) = _
  rw [hlen]
  simp only [bind, Except.bind, pure, Except.pure]
  split
  · rfl
  split
  · rfl
  cases stoi (lenStr b) with
  | error e => rfl
  | ok d =>
      dsimp only
      split
      · rfl
      rw [substr]
      by_cases hinside :
          (sizeOfInt (sepPos b) + sep.length) % sizeMod ≤ b.length
      · rw [if_pos hinside, if_pos hinside]
        rfl
      · rw [if_neg hinside, if_neg hinside]

theorem decode_of_accepts {b : Bytes} {d : Int32} (h : Accepts b d) :
    decode b = .ok (slice b d,
      eraseFront b (sizeOfInt (totalLen (sepPos b) d))) := by
  rw [decode_eq, if_neg h.found, if_neg h.nonempty, h.number]
  simp only [if_neg (Nat.not_lt.mpr h.fits), if_pos h.inside]

/-- Inversion: a call that returns either waits and leaves the buffer alone, or
acts on an accepted header. -/
theorem decode_cases {b pkg rest : Bytes} (h : decode b = .ok (pkg, rest)) :
    (pkg = [] ∧ rest = b) ∨
      ∃ d, Accepts b d ∧ pkg = slice b d ∧
        rest = eraseFront b (sizeOfInt (totalLen (sepPos b) d)) := by
  rw [decode_eq] at h
  split at h
  · left
    cases h
    exact ⟨rfl, rfl⟩
  next hfound =>
  split at h
  · left
    cases h
    exact ⟨rfl, rfl⟩
  next hne =>
  split at h
  · cases h
  next d hnum =>
  split at h
  · left
    cases h
    exact ⟨rfl, rfl⟩
  next hfits =>
  split at h
  · next hinside =>
    right
    cases h
    exact ⟨d, ⟨hfound, hne, hnum, Nat.not_lt.mp hfits, hinside⟩, rfl, rfl⟩
  · cases h

theorem decode_subset {b pkg rest : Bytes} (h : decode b = .ok (pkg, rest)) :
    pkg ⊆ b ∧ rest ⊆ b := by
  rcases decode_cases h with ⟨rfl, rfl⟩ | ⟨d, -, rfl, rfl⟩
  · simp
  · refine ⟨fun x hx => ?_, fun x hx => List.mem_of_mem_drop hx⟩
    exact List.mem_of_mem_drop (List.mem_of_mem_take hx)

theorem decode_length_lt {b pkg rest : Bytes} (h : decode b = .ok (pkg, rest)) :
    pkg.length < 2 ^ 64 := by
  rcases decode_cases h with ⟨rfl, -⟩ | ⟨d, -, rfl, -⟩
  · simp
  · have hlen : (slice b d).length ≤ sizeOfInt d := by
      rw [slice]
      exact List.length_take_le _ _
    exact Nat.lt_of_le_of_lt hlen (sizeOfInt_lt d)

end LinuxAdvance.Calculator
