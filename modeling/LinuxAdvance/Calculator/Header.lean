import LinuxAdvance.Calculator.DrainEnds
import LinuxAdvance.Cxx.Numeral

/-!
# The headers `decode` can read

The text before the first separator goes to `stoi`, and nobody catches what it
throws.  The headers that do no harm are the missing one, the empty one and a
number in the range of `int`.
-/

namespace LinuxAdvance.Calculator

open LinuxAdvance.Foundation
open LinuxAdvance.Cxx

/-- The second condition of `number` is about `substr`: it is handed a position
that went through an `int`. -/
inductive Readable (b : Bytes) : Prop
  | absent (h : sizeOfInt (sepPos b) = npos)
  | empty (h : lenStr b = [])
  | number {v : Int} (hreads : Reads (lenStr b) v) (hrange : -2 ^ 31 ≤ v ∧ v < 2 ^ 31)
      (hslice : ∀ d, stoi (lenStr b) = .ok d →
        b.length < sizeOfInt (totalLen (sepPos b) d) ∨
          (sizeOfInt (sepPos b) + sep.length) % sizeMod ≤ b.length)

theorem decode_returns_of_readable {b : Bytes} (h : Readable b) : ∃ r, decode b = .ok r := by
  rw [decode_eq]
  split
  · exact ⟨_, rfl⟩
  next hfound =>
  split
  · exact ⟨_, rfl⟩
  next hne =>
  cases h with
  | absent h => exact absurd h hfound
  | empty h => exact absurd h hne
  | number hreads hrange hslice =>
      obtain ⟨d, hd⟩ := exists_stoi_eq_ok_iff.mpr ⟨_, hreads, hrange⟩
      rw [hd]
      dsimp only
      split
      · exact ⟨_, rfl⟩
      next hfits =>
      rw [if_pos ((hslice d hd).resolve_left hfits)]
      exact ⟨_, rfl⟩

theorem readable_of_decode_returns {b : Bytes} {r : Bytes × Bytes}
    (h : decode b = .ok r) : Readable b := by
  rw [decode_eq] at h
  split at h
  · next habsent => exact .absent habsent
  split at h
  · next hempty => exact .empty hempty
  split at h
  · cases h
  next d hd =>
  obtain ⟨v, hreads, hrange⟩ := exists_stoi_eq_ok_iff.mp ⟨d, hd⟩
  refine .number hreads hrange fun d' hd' => ?_
  obtain rfl : d' = d := Except.ok.inj (hd'.symm.trans hd)
  split at h
  · next hshort => exact .inl hshort
  split at h
  · next hinside => exact .inr hinside
  · cases h

theorem decode_returns_iff (b : Bytes) : (∃ r, decode b = .ok r) ↔ Readable b :=
  ⟨fun ⟨_, h⟩ => readable_of_decode_returns h, decode_returns_of_readable⟩

/-- For buffers whose length fits an `int` only `stoi` can throw. -/
theorem readable_iff_of_small {b : Bytes} (hb : b.length < 2 ^ 31) :
    Readable b ↔ ∀ p, findSub? sep b = some p → 0 < p →
      ∃ v, Reads (b.take p) v ∧ -2 ^ 31 ≤ v ∧ v < 2 ^ 31 := by
  constructor
  · intro h p hfind hp
    obtain ⟨hle, hsize, hstr⟩ := sepPos_of_found hb hfind
    cases h with
    | absent h =>
        rw [hsize, npos, sizeMod] at h
        omega
    | empty h =>
        rw [hstr, List.take_eq_nil_iff] at h
        rcases h with rfl | rfl
        · exact absurd hp (Nat.lt_irrefl 0)
        · exact absurd hle (by simp)
    | number hreads hrange => exact ⟨_, hstr ▸ hreads, hrange⟩
  · intro h
    cases hfind : findSub? sep b with
    | none => exact .absent (sepPos_none hfind)
    | some p =>
        obtain ⟨hle, hsize, hstr⟩ := sepPos_of_found hb hfind
        by_cases hp : 0 < p
        · obtain ⟨v, hreads, hrange⟩ := h p hfind hp
          refine .number (hstr ▸ hreads) hrange fun d _ => .inr ?_
          rw [hsize, sep_length, mod_sizeMod (by omega)]
          exact hle
        · refine .empty ?_
          rw [hstr, Nat.eq_zero_of_not_pos hp, List.take_zero]

/-! ## The calls of a drain loop -/

section Loop

variable {σ β : Type} {get : Proc Fault σ Bytes} {put : Bytes → Proc Fault σ Unit}
  {body : Bytes → β → Proc Fault σ β} {Good : σ → Prop} {buf : σ → Bytes}

theorem good_of_rounds (laws : OwnsBuffer Good buf get put body) {x x' : β} {s t : σ}
    (h : Proc.Rounds (drainRound get put body) x s x' t) (hs : Good s) : Good t := by
  refine h.invariant (fun x x' s s' hs hround => ?_) hs
  rcases drainRound_cases laws hs x with
    ⟨e, s₁, h⟩ | ⟨x₁, s₁, _, h, -⟩ | ⟨x₁, s₁, _, _, h, -, -, hgood, -⟩
  · rw [h] at hround
    cases hround
  · rw [h] at hround
    cases hround
  · rw [h] at hround
    cases hround
    exact hgood

theorem call_raises (laws : OwnsBuffer Good buf get put body) {x x' : β} {s t : σ}
    (h : Proc.Rounds (drainRound get put body) x s x' t) (hs : Good s) {e : Exn}
    (he : decode (buf t) = .error e) :
    ∃ n, (Proc.iterate (drainRound get put body) n x).run s = .raised (.exn e) t := by
  refine h.raised ?_
  rw [drainRound, Proc.run_bind_done (laws.get_run t (good_of_rounds laws h hs)), he]
  rfl

end Loop

end LinuxAdvance.Calculator
