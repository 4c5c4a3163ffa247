import LinuxAdvance.Foundation.Proc

/-!
# Streams of frames

A framing turns every message into a non-empty list of symbols.  A receiver
sees the concatenation of the frames in pieces of any size, so what it holds at
any moment is the part of the stream after the last complete frame.  This file
says which messages are complete after `n` symbols and what is left over, and
carries a receiver's loop over the complete frames of its buffer.
-/

namespace LinuxAdvance.Foundation

structure Framing (α μ : Type) where
  encode : μ → List α
  encode_ne_nil : ∀ message, encode message ≠ []

namespace Framing

variable {α μ ε σ β ρ ι : Type} (F : Framing α μ)

def frames (messages : List μ) : List α := messages.flatMap F.encode

@[simp] theorem frames_nil : F.frames [] = [] := rfl

@[simp] theorem frames_cons (m : μ) (ms : List μ) :
    F.frames (m :: ms) = F.encode m ++ F.frames ms := by
  simp [frames]

@[simp] theorem frames_append (ms ms' : List μ) :
    F.frames (ms ++ ms') = F.frames ms ++ F.frames ms' := by
  simp [frames]

/-- The messages whose frames lie within the first `n` symbols. -/
def complete : List μ → Nat → List μ
  | [], _ => []
  | m :: ms, n =>
      if (F.encode m).length ≤ n then
        m :: complete ms (n - (F.encode m).length)
      else []

/-- What the first `n` symbols hold after their last complete frame. -/
def remainder : List μ → Nat → List α
  | [], _ => []
  | m :: ms, n =>
      if (F.encode m).length ≤ n then
        remainder ms (n - (F.encode m).length)
      else (F.encode m).take n

def Short (b : List α) : Prop :=
  b = [] ∨ ∃ m, b <+: F.encode m ∧ b ≠ F.encode m

@[simp] theorem complete_zero (ms : List μ) : F.complete ms 0 = [] := by
  cases ms with
  | nil => rfl
  | cons m ms =>
      have hpos := List.length_pos_iff.mpr (F.encode_ne_nil m)
      rw [complete, if_neg (Nat.not_le.mpr hpos)]

@[simp] theorem remainder_zero (ms : List μ) : F.remainder ms 0 = [] := by
  cases ms with
  | nil => rfl
  | cons m ms =>
      have hpos := List.length_pos_iff.mpr (F.encode_ne_nil m)
      rw [remainder, if_neg (Nat.not_le.mpr hpos), List.take_zero]

theorem take_frames (ms : List μ) (n : Nat) :
    (F.frames ms).take n = F.frames (F.complete ms n) ++ F.remainder ms n := by
  induction ms generalizing n with
  | nil => simp [complete, remainder]
  | cons m ms ih =>
      by_cases h : (F.encode m).length ≤ n
      · simp [complete, remainder, h, List.take_append,
          List.take_of_length_le h, ih]
      · have hn : n - (F.encode m).length = 0 := by omega
        simp [complete, remainder, h, List.take_append, hn]

theorem remainder_short (ms : List μ) (n : Nat) :
    F.Short (F.remainder ms n) := by
  induction ms generalizing n with
  | nil => exact .inl rfl
  | cons m ms ih =>
      rw [remainder]
      split
      · exact ih _
      · next h =>
          refine .inr ⟨m, List.take_prefix _ _, fun heq => h ?_⟩
          have := congrArg List.length heq
          simp only [List.length_take] at this
          omega

theorem complete_prefix (ms : List μ) (n : Nat) : F.complete ms n <+: ms := by
  induction ms generalizing n with
  | nil => simp [complete]
  | cons m ms ih =>
      rw [complete]
      split
      · exact (List.prefix_cons_inj m).2 (ih _)
      · exact List.nil_prefix

theorem complete_mono (ms : List μ) {n k : Nat} (h : n ≤ k) :
    F.complete ms n <+: F.complete ms k := by
  induction ms generalizing n k with
  | nil => simp [complete]
  | cons m ms ih =>
      by_cases hn : (F.encode m).length ≤ n
      · have hk : (F.encode m).length ≤ k := by omega
        rw [complete, complete, if_pos hn, if_pos hk]
        exact (List.prefix_cons_inj m).2 (ih (by omega))
      · simp [complete, hn]

theorem le_length_complete_iff (ms : List μ) (n k : Nat) :
    k ≤ (F.complete ms n).length ↔
      k ≤ ms.length ∧ (F.frames (ms.take k)).length ≤ n := by
  induction ms generalizing n k with
  | nil => simp [complete]
  | cons m ms ih =>
      cases k with
      | zero => simp
      | succ k =>
          by_cases h : (F.encode m).length ≤ n
          · simp only [complete, h, if_true, List.length_cons,
              Nat.add_le_add_iff_right, ih, List.take_succ_cons, frames_cons,
              List.length_append]
            omega
          · simp only [complete, h, if_false, List.length_nil,
              List.take_succ_cons, frames_cons, List.length_append]
            omega

theorem complete_eq_self_iff (ms : List μ) (n : Nat) :
    F.complete ms n = ms ↔ (F.frames ms).length ≤ n := by
  have hcount := F.le_length_complete_iff ms n ms.length
  simp only [Nat.le_refl, true_and, List.take_length] at hcount
  rw [← hcount]
  constructor
  · intro h
    rw [h]
  · intro h
    exact (F.complete_prefix ms n).eq_of_length_le h

theorem remainder_eq_nil_of_le (ms : List μ) {n : Nat}
    (h : (F.frames ms).length ≤ n) : F.remainder ms n = [] := by
  have htake := F.take_frames ms n
  rw [(F.complete_eq_self_iff ms n).2 h, List.take_of_length_le h] at htake
  simpa using htake

theorem remainder_boundary (ms : List μ) (i : Nat) :
    F.remainder ms (F.frames (ms.take i)).length = [] := by
  induction ms generalizing i with
  | nil => simp [remainder]
  | cons m ms ih =>
      cases i with
      | zero => simp
      | succ i =>
          rw [List.take_succ_cons, frames_cons, List.length_append, remainder,
            if_pos (Nat.le_add_right _ _), Nat.add_sub_cancel_left]
          exact ih i

theorem remainder_append (ms : List μ) (n k : Nat) :
    ∃ new, F.complete ms (n + k) = F.complete ms n ++ new ∧
      F.remainder ms n ++ ((F.frames ms).drop n).take k =
        F.frames new ++ F.remainder ms (n + k) := by
  obtain ⟨new, hnew⟩ := F.complete_mono ms (Nat.le_add_right n k)
  refine ⟨new, hnew.symm, ?_⟩
  have hall := F.take_frames ms (n + k)
  rw [List.take_add, F.take_frames ms n, ← hnew, frames_append] at hall
  simpa using hall

/-! ## A receiver's loop over its buffer -/

/--
One round of the loop takes one frame off the buffer `H` speaks of, unless it
fails with an error of `E`; then so does the loop, or it takes all the complete
frames and goes on with the rounds that are left.
-/
theorem iterate_frames {body : β → Proc ε σ (β ⊕ ρ)} {E : ε → Prop}
    {H : List α → List μ → β → σ → Prop} (new : List μ)
    (hround : ∀ m ∈ new, ∀ tail before b s, H (F.encode m ++ tail) before b s →
      (∃ b' s', (body b).run s = .done (.inl b') s' ∧
        H tail (before ++ [m]) b' s') ∨
      ∃ e s', E e ∧ (body b).run s = .raised e s')
    (n : Nat) {tail : List α} {before : List μ} {b : β} {s : σ}
    (hH : H (F.frames new ++ tail) before b s) :
    (∃ b' s', H tail (before ++ new) b' s' ∧
      (Proc.iterate body (new.length + n) b).run s =
        (Proc.iterate body n b').run s') ∨
    ∃ e s', E e ∧
      (Proc.iterate body (new.length + n) b).run s = .raised e s' := by
  induction new generalizing before b s with
  | nil => exact .inl ⟨b, s, by simpa using hH, by simp⟩
  | cons m new ih =>
      have hfuel : (m :: new).length + n = (new.length + n) + 1 := by
        simp only [List.length_cons]
        omega
      rw [hfuel]
      rw [frames_cons, List.append_assoc] at hH
      have hlater := fun m' hm' => hround m' (List.mem_cons_of_mem m hm')
      rcases hround m (by simp) _ before b s hH with
        ⟨b', s', hbody, hH'⟩ | ⟨e, s', he, hbody⟩
      · rcases ih hlater hH' with ⟨b'', s'', hH'', hrun⟩ | ⟨e, s'', he, hrun⟩
        · refine .inl ⟨b'', s'', by simpa using hH'', ?_⟩
          rw [Proc.iterate_succ_inl hbody, hrun]
        · refine .inr ⟨e, s'', he, ?_⟩
          rw [Proc.iterate_succ_inl hbody, hrun]
      · exact .inr ⟨e, s', he, Proc.iterate_succ_raised hbody⟩

/-- The same for a loop whose rounds do not fail and which leaves when no
complete frame is left. -/
theorem iterate_frames_done {body : β → Proc ε σ (β ⊕ ρ)}
    {H : List α → List μ → β → σ → Prop} {Q : List α → List μ → ρ → σ → Prop}
    {new : List μ}
    (hround : ∀ m ∈ new, ∀ tail before b s, H (F.encode m ++ tail) before b s →
      ∃ b' s', (body b).run s = .done (.inl b') s' ∧
        H tail (before ++ [m]) b' s')
    (hlast : ∀ rest before b s, F.Short rest → H rest before b s →
      ∃ r s', (body b).run s = .done (.inr r) s' ∧ Q rest before r s')
    {n : Nat} {rest : List α} {before : List μ} {b : β} {s : σ}
    (hrest : F.Short rest) (hn : new.length < n)
    (hH : H (F.frames new ++ rest) before b s) :
    ∃ r s', (Proc.iterate body n b).run s = .done r s' ∧
      Q rest (before ++ new) r s' := by
  obtain ⟨k, rfl⟩ := Nat.exists_eq_add_of_lt hn
  have hloop := F.iterate_frames (E := fun _ => False) new
    (fun m hm tail before b s h => .inl (hround m hm tail before b s h))
    (k + 1) hH
  rcases hloop with ⟨b', s', hH', hrun⟩ | ⟨_, _, hfalse, _⟩
  · obtain ⟨r, s'', hbody, hQ⟩ := hlast rest _ b' s' hrest hH'
    refine ⟨r, s'', ?_, hQ⟩
    rw [Nat.add_assoc, hrun, Proc.iterate_succ_inr hbody]
  · exact hfalse.elim

/--
A receiver that is given the stream in pieces.  Each step `i` brings the piece
`piece i` and takes the complete frames off what it then holds; after any
number of steps it has taken exactly the messages complete so far.
-/
theorem forEach_pieces (step : ι → Proc ε σ Unit) (piece : ι → List α)
    {H : List α → List μ → σ → Prop} (ms : List μ) (steps : List ι)
    (hstep : ∀ i ∈ steps, ∀ buffer before new rest s, H buffer before s →
      buffer ++ piece i = F.frames new ++ rest → F.Short rest →
      before ++ new <+: ms →
      ∃ s', (step i).run s = .done () s' ∧ H rest (before ++ new) s')
    {n : Nat} {later : List α} {s : σ}
    (hpieces : (F.frames ms).drop n = steps.flatMap piece ++ later)
    (hH : H (F.remainder ms n) (F.complete ms n) s) :
    ∃ s', (Proc.forEach step steps).run s = .done () s' ∧
      H (F.remainder ms (n + (steps.flatMap piece).length))
        (F.complete ms (n + (steps.flatMap piece).length)) s' := by
  induction steps generalizing n s with
  | nil => exact ⟨s, rfl, by simpa using hH⟩
  | cons i steps ih =>
      rw [List.flatMap_cons, List.append_assoc] at hpieces
      obtain ⟨new, hcomplete, hbuffer⟩ := F.remainder_append ms n (piece i).length
      rw [hpieces, List.take_left] at hbuffer
      obtain ⟨s', hrun, hH'⟩ := hstep i (by simp) _ _ new _ s hH hbuffer
        (F.remainder_short ms _) (hcomplete ▸ F.complete_prefix ms _)
      rw [← hcomplete] at hH'
      have hdrop : (F.frames ms).drop (n + (piece i).length) =
          steps.flatMap piece ++ later := by
        rw [← List.drop_drop, hpieces, List.drop_left]
      obtain ⟨s'', hrun', hH''⟩ :=
        ih (fun j hj => hstep j (by simp [hj])) hdrop hH'
      refine ⟨s'', ?_, ?_⟩
      · rw [Proc.forEach_cons, Proc.run_bind_done hrun, hrun']
      · simpa [Nat.add_assoc] using hH''

end Framing

end LinuxAdvance.Foundation
