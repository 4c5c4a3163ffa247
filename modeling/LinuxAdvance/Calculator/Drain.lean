import LinuxAdvance.Calculator.Frames
import LinuxAdvance.Foundation.Triple

/-!
# The drain loop

Three programs hold the loop `while (true) { package = Decode(buffer); if
(package.empty()) break; ... }`: the reactor's parser, the threaded server and
the client.  They differ in where the buffer lives and in what they do with a
package, so these are parameters.  The loop is given one round more than the
buffer has bytes; `drain_ends_iff` shows that a loop that needs more than that
never ends.
-/

namespace LinuxAdvance.Calculator

open LinuxAdvance.Foundation
open LinuxAdvance.Cxx

section Drain

variable {σ β : Type} (get : Proc Fault σ Bytes)
  (put : Bytes → Proc Fault σ Unit) (body : Bytes → β → Proc Fault σ β)

/-- One call of `decode` and what follows it; `β` holds the variables that
outlive a round. -/
def drainRound (x : β) : Proc Fault σ (β ⊕ β) := do
  let buffer ← get
  let (package, rest) ← eval (decode buffer)
  put rest
  if package = [] then
    return .inr x
  let x' ← body package x
  return .inl x'

def drain (x : β) : Proc Fault σ β := do
  let buffer ← get
  Proc.iterate (drainRound get put body) (buffer.length + 1) x

variable {get put body}

theorem sim_drain {τ : Type} {R : σ → τ → Prop} {get' : Proc Fault τ Bytes}
    {put' : Bytes → Proc Fault τ Unit} {body' : Bytes → β → Proc Fault τ β}
    (hget : Proc.Sim R get get') (hput : ∀ b, Proc.Sim R (put b) (put' b))
    (hbody : ∀ p x, Proc.Sim R (body p x) (body' p x)) (x : β) :
    Proc.Sim R (drain get put body x) (drain get' put' body' x) := by
  refine hget.bind fun buffer => Proc.Sim.iterate (fun x => ?_) _ x
  refine hget.bind fun b => (Proc.Sim.ofExcept _).bind fun r => ?_
  refine (hput _).bind fun _ => ?_
  split
  · exact Proc.Sim.pure _
  · exact (hbody _ _).bind fun _ => Proc.Sim.pure _

/-! ## On any buffer -/

/-- The rule of the loop, for a buffer `buf` that is part of the state: the
invariant is to survive the last round and a round with a package, as a whole. -/
theorem drainRounds_ends {I : σ → Prop} (buf : σ → Bytes)
    {X : Option Fault → σ → Prop} (hget : ∀ s, I s → get.run s = .done (buf s) s)
    (hwait : ∀ s, I s → X none s) (hthrow : ∀ e s, I s → X (some (.exn e)) s)
    (hlast : ∀ s rest, I s → decode (buf s) = .ok ([], rest) →
      ((put rest).run s).Ends (fun _ => I) X)
    (hround : ∀ s pkg rest x, I s → decode (buf s) = .ok (pkg, rest) → pkg ≠ [] →
      ((put rest >>= fun _ => body pkg x).run s).Ends (fun _ => I) X)
    (n : Nat) (x : β) :
    Proc.Triple I (Proc.iterate (drainRound get put body) n x) (fun _ => I) X := by
  apply Proc.Triple.iterate (I := fun _ => I) (Q := fun _ => I)
  · intro x s hs
    rw [drainRound, Proc.run_bind_done (hget s hs)]
    cases hdecode : decode (buf s) with
    | error e => exact hthrow e s hs
    | ok r =>
        obtain ⟨pkg, rest⟩ := r
        rw [eval_ok, Proc.pure_bind]
        dsimp only
        by_cases hpkg : pkg = []
        · subst hpkg
          have hend := hlast s rest hs hdecode
          rw [Proc.run_bind]
          cases hput : (put rest).run s <;> rw [hput] at hend <;> exact hend
        · have hend := hround s pkg rest x hs hdecode hpkg
          rw [Proc.run_bind] at hend ⊢
          cases hput : (put rest).run s <;> rw [hput] at hend
          case done _ s₁ =>
              dsimp only at hend ⊢
              rw [if_neg hpkg, Proc.run_bind]
              cases hbody : (body pkg x).run s₁ <;> rw [hbody] at hend <;> exact hend
          all_goals exact hend
  · exact fun _ s hs => hwait s hs

theorem drain_triple (get : Proc Fault σ Bytes) (put : Bytes → Proc Fault σ Unit)
    (body : Bytes → β → Proc Fault σ β) {I : σ → Prop} (buf : σ → Bytes)
    {X : Option Fault → σ → Prop} (hget : ∀ s, I s → get.run s = .done (buf s) s)
    (hwait : ∀ s, I s → X none s) (hthrow : ∀ e s, I s → X (some (.exn e)) s)
    (hlast : ∀ s rest, I s → decode (buf s) = .ok ([], rest) →
      ((put rest).run s).Ends (fun _ => I) X)
    (hround : ∀ s pkg rest x, I s → decode (buf s) = .ok (pkg, rest) → pkg ≠ [] →
      ((put rest >>= fun _ => body pkg x).run s).Ends (fun _ => I) X) (x : β) :
    Proc.Triple I (drain get put body x) (fun _ => I) X := by
  intro s hs
  rw [drain, Proc.run_bind_done (hget s hs)]
  exact drainRounds_ends buf hget hwait hthrow hlast hround _ x s hs

/-! ## On streams of frames -/

theorem length_le_length_frames (ms : List Payload) :
    ms.length ≤ (framing.frames ms).length := by
  induction ms with
  | nil => simp
  | cons m ms ih =>
      have := List.length_pos_iff.mpr (framing.encode_ne_nil m)
      rw [Framing.frames_cons, List.length_append, List.length_cons]
      omega

section Frames

variable {H : Bytes → List Payload → β → σ → Prop}

theorem drainRound_frame
    (hget : ∀ b ms x s, H b ms x s → get.run s = .done b s)
    {m : Payload} {tail : Bytes} {ms : List Payload} {x x' : β} {s s' : σ}
    (hH : H (framing.encode m ++ tail) ms x s)
    (hrun : (put tail >>= fun _ => body m.bytes x).run s = .done x' s') :
    (drainRound get put body x).run s = .done (.inl x') s' := by
  obtain ⟨_, s₁, hput, hbody⟩ := Proc.run_bind_eq_done.mp hrun
  rw [drainRound, Proc.run_bind_done (hget _ _ _ _ hH), decode_frame]
  change (put tail >>= fun _ => _).run s = _
  rw [Proc.run_bind_done hput, if_neg m.nonempty, Proc.run_bind_done hbody]
  rfl

theorem drainRound_short
    (hget : ∀ b ms x s, H b ms x s → get.run s = .done b s)
    (hput : ∀ b ms x s, H b ms x s → (put b).run s = .done () s)
    {rest : Bytes} {ms : List Payload} {x : β} {s : σ}
    (hrest : framing.Short rest) (hH : H rest ms x s) :
    (drainRound get put body x).run s = .done (.inr x) s := by
  rw [drainRound, Proc.run_bind_done (hget _ _ _ _ hH), decode_short hrest]
  change (put rest >>= fun _ => _).run s = _
  rw [Proc.run_bind_done (hput _ _ _ _ hH)]
  rfl

/-- The loop takes the complete frames off its buffer, in order, and stops at
the proper prefix behind them. -/
theorem drain_frames (get : Proc Fault σ Bytes)
    (put : Bytes → Proc Fault σ Unit) (body : Bytes → β → Proc Fault σ β)
    (hget : ∀ b ms x s, H b ms x s → get.run s = .done b s)
    (hput : ∀ b ms x s, H b ms x s → (put b).run s = .done () s)
    (new : List Payload)
    (hbody : ∀ m ∈ new, ∀ tail ms x s, H (framing.encode m ++ tail) ms x s →
      ∃ x' s', (put tail >>= fun _ => body m.bytes x).run s = .done x' s' ∧
        H tail (ms ++ [m]) x' s')
    {rest : Bytes} {before : List Payload} {x : β} {s : σ}
    (hrest : framing.Short rest) (hH : H (framing.frames new ++ rest) before x s) :
    ∃ x' s', (drain get put body x).run s = .done x' s' ∧
      H rest (before ++ new) x' s' := by
  rw [drain, Proc.run_bind_done (hget _ _ _ _ hH)]
  have hlen := length_le_length_frames new
  refine framing.iterate_frames_done (H := H)
    (Q := fun rest ms x s => H rest ms x s) ?_ ?_ hrest ?_ hH
  · intro m hmem tail ms x s hm
    obtain ⟨x', s', hrun, hm'⟩ := hbody m hmem tail ms x s hm
    exact ⟨x', s', drainRound_frame hget hm hrun, hm'⟩
  · intro rest ms x s hshort hlast
    exact ⟨x, s, drainRound_short hget hput hshort hlast, hlast⟩
  · rw [List.length_append]
    omega

end Frames

end Drain

end LinuxAdvance.Calculator
