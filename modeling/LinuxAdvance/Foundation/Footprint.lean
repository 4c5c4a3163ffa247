import LinuxAdvance.Foundation.Proc

/-!
# What a program can do to its state

`Within R p`: however a run of `p` ends, its state is the one it started in
after finitely many changes in `R`.  What every change keeps, every run keeps.
-/

namespace LinuxAdvance.Foundation

open Relation

theorem keeps_of_step {σ : Type} {R : σ → σ → Prop} {I : σ → Prop}
    (hI : ∀ s s', R s s' → I s → I s') {s s' : σ} (h : ReflTransGen R s s') (hs : I s) :
    I s' := by
  induction h with
  | refl => exact hs
  | tail _ hstep ih => exact hI _ _ hstep ih

namespace Proc

variable {ε σ α β ρ ι : Type}

def Within (R : σ → σ → Prop) (p : Proc ε σ α) : Prop :=
  ∀ s, ReflTransGen R s (p.run s).state

namespace Within

variable {R : σ → σ → Prop}

theorem pure (a : α) : Within R (Pure.pure a : Proc ε σ α) := fun _ => .refl

theorem raise (e : ε) : Within R (Proc.raise e : Proc ε σ α) := fun _ => .refl

theorem get : Within R (Proc.get : Proc ε σ σ) := fun _ => .refl

theorem modify {f : σ → σ} (hf : ∀ s, R s (f s)) :
    Within R (Proc.modify f : Proc ε σ Unit) := fun s => .single (hf s)

theorem ofExcept (r : Except ε α) : Within R (Proc.ofExcept r : Proc ε σ α) := by
  cases r with
  | ok a => exact Within.pure a
  | error e => exact Within.raise e

theorem bind {p : Proc ε σ α} {f : α → Proc ε σ β} (hp : Within R p)
    (hf : ∀ a, Within R (f a)) : Within R (p >>= f) := by
  intro s
  have hfirst := hp s
  rw [run_bind]
  cases h : p.run s with
  | done a s' =>
      rw [h] at hfirst
      exact hfirst.trans (hf a s')
  | blocked s' =>
      rw [h] at hfirst
      exact hfirst
  | raised e s' =>
      rw [h] at hfirst
      exact hfirst

theorem iterate {body : ι → Proc ε σ (ι ⊕ ρ)} (hbody : ∀ b, Within R (body b)) (n : Nat) (b : ι) :
    Within R (Proc.iterate body n b) := by
  induction n generalizing b with
  | zero => exact fun _ => .refl
  | succ n ih =>
      refine (hbody b).bind fun r => ?_
      cases r with
      | inl b' => exact ih b'
      | inr r => exact .pure r

end Within

/-! ## Operations of the simulation relation -/

section Sim

variable {τ : Type} {R : σ → τ → Prop}

theorem Sim.modify {f : σ → σ} {g : τ → τ} (h : ∀ s t, R s t → R (f s) (g t)) :
    Sim R (Proc.modify f : Proc ε σ Unit) (Proc.modify g) :=
  fun s t hst => ⟨rfl, h s t hst⟩

end Sim

end Proc

end LinuxAdvance.Foundation
