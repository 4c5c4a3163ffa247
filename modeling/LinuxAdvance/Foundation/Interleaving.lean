import LinuxAdvance.Foundation.Transition

/-!
# Parties of one system

A log says, in order, what happened to which party.  When every step of the
system moves each party by what the step's part of the log says about it, and by
nothing else, a party at the end of a run is what its own part of the log makes
of it, however the parts of the others lie in between.
-/

namespace LinuxAdvance.Foundation

namespace Interleaving

variable {σ κ ε τ : Type} [DecidableEq κ]

/-- The part of a log about one party. -/
def of (log : List (κ × ε)) (k : κ) : List ε :=
  (log.filter fun e => e.1 = k).map Prod.snd

@[simp] theorem of_nil (k : κ) : of ([] : List (κ × ε)) k = [] := rfl

@[simp] theorem of_append (log es : List (κ × ε)) (k : κ) :
    of (log ++ es) k = of log k ++ of es k := by
  simp [of]

@[simp] theorem of_cons_self (k : κ) (e : ε) (log : List (κ × ε)) :
    of ((k, e) :: log) k = e :: of log k := by
  simp [of]

theorem of_cons_of_ne {k k' : κ} (h : k' ≠ k) (e : ε) (log : List (κ × ε)) :
    of ((k', e) :: log) k = of log k := by
  simp [of, h]

inductive Runs (Step : σ → List (κ × ε) → σ → Prop) (s : σ) : List (κ × ε) → σ → Prop
  | start : Runs Step s [] s
  | step {log es : List (κ × ε)} {s' s'' : σ} (h : Runs Step s log s')
      (hstep : Step s' es s'') : Runs Step s (log ++ es) s''

/-- `Looks s k t` says that the party `k` of `s` is as `t` has it, and `own` is
what a happening does to a party. -/
def Moves (own : τ → ε → Option τ) (Looks : σ → κ → τ → Prop) (s : σ)
    (es : List (κ × ε)) (s' : σ) : Prop :=
  ∀ k t, Looks s k t → ∃ t', Transition.run own t (of es k) = some t' ∧ Looks s' k t'

section Moves

variable {own : τ → ε → Option τ} {Looks : σ → κ → τ → Prop}

theorem Moves.refl (s : σ) : Moves own Looks s [] s :=
  fun _ t ht => ⟨t, rfl, ht⟩

theorem Moves.trans {s s' s'' : σ} {es fs : List (κ × ε)} (h : Moves own Looks s es s')
    (h' : Moves own Looks s' fs s'') : Moves own Looks s (es ++ fs) s'' := by
  intro k t ht
  obtain ⟨t', hrun, ht'⟩ := h k t ht
  obtain ⟨t'', hrun', ht''⟩ := h' k t' ht'
  refine ⟨t'', ?_, ht''⟩
  rw [of_append]
  exact Transition.run_append_eq_some.mpr ⟨t', hrun, hrun'⟩

theorem Moves.single {s s' : σ} {k : κ} {e : ε}
    (hself : ∀ t, Looks s k t → ∃ t', own t e = some t' ∧ Looks s' k t')
    (hother : ∀ k' t, k' ≠ k → Looks s k' t → Looks s' k' t) :
    Moves own Looks s [(k, e)] s' := by
  intro k' t ht
  by_cases hk : k' = k
  · subst hk
    obtain ⟨t', hown, ht'⟩ := hself t ht
    refine ⟨t', ?_, ht'⟩
    rw [of_cons_self, of_nil, Transition.run_cons, hown]
    rfl
  · refine ⟨t, ?_, hother k' t hk ht⟩
    rw [of_cons_of_ne (Ne.symm hk), of_nil]
    rfl

end Moves

end Interleaving

end LinuxAdvance.Foundation
