import Mathlib

/-!
# Systems that take one step at a time

A system is a function from a state and an event to the next state, `none` where
the event cannot happen.  A run is a list of events; what every step keeps, every
run keeps.
-/

namespace LinuxAdvance.Foundation.Transition

variable {σ τ ε : Type} {step : σ → ε → Option σ}

def run (step : σ → ε → Option σ) (s : σ) (es : List ε) : Option σ :=
  es.foldlM step s

@[simp] theorem run_nil (s : σ) : run step s [] = some s := rfl

@[simp] theorem run_cons (s : σ) (e : ε) (es : List ε) :
    run step s (e :: es) = (step s e).bind fun s' => run step s' es := by
  simp [run]

theorem run_append (s : σ) (es fs : List ε) :
    run step s (es ++ fs) = (run step s es).bind fun s' => run step s' fs := by
  simp [run, List.foldlM_append]

theorem run_append_eq_some {s s' : σ} {es fs : List ε} :
    run step s (es ++ fs) = some s' ↔
      ∃ t, run step s es = some t ∧ run step t fs = some s' := by
  simp [run_append, Option.bind_eq_some_iff]

theorem run_concat_eq_some {s s' : σ} {es : List ε} {e : ε} :
    run step s (es ++ [e]) = some s' ↔
      ∃ t, run step s es = some t ∧ step t e = some s' := by
  simp [run_append_eq_some]

theorem keeps {I : σ → Prop} (hI : ∀ s e s', step s e = some s' → I s → I s')
    {s s' : σ} {es : List ε} (h : run step s es = some s') (hs : I s) : I s' := by
  induction es generalizing s with
  | nil =>
      simp at h
      exact h ▸ hs
  | cons e es ih =>
      simp only [run_cons, Option.bind_eq_some_iff] at h
      obtain ⟨t, hstep, h⟩ := h
      exact ih h (hI s e t hstep hs)

theorem run_mono {step' : σ → ε → Option σ}
    (hstep : ∀ s e s', step s e = some s' → step' s e = some s') {s s' : σ} {es : List ε}
    (h : run step s es = some s') : run step' s es = some s' := by
  induction es generalizing s with
  | nil => exact h
  | cons e es ih =>
      simp only [run_cons, Option.bind_eq_some_iff] at h ⊢
      obtain ⟨t, ht, h⟩ := h
      exact ⟨t, hstep s e t ht, ih h⟩

/-! ## Runs that come to an end -/

section Measure

variable {P : ε → Prop} {measure : σ → Nat}

/-- A measure that every event of a kind lowers bounds how many of them follow on
each other. -/
theorem length_add_le (hlower : ∀ s e s', P e → step s e = some s' → measure s' < measure s)
    {s s' : σ} {es : List ε} (h : run step s es = some s') (hes : ∀ e ∈ es, P e) :
    es.length + measure s' ≤ measure s := by
  induction es generalizing s with
  | nil =>
      simp at h
      simp [h]
  | cons e es ih =>
      simp only [run_cons, Option.bind_eq_some_iff] at h
      obtain ⟨t, hstep, h⟩ := h
      have hlt := hlower s e t (hes e List.mem_cons_self) hstep
      have hle := ih h fun f hf => hes f (List.mem_cons_of_mem e hf)
      rw [List.length_cons]
      omega

/-- So they lead to where none of them can happen. -/
theorem exists_run_to_rest
    (hlower : ∀ s e s', P e → step s e = some s' → measure s' < measure s) (s : σ) :
    ∃ es s', (∀ e ∈ es, P e) ∧ run step s es = some s' ∧ ∀ e, P e → step s' e = none := by
  induction hn : measure s using Nat.strong_induction_on generalizing s with
  | _ n ih =>
      by_cases hrest : ∀ e, P e → step s e = none
      · exact ⟨[], s, by simp, run_nil s, hrest⟩
      · push Not at hrest
        obtain ⟨e, he, hsome⟩ := hrest
        obtain ⟨t, hstep⟩ := Option.ne_none_iff_exists'.mp hsome
        obtain ⟨es, s', hes, hrun, hs'⟩ := ih _ (hn ▸ hlower s e t he hstep) t rfl
        refine ⟨e :: es, s', ?_, ?_, hs'⟩
        · simpa [he] using hes
        · simp [hstep, hrun]

end Measure

end LinuxAdvance.Foundation.Transition
