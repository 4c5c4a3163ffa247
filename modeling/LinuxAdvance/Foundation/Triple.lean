import LinuxAdvance.Foundation.Proc

/-!
# Pre- and postconditions

`Triple P p Q X`: from a state in `P` the program `p` returns a value and a
state in `Q`, or it stops in a state in `X`, still waiting (`none`) or with an
error nobody caught.
-/

namespace LinuxAdvance.Foundation

namespace Outcome

variable {ε σ τ α : Type}

def Ends (Q : α → σ → Prop) (X : Option ε → σ → Prop) : Outcome ε σ α → Prop
  | done a s => Q a s
  | blocked s => X none s
  | raised e s => X (some e) s

theorem Ends.mono {Q Q' : α → σ → Prop} {X X' : Option ε → σ → Prop}
    {o : Outcome ε σ α} (h : o.Ends Q X) (hQ : ∀ a s, Q a s → Q' a s)
    (hX : ∀ e s, X e s → X' e s) : o.Ends Q' X' := by
  cases o with
  | done a s => exact hQ a s h
  | blocked s => exact hX none s h
  | raised e s => exact hX (some e) s h

theorem Rel.ends {R : σ → τ → Prop} {o : Outcome ε σ α} {o' : Outcome ε τ α}
    {Q : α → τ → Prop} {X : Option ε → τ → Prop} (h : o.Rel R o') (h' : o'.Ends Q X) :
    o.Ends (fun a s => ∃ t, R s t ∧ o' = .done a t ∧ Q a t)
      (fun e s => ∃ t, R s t ∧ X e t) := by
  cases o with
  | done a s =>
      cases o' with
      | done b t => exact ⟨t, h.2, by rw [h.1], h.1 ▸ h'⟩
      | blocked t => exact False.elim h
      | raised f t => exact False.elim h
  | blocked s =>
      cases o' with
      | done b t => exact False.elim h
      | blocked t => exact ⟨t, h, h'⟩
      | raised f t => exact False.elim h
  | raised e s =>
      cases o' with
      | done b t => exact False.elim h
      | blocked t => exact False.elim h
      | raised f t => exact ⟨t, h.2, h.1 ▸ h'⟩

end Outcome

namespace Proc

variable {ε σ τ α β ρ ι : Type}

def Triple (P : σ → Prop) (p : Proc ε σ α) (Q : α → σ → Prop)
    (X : Option ε → σ → Prop) : Prop :=
  ∀ s, P s → (p.run s).Ends Q X

namespace Triple

variable {P P' : σ → Prop} {Q Q' : α → σ → Prop} {X X' : Option ε → σ → Prop}

theorem consequence {p : Proc ε σ α} (h : Triple P p Q X)
    (hP : ∀ s, P' s → P s) (hQ : ∀ a s, Q a s → Q' a s)
    (hX : ∀ e s, X e s → X' e s) : Triple P' p Q' X' :=
  fun s hs => (h s (hP s hs)).mono hQ hX

theorem pure {a : α} (h : ∀ s, P s → Q a s) :
    Triple P (Pure.pure a : Proc ε σ α) Q X := h

theorem raise {e : ε} (h : ∀ s, P s → X (some e) s) :
    Triple P (Proc.raise e : Proc ε σ α) Q X := h

theorem block (h : ∀ s, P s → X none s) :
    Triple P (Proc.block : Proc ε σ α) Q X := h

theorem bind {p : Proc ε σ α} {f : α → Proc ε σ β} {M : α → σ → Prop}
    {Q : β → σ → Prop} (hp : Triple P p M X)
    (hf : ∀ a, Triple (M a) (f a) Q X) : Triple P (p >>= f) Q X := by
  intro s hs
  have hends := hp s hs
  rw [run_bind]
  cases h : p.run s with
  | done a s' => exact hf a s' (by simpa [h, Outcome.Ends] using hends)
  | blocked s' => simpa [h, Outcome.Ends] using hends
  | raised e s' => simpa [h, Outcome.Ends] using hends

/-- The loop rule; a loop that has not ended is still in its invariant. -/
theorem iterate {body : β → Proc ε σ (β ⊕ ρ)} {I : β → σ → Prop}
    {Q : ρ → σ → Prop}
    (hbody : ∀ b, Triple (I b) (body b)
      (fun r s => r.elim (fun b' => I b' s) (fun r => Q r s)) X)
    (hX : ∀ b s, I b s → X none s) (n : Nat) (b : β) :
    Triple (I b) (Proc.iterate body n b) Q X := by
  induction n generalizing b with
  | zero => exact Triple.block (hX b)
  | succ n ih =>
      apply (hbody b).bind
      intro r
      cases r with
      | inl b' => exact ih b'
      | inr r => exact Triple.pure fun s hs => hs

theorem forEach {f : ι → Proc ε σ Unit} {I : σ → Prop} {is : List ι}
    (hf : ∀ i ∈ is, Triple I (f i) (fun _ => I) X) :
    Triple I (Proc.forEach f is) (fun _ => I) X := by
  induction is with
  | nil => exact Triple.pure fun s hs => hs
  | cons i is ih =>
      apply (hf i (by simp)).bind
      intro _
      exact ih fun j hj => hf j (by simp [hj])

end Triple

/-! ## Invariants -/

def Keeps (I : σ → Prop) (p : Proc ε σ α) : Prop :=
  Triple I p (fun _ => I) (fun _ => I)

namespace Keeps

variable {I : σ → Prop}

theorem pure (a : α) : Keeps I (Pure.pure a : Proc ε σ α) := fun _ hs => hs

theorem raise (e : ε) : Keeps I (Proc.raise e : Proc ε σ α) := fun _ hs => hs

theorem block : Keeps I (Proc.block : Proc ε σ α) := fun _ hs => hs

theorem get : Keeps I (Proc.get : Proc ε σ σ) := fun _ hs => hs

theorem modify {f : σ → σ} (hf : ∀ s, I s → I (f s)) :
    Keeps I (Proc.modify f : Proc ε σ Unit) := hf

theorem bind {p : Proc ε σ α} {f : α → Proc ε σ β} (hp : Keeps I p)
    (hf : ∀ a, Keeps I (f a)) : Keeps I (p >>= f) :=
  Triple.bind hp hf

theorem run {p : Proc ε σ α} (hp : Keeps I p) {s s' : σ} {a : α} (hs : I s)
    (hrun : p.run s = .done a s') : I s' := by
  have hends := hp s hs
  rw [hrun] at hends
  exact hends

/-- A simulation of a program by itself carries an invariant, so that the rules
of `Sim` are rules for invariants too. -/
theorem iff_sim {p : Proc ε σ α} :
    Keeps I p ↔ Sim (fun s t => s = t ∧ I s) p p := by
  constructor
  · rintro h s t ⟨rfl, hs⟩
    have hends := h s hs
    cases hp : p.run s <;> rw [hp] at hends
    case done a s' => exact ⟨rfl, rfl, hends⟩
    case blocked s' => exact ⟨rfl, hends⟩
    case raised e s' => exact ⟨rfl, rfl, hends⟩
  · intro h s hs
    have hrel := h s s ⟨rfl, hs⟩
    cases hp : p.run s <;> rw [hp] at hrel
    case done a s' => exact hrel.2.2
    case blocked s' => exact hrel.2
    case raised e s' => exact hrel.2.2

end Keeps

end Proc

end LinuxAdvance.Foundation
