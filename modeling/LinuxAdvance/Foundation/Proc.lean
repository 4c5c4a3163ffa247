import Mathlib

/-!
# Programs with state, exceptions and waiting

A `Proc` reads and writes a state and ends in one of three ways: it returns, it
raises an error that nobody catches, or it is still waiting (for an answer of
its environment that has not come, or inside a loop that has not ended).  The
state is kept in all three cases, so that what a program did before it failed
can still be spoken about.
-/

namespace LinuxAdvance.Foundation

inductive Outcome (ε σ α : Type) where
  | done (value : α) (state : σ)
  | blocked (state : σ)
  | raised (error : ε) (state : σ)
  deriving DecidableEq, Repr

namespace Outcome

variable {ε σ τ α : Type}

def state : Outcome ε σ α → σ
  | done _ s => s
  | blocked s => s
  | raised _ s => s

@[simp] theorem state_done (a : α) (s : σ) :
    (done a s : Outcome ε σ α).state = s := rfl

@[simp] theorem state_blocked (s : σ) :
    (blocked s : Outcome ε σ α).state = s := rfl

@[simp] theorem state_raised (e : ε) (s : σ) :
    (raised e s : Outcome ε σ α).state = s := rfl

def IsBlocked : Outcome ε σ α → Prop
  | blocked _ => True
  | _ => False

instance (o : Outcome ε σ α) : Decidable o.IsBlocked := by
  cases o <;> unfold IsBlocked <;> infer_instance

@[simp] theorem isBlocked_done (a : α) (s : σ) :
    ¬ (done a s : Outcome ε σ α).IsBlocked := id

@[simp] theorem isBlocked_blocked (s : σ) :
    (blocked s : Outcome ε σ α).IsBlocked := trivial

@[simp] theorem isBlocked_raised (e : ε) (s : σ) :
    ¬ (raised e s : Outcome ε σ α).IsBlocked := id

def isDone : Outcome ε σ α → Bool
  | done _ _ => true
  | _ => false

def value? : Outcome ε σ α → Option α
  | done a _ => some a
  | _ => none

theorem exists_done_of_isDone {o : Outcome ε σ α} (h : o.isDone = true) :
    ∃ a, o = done a o.state := by
  cases o with
  | done a s => exact ⟨a, rfl⟩
  | blocked s => cases h
  | raised e s => cases h

theorem eq_done_of_isDone {o : Outcome ε σ Unit} (h : o.isDone = true) :
    o = done () o.state := (exists_done_of_isDone h).choose_spec

def Rel (R : σ → τ → Prop) : Outcome ε σ α → Outcome ε τ α → Prop
  | done a s, done b t => a = b ∧ R s t
  | blocked s, blocked t => R s t
  | raised e s, raised f t => e = f ∧ R s t
  | _, _ => False

end Outcome

structure Proc (ε σ α : Type) where
  run : σ → Outcome ε σ α

namespace Proc

variable {ε σ τ α β ρ ι : Type}

instance : Monad (Proc ε σ) where
  pure a := ⟨fun s => .done a s⟩
  bind p f := ⟨fun s =>
    match p.run s with
    | .done a s' => (f a).run s'
    | .blocked s' => .blocked s'
    | .raised e s' => .raised e s'⟩

def get : Proc ε σ σ := ⟨fun s => .done s s⟩

def modify (f : σ → σ) : Proc ε σ Unit := ⟨fun s => .done () (f s)⟩

def raise (e : ε) : Proc ε σ α := ⟨fun s => .raised e s⟩

def block : Proc ε σ α := ⟨fun s => .blocked s⟩

def ofExcept : Except ε α → Proc ε σ α
  | .ok a => pure a
  | .error e => raise e

/-- A method of a local object: the caller's own state is not touched. -/
def onLocal (p : Proc ε τ α) (object : τ) : Proc ε σ (α × τ) := ⟨fun s =>
  match p.run object with
  | .done a object' => .done (a, object') s
  | .blocked _ => .blocked s
  | .raised e _ => .raised e s⟩

/-- A method of a part of the state, whose errors the caller passes on. -/
def onPart {ε' : Type} (part : σ → τ) (put : σ → τ → σ) (pass : ε → ε')
    (p : Proc ε τ α) : Proc ε' σ α := ⟨fun s =>
  match p.run (part s) with
  | .done a t => .done a (put s t)
  | .blocked t => .blocked (put s t)
  | .raised e t => .raised (pass e) (put s t)⟩

@[simp] theorem run_pure (a : α) (s : σ) :
    (pure a : Proc ε σ α).run s = .done a s := rfl

@[simp] theorem run_get (s : σ) : (get : Proc ε σ σ).run s = .done s s := rfl

@[simp] theorem run_modify (f : σ → σ) (s : σ) :
    (modify f : Proc ε σ Unit).run s = .done () (f s) := rfl

@[simp] theorem run_raise (e : ε) (s : σ) :
    (raise e : Proc ε σ α).run s = .raised e s := rfl

@[simp] theorem run_block (s : σ) :
    (block : Proc ε σ α).run s = .blocked s := rfl

@[simp] theorem ofExcept_ok (a : α) :
    (ofExcept (.ok a) : Proc ε σ α) = pure a := rfl

@[simp] theorem ofExcept_error (e : ε) :
    (ofExcept (.error e) : Proc ε σ α) = raise e := rfl

theorem run_bind (p : Proc ε σ α) (f : α → Proc ε σ β) (s : σ) :
    (p >>= f).run s =
      match p.run s with
      | .done a s' => (f a).run s'
      | .blocked s' => .blocked s'
      | .raised e s' => .raised e s' := rfl

@[simp] theorem pure_bind (a : α) (f : α → Proc ε σ β) :
    ((pure a : Proc ε σ α) >>= f) = f a := rfl

@[simp] theorem run_get_bind (f : σ → Proc ε σ β) (s : σ) :
    ((get : Proc ε σ σ) >>= f).run s = (f s).run s := rfl

@[simp] theorem run_modify_bind (g : σ → σ) (f : Unit → Proc ε σ β) (s : σ) :
    (modify g >>= f).run s = (f ()).run (g s) := rfl

@[simp] theorem raise_bind (e : ε) (f : α → Proc ε σ β) :
    (raise e >>= f) = raise e := rfl

theorem run_bind_done {p : Proc ε σ α} {s s' : σ} {a : α}
    (h : p.run s = .done a s') (f : α → Proc ε σ β) :
    (p >>= f).run s = (f a).run s' := by
  rw [run_bind, h]

theorem run_bind_raised {p : Proc ε σ α} {s s' : σ} {e : ε}
    (h : p.run s = .raised e s') (f : α → Proc ε σ β) :
    (p >>= f).run s = .raised e s' := by
  rw [run_bind, h]

theorem run_bind_eq_done {p : Proc ε σ α} {f : α → Proc ε σ β} {s s'' : σ}
    {b : β} :
    (p >>= f).run s = .done b s'' ↔
      ∃ a s', p.run s = .done a s' ∧ (f a).run s' = .done b s'' := by
  rw [run_bind]
  cases p.run s <;> simp

theorem run_onPart_eq_done {ε' : Type} {part : σ → τ} {put : σ → τ → σ} {pass : ε → ε'}
    {p : Proc ε τ α} {s s' : σ} {a : α} :
    (onPart part put pass p).run s = .done a s' ↔
      ∃ t, p.run (part s) = .done a t ∧ put s t = s' := by
  rw [onPart]
  dsimp only
  cases p.run (part s) <;> simp

theorem run_onLocal_done {p : Proc ε τ α} {object object' : τ} {a : α}
    (h : p.run object = .done a object') (s : σ) :
    (onLocal p object).run s = .done (a, object') s := by
  rw [onLocal, h]

/-! ## Loops with a bounded number of rounds -/

/-- At most `n` rounds of a loop whose body says whether to go on (`inl`) or
to leave with a result (`inr`). -/
def iterate (body : β → Proc ε σ (β ⊕ ρ)) : Nat → β → Proc ε σ ρ
  | 0, _ => block
  | n + 1, b => do
      match ← body b with
      | .inl b' => iterate body n b'
      | .inr r => pure r

section Iterate

variable {body : β → Proc ε σ (β ⊕ ρ)}

theorem iterate_succ_inl {n : Nat} {b b' : β} {s s' : σ}
    (h : (body b).run s = .done (.inl b') s') :
    (iterate body (n + 1) b).run s = (iterate body n b').run s' := by
  rw [iterate, run_bind_done h]

theorem iterate_succ_inr {n : Nat} {b : β} {r : ρ} {s s' : σ}
    (h : (body b).run s = .done (.inr r) s') :
    (iterate body (n + 1) b).run s = .done r s' := by
  rw [iterate, run_bind_done h]
  rfl

theorem iterate_succ_raised {n : Nat} {b : β} {e : ε} {s s' : σ}
    (h : (body b).run s = .raised e s') :
    (iterate body (n + 1) b).run s = .raised e s' := by
  rw [iterate, run_bind_raised h]

theorem iterate_mono {n m : Nat} {b : β} {s : σ} (hnm : n ≤ m)
    (h : ¬ ((iterate body n b).run s).IsBlocked) :
    (iterate body m b).run s = (iterate body n b).run s := by
  induction n generalizing m b s with
  | zero => simp [iterate] at h
  | succ n ih =>
      obtain ⟨m, rfl⟩ := Nat.exists_eq_add_of_le' (Nat.lt_of_lt_of_le n.succ_pos hnm)
      cases hbody : (body b).run s with
      | blocked s' => simp [iterate, run_bind, hbody]
      | raised e s' => rw [iterate_succ_raised hbody, iterate_succ_raised hbody]
      | done r s' =>
          cases r with
          | inr r => rw [iterate_succ_inr hbody, iterate_succ_inr hbody]
          | inl b' =>
              rw [iterate_succ_inl hbody] at h
              rw [iterate_succ_inl hbody, iterate_succ_inl hbody]
              exact ih (by omega) h

/-- Variant rule: a measure that every round which goes on lowers. -/
theorem iterate_not_blocked {I : β → σ → Prop} (measure : σ → Nat)
    (hbody : ∀ b s, I b s → ¬ ((body b).run s).IsBlocked)
    (hdec : ∀ b s b' s', I b s → (body b).run s = .done (.inl b') s' →
      I b' s' ∧ measure s' < measure s)
    {n : Nat} {b : β} {s : σ} (hI : I b s) (hn : measure s < n) :
    ¬ ((iterate body n b).run s).IsBlocked := by
  induction n generalizing b s with
  | zero => omega
  | succ n ih =>
      cases hround : (body b).run s with
      | blocked s' => exact absurd (by simp [hround]) (hbody b s hI)
      | raised e s' => simp [iterate_succ_raised hround]
      | done r s' =>
          cases r with
          | inr r => simp [iterate_succ_inr hround]
          | inl b' =>
              obtain ⟨hI', hlt⟩ := hdec b s b' s' hI hround
              rw [iterate_succ_inl hround]
              exact ih hI' (by omega)

/-- Divergence rule: an invariant under which every round goes on. -/
theorem iterate_blocked_of_cycle {I : β → σ → Prop}
    (hcycle : ∀ b s, I b s → ∃ b' s', (body b).run s = .done (.inl b') s' ∧ I b' s')
    (n : Nat) {b : β} {s : σ} (hI : I b s) :
    ((iterate body n b).run s).IsBlocked := by
  induction n generalizing b s with
  | zero => simp [iterate]
  | succ n ih =>
      obtain ⟨b', s', hround, hI'⟩ := hcycle b s hI
      rw [iterate_succ_inl hround]
      exact ih hI'

/-- From one round's begin to another's, by rounds that go on. -/
inductive Rounds (body : β → Proc ε σ (β ⊕ ρ)) : β → σ → β → σ → Prop
  | here (b : β) (s : σ) : Rounds body b s b s
  | next {b b' b'' : β} {s s' s'' : σ} : (body b).run s = .done (.inl b') s' →
      Rounds body b' s' b'' s'' → Rounds body b s b'' s''

theorem Rounds.iterate {b b' : β} {s s' : σ} (h : Rounds body b s b' s') :
    ∃ n, ∀ k, (Proc.iterate body (n + k) b).run s = (Proc.iterate body k b').run s' := by
  induction h with
  | here b s => exact ⟨0, fun k => by rw [Nat.zero_add]⟩
  | next hround _ ih =>
      obtain ⟨n, hn⟩ := ih
      refine ⟨n + 1, fun k => ?_⟩
      rw [Nat.add_right_comm, iterate_succ_inl hround, hn]

/-- An error of any of the rounds leaves the loop. -/
theorem Rounds.raised {b b' : β} {s s' s'' : σ} {e : ε} (h : Rounds body b s b' s')
    (hround : (body b').run s' = .raised e s'') :
    ∃ n, (Proc.iterate body n b).run s = .raised e s'' := by
  obtain ⟨n, hn⟩ := h.iterate
  exact ⟨n + 1, (hn 1).trans (iterate_succ_raised hround)⟩

theorem Rounds.invariant {I : σ → Prop} {b b' : β} {s s' : σ} (h : Rounds body b s b' s')
    (hstep : ∀ b b' s s', I s → (body b).run s = .done (.inl b') s' → I s') (hs : I s) :
    I s' := by
  induction h with
  | here => exact hs
  | next hround _ ih => exact ih (hstep _ _ _ _ hs hround)

end Iterate

def forEach (f : ι → Proc ε σ Unit) : List ι → Proc ε σ Unit
  | [] => pure ()
  | i :: is => do
      f i
      forEach f is

@[simp] theorem forEach_nil (f : ι → Proc ε σ Unit) : forEach f [] = pure () := rfl

theorem forEach_cons (f : ι → Proc ε σ Unit) (i : ι) (is : List ι) :
    forEach f (i :: is) = f i >>= fun _ => forEach f is := rfl

theorem forEach_append_done {f : ι → Proc ε σ Unit} {is js : List ι} {s s' : σ}
    (h : (forEach f is).run s = .done () s') :
    (forEach f (is ++ js)).run s = (forEach f js).run s' := by
  induction is generalizing s with
  | nil => cases h; rfl
  | cons i is ih =>
      rw [forEach_cons, run_bind_eq_done] at h
      obtain ⟨_, s₁, hi, his⟩ := h
      rw [List.cons_append, forEach_cons, run_bind_done hi, ih his]

theorem forEach_concat_eq_done {f : ι → Proc ε σ Unit} {is : List ι} {i : ι} {s s' : σ} :
    (forEach f (is ++ [i])).run s = .done () s' ↔
      ∃ t, (forEach f is).run s = .done () t ∧ (f i).run t = .done () s' := by
  induction is generalizing s with
  | nil =>
      simp only [List.nil_append, forEach_cons, forEach_nil, run_bind_eq_done, run_pure,
        Outcome.done.injEq, true_and]
      constructor
      · rintro ⟨_, t, hi, rfl⟩
        exact ⟨s, rfl, hi⟩
      · rintro ⟨t, rfl, hi⟩
        exact ⟨(), s', hi, rfl⟩
  | cons j is ih =>
      rw [List.cons_append, forEach_cons, forEach_cons, run_bind_eq_done]
      simp only [run_bind_eq_done, ih]
      constructor
      · rintro ⟨_, t, hj, u, his, hi⟩
        exact ⟨u, ⟨_, t, hj, his⟩, hi⟩
      · rintro ⟨u, ⟨_, t, hj, his⟩, hi⟩
        exact ⟨_, t, hj, u, his, hi⟩

/-- A loop that ends has carried out each of its rounds, from some state that the
rounds before it led to. -/
theorem forEach_done_of_mem {f : ι → Proc ε σ Unit} {I : σ → Prop}
    (hstep : ∀ i s s', I s → (f i).run s = .done () s' → I s') {is : List ι} {s s' : σ}
    (hs : I s) (hrun : (forEach f is).run s = .done () s') {i : ι} (hi : i ∈ is) :
    ∃ t t', I t ∧ (f i).run t = .done () t' := by
  induction is generalizing s with
  | nil => simp at hi
  | cons j is ih =>
      rw [forEach_cons, run_bind_eq_done] at hrun
      obtain ⟨_, t, hj, hrest⟩ := hrun
      rcases List.mem_cons.mp hi with rfl | hi
      · exact ⟨s, t, hs, hj⟩
      · exact ih (hstep j s t hs hj) hrest hi

theorem forEach_done_map {κ : Type} {f : ι → Proc ε σ Unit} {g : κ → Proc ε σ Unit}
    {h : ι → κ} (hstep : ∀ i s s', (f i).run s = .done () s' → (g (h i)).run s = .done () s')
    {is : List ι} {s s' : σ} (hrun : (forEach f is).run s = .done () s') :
    (forEach g (is.map h)).run s = .done () s' := by
  induction is generalizing s with
  | nil => exact hrun
  | cons i is ih =>
      rw [forEach_cons, run_bind_eq_done] at hrun
      obtain ⟨_, t, hi, hrest⟩ := hrun
      rw [List.map_cons, forEach_cons, run_bind_done (hstep i s t hi)]
      exact ih hrest

/-! ## Simulation of one program by another over a different state -/

def Sim (R : σ → τ → Prop) (p : Proc ε σ α) (q : Proc ε τ α) : Prop :=
  ∀ s t, R s t → (p.run s).Rel R (q.run t)

section Sim

variable {R : σ → τ → Prop}

theorem Sim.pure (a : α) :
    Sim R (Pure.pure a : Proc ε σ α) (Pure.pure a) := fun _ _ h => ⟨rfl, h⟩

theorem Sim.raise (e : ε) :
    Sim R (Proc.raise e : Proc ε σ α) (Proc.raise e) := fun _ _ h => ⟨rfl, h⟩

theorem Sim.block : Sim R (Proc.block : Proc ε σ α) Proc.block := fun _ _ h => h

theorem Sim.ofExcept (r : Except ε α) :
    Sim R (Proc.ofExcept r : Proc ε σ α) (Proc.ofExcept r) := by
  cases r with
  | ok a => exact Sim.pure a
  | error e => exact Sim.raise e

theorem Sim.onLocal {υ : Type} (p : Proc ε υ α) (object : υ) :
    Sim R (Proc.onLocal p object : Proc ε σ (α × υ)) (Proc.onLocal p object) := by
  intro s t hst
  unfold Proc.onLocal
  cases p.run object with
  | done a object' => exact ⟨rfl, hst⟩
  | blocked object' => exact hst
  | raised e object' => exact ⟨rfl, hst⟩

theorem Sim.bind {p : Proc ε σ α} {q : Proc ε τ α}
    {f : α → Proc ε σ β} {g : α → Proc ε τ β}
    (hpq : Sim R p q) (hfg : ∀ a, Sim R (f a) (g a)) :
    Sim R (p >>= f) (q >>= g) := by
  intro s t hst
  have hrel := hpq s t hst
  rw [run_bind, run_bind]
  cases hp : p.run s <;> cases hq : q.run t <;> rw [hp, hq] at hrel
  case done.done a s' b t' =>
      obtain ⟨rfl, hst'⟩ := hrel
      exact hfg a s' t' hst'
  case blocked.blocked => exact hrel
  case raised.raised => exact hrel
  all_goals exact False.elim hrel

theorem Sim.iterate {body : β → Proc ε σ (β ⊕ ρ)} {body' : β → Proc ε τ (β ⊕ ρ)}
    (hbody : ∀ b, Sim R (body b) (body' b)) (n : Nat) (b : β) :
    Sim R (Proc.iterate body n b) (Proc.iterate body' n b) := by
  induction n generalizing b with
  | zero => exact Sim.block
  | succ n ih =>
      refine (hbody b).bind fun r => ?_
      cases r with
      | inl b' => exact ih b'
      | inr r => exact Sim.pure r

end Sim

end Proc

end LinuxAdvance.Foundation
