import LinuxAdvance.Pool.Threadpool

/-!
# In which order tasks are run

Tasks leave the queue in order, but a worker that has taken one may be overtaken
by a worker that took a later one.  While two tasks are never in hand together,
the first is executed before the second is taken.
-/

namespace LinuxAdvance.Pool

open LinuxAdvance.Foundation

variable {n : Nat} {T : Type}

def Before (a b : T) (tasks : List T) : Prop :=
  ∃ pre post, tasks = pre ++ b :: post ∧ a ∈ pre

namespace Threadpool

variable {p q : Threadpool n T} {a b : T}

def Together (p : Threadpool n T) (a b : T) : Prop :=
  (∃ i, p.workers i = .running a) ∧ ∃ i, p.workers i = .running b

theorem not_together_of_one (p : Threadpool 1 T) (hne : a ≠ b) : ¬p.Together a b := by
  rintro ⟨⟨i, hi⟩, ⟨j, hj⟩⟩
  rw [Subsingleton.elim j i, hi] at hj
  simp only [Phase.running.injEq] at hj
  exact hne hj

theorem accepted_of_step {e : Event n T} (h : p.step e = some q) :
    q.accepted = p.accepted ∨
      ∃ t signalled, e = .enqueue t signalled ∧ q.accepted = p.accepted ++ [t] := by
  cases takes_of_step h with
  | @enqueue t signalled _ =>
      rcases p.enqueue_eq t signalled with heq | ⟨workers, heq⟩
      · exact .inl (by rw [heq])
      · exact .inr ⟨t, signalled, rfl, by rw [heq]⟩
  | stop =>
      obtain ⟨workers, heq⟩ := p.stop_eq
      exact .inl (by rw [heq])
  | lock _ => exact .inl (taskHandler_accepted _ _)
  | spurious _ => exact .inl rfl
  | relock _ => exact .inl (taskHandler_accepted _ _)
  | finish _ => exact .inl rfl

/-- Only `Enqueue` accepts. -/
theorem accepted_of_not_enqueue {e : Event n T} (hother : ∀ t signalled, e ≠ .enqueue t signalled)
    (h : p.step e = some q) : q.accepted = p.accepted := by
  rcases accepted_of_step h with hsame | ⟨t, signalled, he, -⟩
  · exact hsame
  · exact absurd he (hother t signalled)

theorem taskHandler_fifo {p : Threadpool n T} (h : p.accepted = p.taken ++ p.taskQueue)
    (i : Fin n) :
    (p.taskHandler i).accepted = (p.taskHandler i).taken ++ (p.taskHandler i).taskQueue := by
  rw [taskHandler_accepted, h]
  unfold taskHandler
  split
  · rfl
  · rfl
  · next hqueue => simp [setWorker, hqueue]

/-- The part of the invariant that does not need a worker. -/
theorem fifo_of_step {e : Event n T} (hstep : p.step e = some q)
    (h : p.accepted = p.taken ++ p.taskQueue) : q.accepted = q.taken ++ q.taskQueue := by
  cases takes_of_step hstep with
  | @enqueue t signalled _ =>
      rcases p.enqueue_eq t signalled with heq | ⟨workers, heq⟩ <;> simp [heq, h]
  | stop =>
      obtain ⟨workers, heq⟩ := p.stop_eq
      simp [heq, h]
  | lock _ => exact taskHandler_fifo h _
  | spurious _ => exact h
  | @relock i _ => exact taskHandler_fifo (p := p.reacquire i) h i
  | finish _ => exact h

theorem isrunning_of_step {e : Event n T} (hstep : p.step e = some q) (he : e ≠ .stop) :
    q.isrunning = p.isrunning := by
  cases takes_of_step hstep with
  | @enqueue t signalled _ =>
      rcases p.enqueue_eq t signalled with heq | ⟨workers, heq⟩ <;> simp [heq]
  | stop => exact absurd rfl he
  | lock _ => simp
  | spurious _ => rfl
  | relock _ => simp [reacquire]
  | finish _ => rfl

theorem accepted_prefix_of_step {e : Event n T} (h : p.step e = some q) :
    p.accepted <+: q.accepted := by
  rcases accepted_of_step h with hsame | ⟨t, _, _, hnew⟩
  · rw [hsame]
  · rw [hnew]
    exact List.prefix_append _ _

theorem executed_subset_of_step {e : Event n T} (h : p.step e = some q) :
    p.executed ⊆ q.executed := by
  cases takes_of_step h with
  | @enqueue t signalled _ =>
      rcases p.enqueue_eq t signalled with heq | ⟨workers, heq⟩ <;> simp [heq]
  | stop =>
      obtain ⟨workers, heq⟩ := p.stop_eq
      simp [heq]
  | lock _ => simp
  | spurious _ => simp
  | relock _ => simp [reacquire]
  | finish _ => exact List.subset_append_left _ _

theorem Inv.taken_of_executed (h : Inv p) {t : T} (ht : t ∈ p.executed) : t ∈ p.taken := by
  have hmem : t ∈ (p.taken : Multiset T) := by simp [h.kept, ht]
  simpa using hmem

theorem Inv.not_executed_of_running (h : Inv p) (hnodup : p.accepted.Nodup) {i : Fin n}
    {t : T} (hi : p.workers i = .running t) : t ∉ p.executed := by
  rw [h.fifo] at hnodup
  have htaken : (p.taken : Multiset T).Nodup := by
    simpa using (List.nodup_append.mp hnodup).1
  rw [h.kept, Multiset.nodup_add] at htaken
  intro ht
  exact Multiset.disjoint_left.mp htaken.2.2 (mem_hands.mpr ⟨i, hi⟩) (by simpa using ht)

theorem executed_first_taskHandler (h : Inv p) {i : Fin n} (hi : p.workers i = .ready)
    {all : List T} (hall : p.accepted <+: all) (hnodup : all.Nodup) (hbefore : Before a b all)
    (hapart : ¬(p.taskHandler i).Together a b) (hfirst : b ∈ p.taken → a ∈ p.executed) :
    b ∈ (p.taskHandler i).taken → a ∈ (p.taskHandler i).executed := by
  unfold taskHandler at hapart ⊢
  split
  · exact hfirst
  · exact hfirst
  · next t rest hqueue =>
      simp only [hqueue] at hapart
      intro hb
      simp only [setWorker_taken, List.mem_append, List.mem_singleton] at hb
      rcases hb with hb | rfl
      · exact hfirst hb
      · -- what was accepted before `b` has been taken before it
        obtain ⟨pre, post, hsplit, ha⟩ := hbefore
        obtain ⟨later, hlater⟩ := hall
        rw [h.fifo, hqueue, List.append_assoc, List.cons_append, hsplit] at hlater
        rw [hsplit, List.nodup_middle, List.nodup_cons, List.mem_append, not_or] at hnodup
        have hcut : pre = p.taken :=
          ((List.append_cons_inj_of_notMem hnodup.1.1 hnodup.1.2).mp hlater.symm).1
        have hkept : a ∈ (p.taken : Multiset T) := by simpa [← hcut] using ha
        rw [h.kept, Multiset.mem_add] at hkept
        rcases hkept with hhand | hdone
        · obtain ⟨j, hj⟩ := mem_hands.mp hhand
          have hji : j ≠ i := by
            intro hji
            simp [hji, hi] at hj
          exact absurd ⟨⟨j, by rw [setWorker_of_ne _ _ _ hji]; exact hj⟩,
            ⟨i, setWorker_self _ _ _⟩⟩ hapart
        · simpa using hdone

theorem Inv.accepted_of_running (h : Inv p) {i : Fin n} {t : T}
    (hi : p.workers i = .running t) : t ∈ p.accepted := by
  have hmem : t ∈ (p.taken : Multiset T) := by simp [h.kept, mem_hands.mpr ⟨i, hi⟩]
  rw [h.fifo]
  exact List.mem_append_left _ (by simpa using hmem)

/-- What is never in hand together with `b` and accepted before it is executed
before `b` is taken. -/
theorem executed_first_of_step (h : Inv p) {e : Event n T} (hstep : p.step e = some q)
    {all : List T} (hall : q.accepted <+: all) (hnodup : all.Nodup) (hbefore : Before a b all)
    (hapart : ¬q.Together a b) (hfirst : b ∈ p.taken → a ∈ p.executed) :
    b ∈ q.taken → a ∈ q.executed := by
  have hprefix := (accepted_prefix_of_step hstep).trans hall
  cases takes_of_step hstep with
  | @enqueue t signalled _ =>
      rcases p.enqueue_eq t signalled with heq | ⟨workers, heq⟩ <;> simpa [heq] using hfirst
  | stop =>
      obtain ⟨workers, heq⟩ := p.stop_eq
      simpa [heq] using hfirst
  | lock hi => exact executed_first_taskHandler h hi hprefix hnodup hbefore hapart hfirst
  | spurious _ => exact hfirst
  | relock hi =>
      exact executed_first_taskHandler (h.reacquire hi) (by simp [reacquire]) hprefix hnodup
        hbefore hapart hfirst
  | finish _ => exact fun hb => List.mem_append_left _ (hfirst hb)

end Threadpool

end LinuxAdvance.Pool
