import LinuxAdvance.Pool.Threadpool

/-!
# The pool finishes what it accepted

A step of a worker takes it from a queued task to sleep, or to its return, by a
bounded number of steps; only `Enqueue`, `Stop` and spurious wake-ups make new
work.  Left alone, the workers come to rest, and they rest only when every task
that was accepted has been run.
-/

namespace LinuxAdvance.Pool

open LinuxAdvance.Foundation

variable {n : Nat} {T : Type}

/-- How many steps a worker may still take before it sleeps, the tasks that are
queued apart. -/
def Phase.effort : Phase T → Nat
  | blocked => 0
  | exited => 0
  | ready => 1
  | woken => 1
  | running _ => 2

namespace Threadpool

def Event.OfWorker : Event n T → Prop
  | .lock _ => True
  | .relock _ => True
  | .finish _ => True
  | _ => False

/-- A queued task costs the step that takes it and the one that finishes it. -/
def pending (p : Threadpool n T) : Nat :=
  2 * p.taskQueue.length + Crew.total Phase.effort p.workers

theorem pending_setWorker {p : Threadpool n T} {i : Fin n} {φ : Phase T}
    (hi : p.workers i = φ) (ψ : Phase T) :
    (p.setWorker i ψ).pending + φ.effort = p.pending + ψ.effort := by
  have htotal := Crew.total_update Phase.effort p.workers i ψ
  rw [hi] at htotal
  simp only [pending, setWorker]
  omega

theorem pending_taskHandler {p : Threadpool n T} {i : Fin n} (hi : p.workers i = .ready) :
    (p.taskHandler i).pending < p.pending := by
  unfold taskHandler
  split
  · have hsleep : ({ p with waitnum := p.waitnum + 1 }.setWorker i .blocked).pending + 1 =
        p.pending + 0 := pending_setWorker hi .blocked
    omega
  · have hexit : (p.setWorker i .exited).pending + 1 = p.pending + 0 :=
      pending_setWorker hi .exited
    omega
  · next t rest hqueue =>
      have hsplit : pending { p with taskQueue := rest, taken := p.taken ++ [t] } + 2 =
          p.pending := by
        simp only [pending, hqueue, List.length_cons]
        omega
      have hready : Threadpool.workers
          { p with taskQueue := rest, taken := p.taken ++ [t] } i = .ready := hi
      have htake := pending_setWorker hready (.running t)
      simp only [Phase.effort] at htake
      omega

theorem pending_reacquire {p : Threadpool n T} {i : Fin n} (hi : p.workers i = .woken) :
    (p.reacquire i).pending = p.pending := by
  have hwake : (p.reacquire i).pending + 1 = p.pending + 1 := pending_setWorker hi .ready
  omega

theorem pending_finish {p : Threadpool n T} {i : Fin n} {t : T}
    (hi : p.workers i = .running t) : (p.finish i t).pending < p.pending := by
  have hdone : (p.finish i t).pending + 2 = p.pending + 1 := pending_setWorker hi .ready
  omega

theorem pending_of_step (p : Threadpool n T) (e : Event n T) (q : Threadpool n T)
    (he : e.OfWorker) (hstep : p.step e = some q) : q.pending < p.pending := by
  cases takes_of_step hstep with
  | enqueue _ | stop | spurious _ => exact he.elim
  | lock hi => exact pending_taskHandler hi
  | relock hi => exact pending_reacquire hi ▸ pending_taskHandler (by simp [reacquire])
  | finish hi => exact pending_finish hi

/-! ## What the workers leave alone -/

theorem accepted_of_worker {p q : Threadpool n T} {e : Event n T} (he : e.OfWorker)
    (hstep : p.step e = some q) :
    q.accepted = p.accepted ∧ q.isrunning = p.isrunning := by
  cases takes_of_step hstep with
  | enqueue _ | stop | spurious _ => exact he.elim
  | lock _ => simp
  | relock _ => simp [reacquire]
  | finish _ => exact ⟨rfl, rfl⟩

theorem accepted_of_workers {p q : Threadpool n T} {es : List (Event n T)}
    (hes : ∀ e ∈ es, e.OfWorker) (hrun : Transition.run step p es = some q) :
    q.accepted = p.accepted ∧ q.isrunning = p.isrunning := by
  induction es generalizing p with
  | nil =>
      simp at hrun
      simp [hrun]
  | cons e es ih =>
      simp only [Transition.run_cons, Option.bind_eq_some_iff] at hrun
      obtain ⟨r, hstep, hrun⟩ := hrun
      obtain ⟨haccepted, hrunning⟩ := accepted_of_worker (hes e List.mem_cons_self) hstep
      obtain ⟨haccepted', hrunning'⟩ :=
        ih (fun f hf => hes f (List.mem_cons_of_mem e hf)) hrun
      exact ⟨haccepted'.trans haccepted, hrunning'.trans hrunning⟩

/-! ## Where they rest -/

def AtRest (p : Threadpool n T) : Prop := ∀ e : Event n T, e.OfWorker → p.step e = none

theorem isStuck_of_atRest {p : Threadpool n T} (h : p.AtRest) (i : Fin n) :
    (p.workers i).isStuck = true := by
  cases hi : p.workers i with
  | blocked | exited => rfl
  | ready => exact absurd (h (.lock i) trivial) (by simp [step, hi])
  | woken => exact absurd (h (.relock i) trivial) (by simp [step, hi])
  | running t => exact absurd (h (.finish i) trivial) (by simp [step, hi])

/-- Everything accepted has been run; after `Stop` every worker has returned, and
before it every worker sleeps. -/
structure Finished (p : Threadpool n T) : Prop where
  taskQueue : p.taskQueue = []
  taken : p.taken = p.accepted
  executed : p.executed.Perm p.accepted
  workers : ∀ i, p.workers i = if p.isrunning then .blocked else .exited

theorem Inv.finished {p : Threadpool n T} (h : Inv p) (hrest : p.AtRest) : Finished p := by
  have hstuck := isStuck_of_atRest hrest
  have hqueue : p.taskQueue = [] := by
    by_contra hne
    obtain ⟨i, hi⟩ := h.awake hne
    simp [hstuck i] at hi
  have hhands : p.hands = 0 := by
    refine Crew.total_eq_zero fun i => ?_
    have hi := hstuck i
    cases hphase : p.workers i <;> simp_all [Phase.isStuck, Phase.hand]
  have htaken : p.accepted = p.taken := by simpa [hqueue] using h.fifo
  have hkept := h.kept
  rw [hhands, zero_add, ← htaken] at hkept
  refine ⟨hqueue, htaken.symm, (Multiset.coe_eq_coe.mp hkept).symm, fun i => ?_⟩
  have hi := hstuck i
  cases hphase : p.workers i with
  | ready | woken | running t => simp [hphase, Phase.isStuck] at hi
  | blocked =>
      have hrunning : p.isrunning ≠ false := fun hstopped => h.roused hstopped i hphase
      simp [hrunning]
  | exited => simp [(h.drained i hphase).1]

/-- From any state of a run the workers take no more than `pending` steps by
themselves, and where they can take no more, everything accepted has been run. -/
theorem finished_of_workers (hn : 0 < n) {es : List (Event n T)} {p : Threadpool n T}
    (h : Transition.run step (initThreadPool n T) es = some p) :
    (∀ fs q, (∀ e ∈ fs, e.OfWorker) → Transition.run step p fs = some q →
      fs.length + q.pending ≤ p.pending ∧ (q.AtRest → Finished q ∧ q.accepted = p.accepted)) ∧
    ∃ fs q, (∀ e ∈ fs, e.OfWorker) ∧ Transition.run step p fs = some q ∧ q.AtRest := by
  refine ⟨fun fs q hfs hrun => ⟨?_, fun hrest => ⟨?_, (accepted_of_workers hfs hrun).1⟩⟩, ?_⟩
  · exact Transition.length_add_le pending_of_step hrun hfs
  · have hall : Transition.run step (initThreadPool n T) (es ++ fs) = some q :=
      Transition.run_append_eq_some.mpr ⟨p, h, hrun⟩
    exact (inv_of_run hn hall).finished hrest
  · exact Transition.exists_run_to_rest pending_of_step p

theorem finished_of_workers_two : ∃ p q, Transition.run step (initThreadPool 1 Nat)
      [.enqueue 7 ∅, .enqueue 8 ∅, .lock 0, .stop] = some p ∧
    Transition.run step p [.finish 0, .lock 0, .finish 0, .lock 0] = some q ∧
    q.executed = [7, 8] ∧ 4 + q.pending ≤ p.pending := by
  have hrun : Transition.run step (initThreadPool 1 Nat)
      [.enqueue 7 ∅, .enqueue 8 ∅, .lock 0, .stop] = some _ := rfl
  have hworkers : ∀ e ∈ ([.finish 0, .lock 0, .finish 0, .lock 0] : List (Event 1 Nat)),
      e.OfWorker := by simp [Event.OfWorker]
  exact ⟨_, _, hrun, rfl, rfl, ((finished_of_workers (by decide) hrun).1 _ _ hworkers rfl).1⟩

end Threadpool

end LinuxAdvance.Pool
