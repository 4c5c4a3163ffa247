import LinuxAdvance.Foundation.Crew
import LinuxAdvance.Foundation.Transition

/-!
# The thread pool: `Threadpool`

Each stretch of `Threadpool.hpp` between taking `_mutex` and giving it up, by
`UnLockQueue` or inside `pthread_cond_wait`, is one step.  The state starts where
`InitThreadPool` has set `_isrunning`; a thread that `Start` has not created yet
is a worker that has not taken its first step.

`accepted`, `taken` and `executed` record what `Enqueue` returned true for, what
left the queue, and what has been run.
-/

namespace LinuxAdvance.Pool

open LinuxAdvance.Foundation

variable {n : Nat} {T : Type}

/-- Where `TaskHandler` is between two steps: on its way to `LockQueue`, asleep
in `pthread_cond_wait`, awake there but still without the mutex, in `t()`, or
returned. -/
inductive Phase (T : Type) where
  | ready
  | blocked
  | woken
  | running (t : T)
  | exited
  deriving DecidableEq, Repr

namespace Phase

def isBlocked : Phase T → Bool
  | blocked => true
  | _ => false

/-- Between `++_waitnum` and `--_waitnum`. -/
def isWaiting : Phase T → Bool
  | blocked => true
  | woken => true
  | _ => false

def isStuck : Phase T → Bool
  | blocked => true
  | exited => true
  | _ => false

def hand : Phase T → Multiset T
  | running t => {t}
  | _ => 0

@[simp] theorem isBlocked_eq_true {φ : Phase T} : φ.isBlocked = true ↔ φ = blocked := by
  cases φ <;> simp [isBlocked]

@[simp] theorem mem_hand {φ : Phase T} {t : T} : t ∈ φ.hand ↔ φ = running t := by
  cases φ <;> simp [hand, eq_comm]

end Phase

structure Threadpool (n : Nat) (T : Type) where
  taskQueue : List T := []
  waitnum : Int := 0
  isrunning : Bool
  workers : Fin n → Phase T
  accepted : List T := []
  taken : List T := []
  executed : List T := []

namespace Threadpool

def initThreadPool (n : Nat) (T : Type) : Threadpool n T where
  isrunning := true
  workers := fun _ => .ready

def setWorker (p : Threadpool n T) (i : Fin n) (φ : Phase T) : Threadpool n T :=
  { p with workers := Function.update p.workers i φ }

def wakeUp (p : Threadpool n T) (signalled : Finset (Fin n)) : Threadpool n T :=
  { p with workers := fun i => if i ∈ signalled then .woken else p.workers i }

def wakeUpAll (p : Threadpool n T) : Threadpool n T :=
  p.wakeUp (Finset.univ.filter fun i => (p.workers i).isBlocked)

/-- Whom a signal may wake: some of those asleep, and at least one if there is one. -/
def MaySignal (p : Threadpool n T) (signalled : Finset (Fin n)) : Prop :=
  (∀ i ∈ signalled, (p.workers i).isBlocked) ∧
    ((∃ i, (p.workers i).isBlocked) → signalled.Nonempty)

instance (p : Threadpool n T) (signalled : Finset (Fin n)) :
    Decidable (p.MaySignal signalled) :=
  inferInstanceAs (Decidable (_ ∧ _))

def enqueue (p : Threadpool n T) (t : T) (signalled : Finset (Fin n)) :
    Bool × Threadpool n T :=
  if p.isrunning then
    let q := { p with taskQueue := p.taskQueue ++ [t] }
    (true, if 0 < q.waitnum then q.wakeUp signalled else q)
  else (false, p)

def accept (t : T) : Bool × Threadpool n T → Threadpool n T
  | (true, p) => { p with accepted := p.accepted ++ [t] }
  | (false, p) => p

def stop (p : Threadpool n T) : Threadpool n T :=
  let q := { p with isrunning := false }
  if 0 < q.waitnum then q.wakeUpAll else q

/-- `TaskHandler` with the mutex in hand, from the test of its inner loop to the
place where it gives the mutex up. -/
def taskHandler (p : Threadpool n T) (i : Fin n) : Threadpool n T :=
  match p.taskQueue, p.isrunning with
  | [], true => { p with waitnum := p.waitnum + 1 }.setWorker i .blocked
  | [], false => p.setWorker i .exited
  | t :: rest, _ =>
      { p with taskQueue := rest, taken := p.taken ++ [t] }.setWorker i (.running t)

/-- `pthread_cond_wait` returns: back to the test, with one waiter less. -/
def reacquire (p : Threadpool n T) (i : Fin n) : Threadpool n T :=
  { p with waitnum := p.waitnum - 1 }.setWorker i .ready

def finish (p : Threadpool n T) (i : Fin n) (t : T) : Threadpool n T :=
  { p with executed := p.executed ++ [t] }.setWorker i .ready

inductive Event (n : Nat) (T : Type) where
  | enqueue (t : T) (signalled : Finset (Fin n))
  | stop
  | lock (i : Fin n)
  | spurious (i : Fin n)
  | relock (i : Fin n)
  | finish (i : Fin n)

def step (p : Threadpool n T) : Event n T → Option (Threadpool n T)
  | .enqueue t signalled =>
      if p.MaySignal signalled then some (accept t (p.enqueue t signalled)) else none
  | .stop => some p.stop
  | .lock i =>
      match p.workers i with
      | .ready => some (p.taskHandler i)
      | _ => none
  | .spurious i =>
      match p.workers i with
      | .blocked => some (p.setWorker i .woken)
      | _ => none
  | .relock i =>
      match p.workers i with
      | .woken => some ((p.reacquire i).taskHandler i)
      | _ => none
  | .finish i =>
      match p.workers i with
      | .running t => some (p.finish i t)
      | _ => none

inductive Takes (p : Threadpool n T) : Event n T → Threadpool n T → Prop
  | enqueue {t : T} {signalled : Finset (Fin n)} (h : p.MaySignal signalled) :
      Takes p (.enqueue t signalled) (accept t (p.enqueue t signalled))
  | stop : Takes p .stop p.stop
  | lock {i : Fin n} (h : p.workers i = .ready) : Takes p (.lock i) (p.taskHandler i)
  | spurious {i : Fin n} (h : p.workers i = .blocked) :
      Takes p (.spurious i) (p.setWorker i .woken)
  | relock {i : Fin n} (h : p.workers i = .woken) :
      Takes p (.relock i) ((p.reacquire i).taskHandler i)
  | finish {i : Fin n} {t : T} (h : p.workers i = .running t) :
      Takes p (.finish i) (p.finish i t)

theorem takes_of_step {p q : Threadpool n T} {e : Event n T} (h : p.step e = some q) :
    Takes p e q := by
  cases e with
  | stop =>
      simp only [step, Option.some.injEq] at h
      exact h ▸ .stop
  | enqueue t signalled =>
      simp only [step] at h
      split at h
      · next hsignal =>
          simp only [Option.some.injEq] at h
          exact h ▸ .enqueue hsignal
      · simp at h
  | lock i | spurious i | relock i | finish i =>
      simp only [step] at h
      split at h
      · next hi =>
          simp only [Option.some.injEq] at h
          subst h
          constructor
          exact hi
      · simp at h

def hands (p : Threadpool n T) : Multiset T := Crew.total Phase.hand p.workers

def waiting (p : Threadpool n T) : Finset (Fin n) :=
  Finset.univ.filter fun i => (p.workers i).isWaiting

@[simp] theorem mem_waiting {p : Threadpool n T} {i : Fin n} :
    i ∈ p.waiting ↔ (p.workers i).isWaiting = true := by
  unfold waiting
  simp

theorem mem_hands {p : Threadpool n T} {t : T} :
    t ∈ p.hands ↔ ∃ i, p.workers i = .running t := by
  simp [hands, Crew.mem_total]

@[simp] theorem wakeUp_workers (p : Threadpool n T) (signalled : Finset (Fin n))
    (i : Fin n) :
    (p.wakeUp signalled).workers i = if i ∈ signalled then .woken else p.workers i := rfl

/-! ## What setting one worker's phase leaves alone -/

section SetWorker

variable (p : Threadpool n T) (i : Fin n) (φ : Phase T)

@[simp] theorem setWorker_taskQueue : (p.setWorker i φ).taskQueue = p.taskQueue := rfl

@[simp] theorem setWorker_waitnum : (p.setWorker i φ).waitnum = p.waitnum := rfl

@[simp] theorem setWorker_isrunning : (p.setWorker i φ).isrunning = p.isrunning := rfl

@[simp] theorem setWorker_accepted : (p.setWorker i φ).accepted = p.accepted := rfl

@[simp] theorem setWorker_taken : (p.setWorker i φ).taken = p.taken := rfl

@[simp] theorem setWorker_executed : (p.setWorker i φ).executed = p.executed := rfl

@[simp] theorem setWorker_self : (p.setWorker i φ).workers i = φ := by
  simp [setWorker]

theorem setWorker_of_ne {j : Fin n} (hj : j ≠ i) :
    (p.setWorker i φ).workers j = p.workers j := by
  simp [setWorker, hj]

theorem waiting_setWorker :
    (p.setWorker i φ).waiting =
      if φ.isWaiting then insert i p.waiting else p.waiting.erase i := by
  ext j
  by_cases hj : j = i
  · subst hj
    split <;> simp_all
  · split <;> simp [hj, setWorker_of_ne]

theorem hands_setWorker :
    (p.setWorker i φ).hands + (p.workers i).hand = p.hands + φ.hand :=
  Crew.total_update Phase.hand p.workers i φ

end SetWorker

/-! ## What the other steps leave alone -/

section Fields

variable (p : Threadpool n T)

theorem enqueue_eq (t : T) (signalled : Finset (Fin n)) :
    accept t (p.enqueue t signalled) = p ∨ ∃ workers,
      accept t (p.enqueue t signalled) =
        { p with taskQueue := p.taskQueue ++ [t], accepted := p.accepted ++ [t], workers } := by
  unfold enqueue
  split
  · simp only [accept]
    split <;> exact .inr ⟨_, rfl⟩
  · exact .inl rfl

theorem stop_eq : ∃ workers, p.stop = { p with isrunning := false, workers } := by
  unfold stop
  simp only
  split <;> exact ⟨_, rfl⟩

@[simp] theorem taskHandler_isrunning (i : Fin n) :
    (p.taskHandler i).isrunning = p.isrunning := by
  unfold taskHandler
  split <;> rfl

@[simp] theorem taskHandler_accepted (i : Fin n) :
    (p.taskHandler i).accepted = p.accepted := by
  unfold taskHandler
  split <;> rfl

@[simp] theorem taskHandler_executed (i : Fin n) :
    (p.taskHandler i).executed = p.executed := by
  unfold taskHandler
  split <;> rfl

end Fields

/-! ## The invariant, step by step -/

structure Inv (p : Threadpool n T) : Prop where
  fifo : p.accepted = p.taken ++ p.taskQueue
  kept : (p.taken : Multiset T) = p.hands + p.executed
  counted : p.waitnum = p.waiting.card
  awake : p.taskQueue ≠ [] → ∃ i, (p.workers i).isStuck = false
  roused : p.isrunning = false → ∀ i, p.workers i ≠ .blocked
  drained : ∀ i, p.workers i = .exited → p.isrunning = false ∧ p.taskQueue = []

theorem inv_initThreadPool (n : Nat) (T : Type) : Inv (initThreadPool n T) where
  fifo := rfl
  kept := by simp [initThreadPool, hands, Crew.total, Phase.hand]
  counted := by simp [initThreadPool, waiting, Phase.isWaiting]
  awake := by simp [initThreadPool]
  roused := by simp [initThreadPool]
  drained := by simp [initThreadPool]

theorem hands_setWorker_of_empty {p : Threadpool n T} {i : Fin n} {φ : Phase T}
    (hold : (p.workers i).hand = 0) (hnew : φ.hand = 0) :
    (p.setWorker i φ).hands = p.hands := by
  have h := hands_setWorker p i φ
  rwa [hold, hnew, add_zero, add_zero] at h

theorem exists_awake_setWorker {p : Threadpool n T} (i : Fin n) {φ : Phase T}
    (hφ : φ.isStuck = false) : ∃ j, ((p.setWorker i φ).workers j).isStuck = false :=
  ⟨i, by simpa [setWorker] using hφ⟩

theorem Inv.roused_setWorker {p : Threadpool n T} (h : Inv p) {i : Fin n} {φ : Phase T}
    (hφ : φ ≠ .blocked) (hstopped : p.isrunning = false) (j : Fin n) :
    (p.setWorker i φ).workers j ≠ .blocked := by
  by_cases hji : j = i
  · simpa [hji] using hφ
  · simpa [setWorker_of_ne, hji] using h.roused hstopped j

theorem Inv.drained_setWorker {p : Threadpool n T} (h : Inv p) {i : Fin n} {φ : Phase T}
    (hφ : φ ≠ .exited) {j : Fin n} (hj : (p.setWorker i φ).workers j = .exited) :
    p.isrunning = false ∧ p.taskQueue = [] := by
  by_cases hji : j = i
  · simp [hji, hφ] at hj
  · exact h.drained j (by simpa [setWorker_of_ne, hji] using hj)

section TaskHandler

variable {p : Threadpool n T} (h : Inv p) {i : Fin n} (hi : p.workers i = .ready)

include h hi

theorem Inv.sleep (hqueue : p.taskQueue = []) (hrunning : p.isrunning = true) :
    Inv ({ p with waitnum := p.waitnum + 1 }.setWorker i .blocked) where
  fifo := h.fifo
  kept := by
    have hhand : (p.workers i).hand = 0 := by simp [hi, Phase.hand]
    have hhands := hands_setWorker_of_empty (φ := .blocked) hhand rfl
    exact hhands ▸ h.kept
  counted := by
    have hwaiting : i ∉ p.waiting := by simp [hi, Phase.isWaiting]
    have hset := waiting_setWorker p i .blocked
    simp only [Phase.isWaiting, if_true] at hset
    change p.waitnum + 1 = ((p.setWorker i .blocked).waiting.card : Int)
    rw [hset, Finset.card_insert_of_notMem hwaiting, h.counted]
    simp
  awake := by simp [setWorker, hqueue]
  roused := by simp [setWorker, hrunning]
  drained := fun _ hj => h.drained_setWorker (by simp) hj

theorem Inv.exit (hqueue : p.taskQueue = []) (hstopped : p.isrunning = false) :
    Inv (p.setWorker i .exited) where
  fifo := h.fifo
  kept := by
    have hhand : (p.workers i).hand = 0 := by simp [hi, Phase.hand]
    have hhands := hands_setWorker_of_empty (φ := .exited) hhand rfl
    exact hhands ▸ h.kept
  counted := by
    rw [waiting_setWorker]
    simpa [Phase.isWaiting, hi] using h.counted
  awake := by simp [setWorker, hqueue]
  roused := fun _ => h.roused_setWorker (by simp) hstopped
  drained := fun _ _ => ⟨hstopped, hqueue⟩

theorem Inv.take {t : T} {rest : List T} (hqueue : p.taskQueue = t :: rest) :
    Inv ({ p with taskQueue := rest, taken := p.taken ++ [t] }.setWorker i
      (.running t)) where
  fifo := by simpa [setWorker, hqueue] using h.fifo
  kept := by
    have hhand : (p.workers i).hand = 0 := by simp [hi, Phase.hand]
    have hhands := hands_setWorker p i (.running t)
    rw [hhand, add_zero] at hhands
    change ((p.taken ++ [t] : List T) : Multiset T) =
      (p.setWorker i (.running t)).hands + p.executed
    rw [hhands, ← Multiset.coe_add, h.kept]
    simp [Phase.hand, add_right_comm]
  counted := by
    have hwaiting : i ∉ p.waiting := by simp [hi, Phase.isWaiting]
    have hset := waiting_setWorker p i (.running t)
    simp only [Phase.isWaiting, Bool.false_eq_true, if_false,
      Finset.erase_eq_of_notMem hwaiting] at hset
    change p.waitnum = ((p.setWorker i (.running t)).waiting.card : Int)
    rw [hset]
    exact h.counted
  awake := fun _ => exists_awake_setWorker i rfl
  roused := h.roused_setWorker (by simp)
  drained := by
    intro j hj
    have hempty := (h.drained_setWorker (by simp) hj).2
    simp [hqueue] at hempty

theorem Inv.taskHandler : Inv (p.taskHandler i) := by
  unfold Threadpool.taskHandler
  split
  · next hqueue hrunning => exact h.sleep hi hqueue hrunning
  · next hqueue hstopped => exact h.exit hi hqueue hstopped
  · next hqueue => exact h.take hi hqueue

end TaskHandler

theorem Inv.reacquire {p : Threadpool n T} (h : Inv p) {i : Fin n}
    (hi : p.workers i = .woken) : Inv (p.reacquire i) := by
  have hwaiting : i ∈ p.waiting := by simp [hi, Phase.isWaiting]
  constructor
  · exact h.fifo
  · have hhands := hands_setWorker_of_empty (p := p) (i := i) (φ := .ready)
      (by simp [hi, Phase.hand]) rfl
    exact hhands ▸ h.kept
  · have hset := waiting_setWorker p i .ready
    simp only [Phase.isWaiting, Bool.false_eq_true, if_false] at hset
    change p.waitnum - 1 = ((p.setWorker i .ready).waiting.card : Int)
    have hcard := Finset.card_erase_add_one hwaiting
    rw [hset, h.counted]
    omega
  · intro _
    exact exists_awake_setWorker i rfl
  · exact h.roused_setWorker (by simp)
  · intro j hj
    exact h.drained_setWorker (by simp) hj

theorem Inv.finish {p : Threadpool n T} (h : Inv p) {i : Fin n} {t : T}
    (hi : p.workers i = .running t) : Inv (p.finish i t) := by
  have hwaiting : i ∉ p.waiting := by simp [hi, Phase.isWaiting]
  constructor
  · exact h.fifo
  · have hhands := hands_setWorker p i .ready
    rw [hi] at hhands
    change (p.taken : Multiset T) =
      (p.setWorker i .ready).hands + ((p.executed ++ [t] : List T) : Multiset T)
    rw [h.kept, ← add_zero p.hands, show (0 : Multiset T) = Phase.ready.hand from rfl,
      ← hhands, ← Multiset.coe_add]
    simp [Phase.hand, add_assoc, add_comm]
  · have hset := waiting_setWorker p i .ready
    simp only [Phase.isWaiting, Bool.false_eq_true, if_false,
      Finset.erase_eq_of_notMem hwaiting] at hset
    change p.waitnum = ((p.setWorker i .ready).waiting.card : Int)
    rw [hset]
    exact h.counted
  · intro _
    exact exists_awake_setWorker i rfl
  · exact h.roused_setWorker (by simp)
  · intro j hj
    exact h.drained_setWorker (by simp) hj

/-- Waking sleepers changes no count: they stay waiting until they have the mutex. -/
theorem Inv.wakeUp {p : Threadpool n T} (h : Inv p) {signalled : Finset (Fin n)}
    (hblocked : ∀ i ∈ signalled, p.workers i = .blocked) : Inv (p.wakeUp signalled) := by
  have hshare : ∀ {α : Type} (f : Phase T → α), f .blocked = f .woken →
      ∀ i, f ((p.wakeUp signalled).workers i) = f (p.workers i) := by
    intro α f hf i
    by_cases hi : i ∈ signalled
    · simp [hi, hblocked i hi, hf]
    · simp [hi]
  constructor
  · exact h.fifo
  · have hhands : (p.wakeUp signalled).hands = p.hands :=
      Crew.total_congr (hshare Phase.hand rfl)
    exact hhands ▸ h.kept
  · have hset : (p.wakeUp signalled).waiting = p.waiting := by
      ext i
      rw [mem_waiting, mem_waiting, hshare Phase.isWaiting rfl i]
    exact hset ▸ h.counted
  · intro hqueue
    obtain ⟨i, hi⟩ := h.awake hqueue
    refine ⟨i, ?_⟩
    simp only [wakeUp_workers]
    split
    · rfl
    · exact hi
  · intro hstopped i
    simp only [wakeUp_workers]
    split
    · simp
    · exact h.roused hstopped i
  · intro i hi
    simp only [wakeUp_workers] at hi
    split at hi
    · simp at hi
    · exact h.drained i hi

theorem not_blocked_of_waitnum {p : Threadpool n T} (h : Inv p) (hw : ¬0 < p.waitnum)
    (i : Fin n) : (p.workers i).isWaiting = false := by
  have hempty : p.waiting = ∅ := by
    have := h.counted
    rw [← Finset.card_eq_zero]
    omega
  by_contra hi
  have hmem : i ∈ p.waiting := by simpa using hi
  simp [hempty] at hmem

/-- A new task needs somebody who will look at the queue again. -/
theorem Inv.push {p : Threadpool n T} (h : Inv p) (t : T) (hrunning : p.isrunning = true)
    (hawake : ∃ i, (p.workers i).isStuck = false) :
    Inv { p with taskQueue := p.taskQueue ++ [t], accepted := p.accepted ++ [t] } where
  fifo := by simp [h.fifo]
  kept := h.kept
  counted := h.counted
  awake := fun _ => hawake
  roused := h.roused
  drained := by
    intro i hi
    have := (h.drained i hi).1
    simp [hrunning] at this

theorem Inv.enqueue {p : Threadpool n T} (h : Inv p) (hn : 0 < n) (t : T)
    {signalled : Finset (Fin n)} (hsignal : p.MaySignal signalled) :
    Inv (accept t (p.enqueue t signalled)) := by
  unfold Threadpool.enqueue
  split
  · next hrunning =>
      have hexited : ∀ i, p.workers i ≠ .exited := by
        intro i hi
        simp [(h.drained i hi).1] at hrunning
      simp only
      split
      · next hwaitnum =>
          -- whoever is counted in `_waitnum` is awake already, or one of those
          -- asleep is woken now
          have hblocked : ∀ i ∈ signalled, p.workers i = .blocked := by
            intro i hi
            simpa using hsignal.1 i hi
          have hcard : 0 < p.waiting.card := by
            have := h.counted
            omega
          obtain ⟨i, hi⟩ := Finset.card_pos.mp hcard
          rw [mem_waiting] at hi
          have hawake : ∃ j, ((p.wakeUp signalled).workers j).isStuck = false := by
            by_cases hsleep : ∃ j, (p.workers j).isBlocked
            · obtain ⟨j, hj⟩ := hsignal.2 hsleep
              exact ⟨j, by simp [hj, Phase.isStuck]⟩
            · refine ⟨i, ?_⟩
              have hwoken : p.workers i = .woken := by
                cases hphase : p.workers i <;> simp_all [Phase.isWaiting]
              simp only [wakeUp_workers, hwoken]
              split <;> rfl
          exact (h.wakeUp hblocked).push t hrunning hawake
      · next hwaitnum =>
          have hi := not_blocked_of_waitnum h hwaitnum ⟨0, hn⟩
          refine h.push t hrunning ⟨⟨0, hn⟩, ?_⟩
          cases hphase : p.workers ⟨0, hn⟩ <;> simp_all [Phase.isStuck, Phase.isWaiting]
  · exact h

theorem Inv.halt {p : Threadpool n T} (h : Inv p) (hnone : ∀ i, p.workers i ≠ .blocked) :
    Inv { p with isrunning := false } where
  fifo := h.fifo
  kept := h.kept
  counted := h.counted
  awake := h.awake
  roused := fun _ => hnone
  drained := fun i hi => ⟨rfl, (h.drained i hi).2⟩

theorem Inv.stop {p : Threadpool n T} (h : Inv p) : Inv p.stop := by
  unfold Threadpool.stop
  simp only
  split
  · have hall : Inv p.wakeUpAll := h.wakeUp (by simp)
    apply hall.halt
    intro i
    simp only [wakeUpAll, wakeUp_workers]
    split
    · simp
    · next hi => simpa using hi
  · next hwaitnum =>
      apply h.halt
      intro i hi
      have hwaiting := not_blocked_of_waitnum h hwaitnum i
      simp [hi, Phase.isWaiting] at hwaiting

theorem Inv.spurious {p : Threadpool n T} (h : Inv p) {i : Fin n}
    (hi : p.workers i = .blocked) : Inv (p.setWorker i .woken) := by
  have hwake : p.setWorker i .woken = p.wakeUp {i} := by
    simp only [setWorker, Threadpool.wakeUp, Finset.mem_singleton]
    congr 1
    funext j
    simp [Function.update_apply]
  rw [hwake]
  exact h.wakeUp (by simp [hi])

theorem inv_of_step (hn : 0 < n) (p : Threadpool n T) (e : Event n T) (q : Threadpool n T)
    (hstep : p.step e = some q) (h : Inv p) : Inv q := by
  cases takes_of_step hstep with
  | enqueue hsignal => exact h.enqueue hn _ hsignal
  | stop => exact h.stop
  | lock hi => exact h.taskHandler hi
  | spurious hi => exact h.spurious hi
  | relock hi => exact (h.reacquire hi).taskHandler (by simp [reacquire])
  | finish hi => exact h.finish hi

theorem inv_of_run (hn : 0 < n) {es : List (Event n T)} {p : Threadpool n T}
    (h : Transition.run step (initThreadPool n T) es = some p) : Inv p :=
  Transition.keeps (inv_of_step hn) h (inv_initThreadPool n T)

theorem stopped_of_step (p : Threadpool n T) (e : Event n T) (q : Threadpool n T)
    (hstep : p.step e = some q) (h : p.isrunning = false) : q.isrunning = false := by
  cases takes_of_step hstep with
  | @enqueue t signalled _ =>
      rcases p.enqueue_eq t signalled with heq | ⟨workers, heq⟩ <;> simp [heq, h]
  | stop =>
      obtain ⟨workers, heq⟩ := p.stop_eq
      simp [heq]
  | lock _ => simp [h]
  | spurious _ => exact h
  | relock _ => simp [reacquire, h]
  | finish _ => exact h

theorem stopped_of_run {p q : Threadpool n T} {es : List (Event n T)}
    (h : Transition.run step p es = some q) (hstopped : p.isrunning = false) :
    q.isrunning = false :=
  Transition.keeps stopped_of_step h hstopped

end Threadpool

end LinuxAdvance.Pool
