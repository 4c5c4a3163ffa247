import LinuxAdvance.Pool.Order

/-!
# The pool made on demand: `GetInstance`

Any number of threads run `GetInstance()->Enqueue(t)`, each as often as it likes,
and nobody calls `Stop`.  Each test of `_instance`, taking and giving up `_lock`,
`new` with the assignment to `_instance`, `InitThreadPool`, each call of
`thread.Start()` and `Enqueue` are steps of their own.  Between them the threads
of the pool that have been started take theirs.
-/

namespace LinuxAdvance.Pool

open LinuxAdvance.Foundation

variable {n : Nat} {T ι : Type}

/-- The object `_instance` points to.  `_threads` has `threads` elements, and
`Start` has come past the first `started` of them. -/
structure Instance (n : Nat) (T : Type) where
  pool : Threadpool n T
  threads : Nat := 0
  started : Nat := 0

namespace Instance

def new (n : Nat) (T : Type) : Instance n T where
  pool := { isrunning := false, workers := fun _ => .ready }

def initThreadPool (o : Instance n T) : Instance n T :=
  { o with threads := o.threads + n, pool := { o.pool with isrunning := true } }

def startNext (o : Instance n T) : Instance n T :=
  { o with started := o.started + 1 }

end Instance

/-- Where a thread is between two steps, with the task it has for the pool: not in
`GetInstance`, past the first test and on its way to `_lock`, holding it before the
second test, before `new`, before `InitThreadPool`, in the loop of `Start`, about to
give the lock up after the second test has failed, or on its way into `Enqueue`. -/
inductive Caller (T : Type) where
  | outside
  | wants (t : T)
  | locked (t : T)
  | creating (t : T)
  | published (t : T)
  | starting (t : T)
  | leaving (t : T)
  | entered (t : T)
  deriving DecidableEq, Repr

def Caller.holds : Caller T → Bool
  | locked _ => true
  | creating _ => true
  | published _ => true
  | starting _ => true
  | leaving _ => true
  | _ => false

/-- A call of `Enqueue` and what it returned, `none` on a null pointer. -/
structure Call (T ι : Type) where
  caller : ι
  task : T
  result : Option Bool
  deriving DecidableEq, Repr

def Threadpool.Event.worker? : Threadpool.Event n T → Option (Fin n)
  | .lock i => some i
  | .spurious i => some i
  | .relock i => some i
  | .finish i => some i
  | _ => none

structure Process (n : Nat) (T ι : Type) where
  instance? : Option (Instance n T) := none
  lock : Option ι := none
  callers : ι → Caller T := fun _ => .outside
  constructed : Nat := 0
  returned : List (Call T ι) := []

namespace Process

inductive Event (n : Nat) (T ι : Type) where
  | check (i : ι) (t : T)
  | lock (i : ι)
  | recheck (i : ι)
  | publish (i : ι)
  | init (i : ι)
  | start (i : ι)
  | unlock (i : ι)
  | enqueue (i : ι) (signalled : Finset (Fin n))
  | work (e : Threadpool.Event n T)

namespace Event

def isInit : Event n T ι → Bool
  | init _ => true
  | _ => false

def isEnqueue : Event n T ι → Bool
  | enqueue _ _ => true
  | _ => false

end Event

def initial (n : Nat) (T ι : Type) : Process n T ι := {}

variable [DecidableEq ι]

def moveTo (s : Process n T ι) (i : ι) (c : Caller T) : Process n T ι :=
  { s with callers := Function.update s.callers i c }

def setInstance (s : Process n T ι) (o : Instance n T) : Process n T ι :=
  { s with instance? := some o }

def record (s : Process n T ι) (call : Call T ι) : Process n T ι :=
  { s with returned := s.returned ++ [call] }

/-- `_instance` is read again for the call of `Enqueue`. -/
def enqueue (s : Process n T ι) (i : ι) (t : T) (signalled : Finset (Fin n)) :
    Option (Process n T ι) :=
  match s.instance? with
  | none => some ((s.record ⟨i, t, none⟩).moveTo i .outside)
  | some o =>
      if o.pool.MaySignal signalled then
        let result := o.pool.enqueue t signalled
        some (((s.setInstance { o with pool := Threadpool.accept t result }).record
          ⟨i, t, some result.1⟩).moveTo i .outside)
      else none

def step (s : Process n T ι) : Event n T ι → Option (Process n T ι)
  | .check i t =>
      match s.callers i with
      | .outside => some (s.moveTo i (if s.instance?.isNone then .wants t else .entered t))
      | _ => none
  | .lock i =>
      match s.callers i, s.lock with
      | .wants t, none => some ({ s with lock := some i }.moveTo i (.locked t))
      | _, _ => none
  | .recheck i =>
      match s.callers i with
      | .locked t => some (s.moveTo i (if s.instance?.isNone then .creating t else .leaving t))
      | _ => none
  | .publish i =>
      match s.callers i with
      | .creating t =>
          let s := { s with constructed := s.constructed + 1 }
          some ((s.setInstance (.new n T)).moveTo i (.published t))
      | _ => none
  | .init i =>
      match s.callers i, s.instance? with
      | .published t, some o =>
          some ((s.setInstance o.initThreadPool).moveTo i (.starting t))
      | _, _ => none
  | .start i =>
      match s.callers i, s.instance? with
      | .starting _, some o =>
          if o.started < o.threads then some (s.setInstance o.startNext) else none
      | _, _ => none
  | .unlock i =>
      match s.callers i, s.instance? with
      | .starting t, some o =>
          if o.started < o.threads then none
          else some ({ s with lock := none }.moveTo i (.entered t))
      | .leaving t, _ => some ({ s with lock := none }.moveTo i (.entered t))
      | _, _ => none
  | .enqueue i signalled =>
      match s.callers i with
      | .entered t => s.enqueue i t signalled
      | _ => none
  | .work e =>
      match s.instance?, e.worker? with
      | some o, some k =>
          if k < o.started then
            (o.pool.step e).map fun pool => s.setInstance { o with pool }
          else none
      | _, _ => none

inductive Moves (s : Process n T ι) : Event n T ι → Process n T ι → Prop
  | check {i : ι} {t : T} (hi : s.callers i = .outside) :
      Moves s (.check i t)
        (s.moveTo i (if s.instance?.isNone then .wants t else .entered t))
  | lock {i : ι} {t : T} (hi : s.callers i = .wants t) (hfree : s.lock = none) :
      Moves s (.lock i) ({ s with lock := some i }.moveTo i (.locked t))
  | recheck {i : ι} {t : T} (hi : s.callers i = .locked t) :
      Moves s (.recheck i)
        (s.moveTo i (if s.instance?.isNone then .creating t else .leaving t))
  | publish {i : ι} {t : T} (hi : s.callers i = .creating t) :
      Moves s (.publish i)
        (({ s with constructed := s.constructed + 1 }.setInstance
          (.new n T)).moveTo i (.published t))
  | init {i : ι} {t : T} {o : Instance n T} (hi : s.callers i = .published t)
      (ho : s.instance? = some o) :
      Moves s (.init i)
        ((s.setInstance o.initThreadPool).moveTo i (.starting t))
  | start {i : ι} {t : T} {o : Instance n T} (hi : s.callers i = .starting t)
      (ho : s.instance? = some o) (hmore : o.started < o.threads) :
      Moves s (.start i) (s.setInstance o.startNext)
  | unlock {i : ι} {t : T} (hi : s.callers i = .starting t ∨ s.callers i = .leaving t) :
      Moves s (.unlock i) ({ s with lock := none }.moveTo i (.entered t))
  | enqueueNull {i : ι} {t : T} {signalled : Finset (Fin n)}
      (hi : s.callers i = .entered t) (ho : s.instance? = none) :
      Moves s (.enqueue i signalled)
        ((s.record ⟨i, t, none⟩).moveTo i .outside)
  | enqueue {i : ι} {t : T} {o : Instance n T} {signalled : Finset (Fin n)}
      (hi : s.callers i = .entered t) (ho : s.instance? = some o)
      (hsignal : o.pool.MaySignal signalled) :
      Moves s (.enqueue i signalled)
        (((s.setInstance { o with
            pool := Threadpool.accept t (o.pool.enqueue t signalled) }).record
          ⟨i, t, some (o.pool.enqueue t signalled).1⟩).moveTo i .outside)
  | work {o : Instance n T} {e : Threadpool.Event n T} {k : Fin n} {pool : Threadpool n T}
      (ho : s.instance? = some o) (he : e.worker? = some k) (hk : k < o.started)
      (hpool : o.pool.step e = some pool) :
      Moves s (.work e) (s.setInstance { o with pool })

theorem moves_of_step {s s' : Process n T ι} {e : Event n T ι} (h : s.step e = some s') :
    Moves s e s' := by
  cases e with
  | check i t | recheck i | publish i =>
      simp only [step] at h
      split at h
      · next hi =>
          simp only [Option.some.injEq] at h
          subst h
          constructor
          exact hi
      · simp at h
  | lock i =>
      simp only [step] at h
      split at h
      · next hi hfree =>
          simp only [Option.some.injEq] at h
          exact h ▸ .lock hi hfree
      · simp at h
  | init i =>
      simp only [step] at h
      split at h
      · next hi ho =>
          simp only [Option.some.injEq] at h
          exact h ▸ .init hi ho
      · simp at h
  | start i =>
      simp only [step] at h
      split at h
      · next hi ho =>
          split at h
          · next hmore =>
              simp only [Option.some.injEq] at h
              exact h ▸ .start hi ho hmore
          · simp at h
      · simp at h
  | unlock i =>
      simp only [step] at h
      split at h
      · next hi _ =>
          split at h
          · simp at h
          · simp only [Option.some.injEq] at h
            exact h ▸ .unlock (.inl hi)
      · next hi =>
          simp only [Option.some.injEq] at h
          exact h ▸ .unlock (.inr hi)
      · simp at h
  | enqueue i signalled =>
      simp only [step] at h
      split at h
      · next hi =>
          simp only [enqueue] at h
          split at h
          · next ho =>
              simp only [Option.some.injEq] at h
              exact h ▸ .enqueueNull hi ho
          · next ho =>
              split at h
              · next hsignal =>
                  simp only [Option.some.injEq] at h
                  exact h ▸ .enqueue hi ho hsignal
              · simp at h
      · simp at h
  | work e =>
      simp only [step] at h
      split at h
      · next ho he =>
          split at h
          · next hk =>
              obtain ⟨pool, hpool, rfl⟩ := Option.map_eq_some_iff.mp h
              exact .work ho he hk hpool
          · simp at h
      · simp at h

/-! ## What a thread between two steps may rely on -/

def Fits (o : Option (Instance n T)) : Caller T → Prop
  | .creating _ => o = none
  | .published _ => o = some (.new n T)
  | .starting _ => o ≠ none
  | .leaving _ => o ≠ none
  | .entered _ => o ≠ none
  | _ => True

/-- The lock keeps everybody else from the places where the change would matter. -/
theorem Fits.of_not_holds {o o' : Option (Instance n T)} {c : Caller T} (h : Fits o c)
    (hc : c.holds = false) (ho : o' ≠ none) : Fits o' c := by
  cases c with
  | outside | wants t => trivial
  | entered t => exact ho
  | locked t | creating t | published t | starting t | leaving t => cases hc

theorem Fits.of_change {o o' : Instance n T} {c : Caller T} (h : Fits (some o) c)
    (hnew : o = .new n T → o' = .new n T) : Fits (some o') c := by
  cases c with
  | outside | wants t | locked t => trivial
  | creating t => cases h
  | published t => exact congrArg some (hnew (Option.some.inj h))
  | starting t | leaving t | entered t => exact Option.some_ne_none o'

theorem fits_moveTo {s : Process n T ι} {i : ι} {c : Caller T} {o : Option (Instance n T)} :
    (∀ j, Fits o ((s.moveTo i c).callers j)) ↔
      Fits o c ∧ ∀ j, j ≠ i → Fits o (s.callers j) :=
  Function.forall_update_iff _ fun _ c => Fits o c

def LockKept (s : Process n T ι) : Prop :=
  ∀ i, (s.callers i).holds = true ↔ s.lock = some i

theorem lockKept_moveTo {s : Process n T ι} {i : ι} {c : Caller T} :
    LockKept (s.moveTo i c) ↔ (c.holds = true ↔ s.lock = some i) ∧
      ∀ j, j ≠ i → ((s.callers j).holds = true ↔ s.lock = some j) :=
  Function.forall_update_iff _ fun j (c : Caller T) => c.holds = true ↔ s.lock = some j

/-- `InitThreadPool` has been run, and since then the threads of the pool and the
callers of `Enqueue` have taken their steps. -/
structure Live (o : Instance n T) : Prop where
  running : o.pool.isrunning = true
  reached : ∃ es, Transition.run Threadpool.step (Threadpool.initThreadPool n T) es =
    some o.pool

def accepted (s : Process n T ι) : List T :=
  s.instance?.elim [] fun o => o.pool.accepted

structure Inv (s : Process n T ι) : Prop where
  lock : LockKept s
  fits : ∀ i, Fits s.instance? (s.callers i)
  constructed : s.constructed = if s.instance?.isSome then 1 else 0
  live : ∀ o, s.instance? = some o → o = .new n T ∨ Live o
  unborn : s.instance? = none → s.returned = []
  handed : s.accepted =
    (s.returned.filter fun call => call.result = some true).map Call.task

omit [DecidableEq ι] in
theorem inv_initial : Inv (initial n T ι) where
  lock := by simp [LockKept, initial, Caller.holds]
  fits := fun _ => trivial
  constructed := rfl
  live := by simp [initial]
  unborn := fun _ => rfl
  handed := rfl

section Step

variable {s s' : Process n T ι} {e : Event n T ι}

omit [DecidableEq ι] in
theorem Inv.fits_at (h : Inv s) {i : ι} {c : Caller T} (hi : s.callers i = c) :
    Fits s.instance? c :=
  hi ▸ h.fits i

omit [DecidableEq ι] in
theorem LockKept.alone (h : LockKept s) {i j : ι} (hi : (s.callers i).holds = true)
    (hj : j ≠ i) : (s.callers j).holds = false := by
  by_contra hholds
  have hlock := (h j).mp (Bool.eq_true_of_not_eq_false hholds)
  rw [(h i).mp hi] at hlock
  exact hj (Option.some.inj hlock).symm

theorem lock_of_moves (hmove : Moves s e s') (h : LockKept s) : LockKept s' := by
  -- from one place inside to another, or from one outside to another
  have same : ∀ {t : Process n T ι} {i : ι} {c : Caller T}, t.callers = s.callers →
      t.lock = s.lock → c.holds = (s.callers i).holds → LockKept (t.moveTo i c) := by
    intro t i c hcallers hlock hc
    rw [lockKept_moveTo, hcallers, hlock, hc]
    exact ⟨h i, fun j _ => h j⟩
  cases hmove with
  | check hi => exact same rfl rfl (by rw [hi]; split <;> rfl)
  | @lock i t hi hfree =>
      refine lockKept_moveTo.mpr ⟨⟨fun _ => rfl, fun _ => rfl⟩, fun j hj => ?_⟩
      change (s.callers j).holds = true ↔ some i = some j
      rw [h j, hfree]
      simp [Ne.symm hj]
  | recheck hi => exact same rfl rfl (by rw [hi]; split <;> rfl)
  | publish hi => exact same rfl rfl (by rw [hi]; rfl)
  | init hi _ => exact same rfl rfl (by rw [hi]; rfl)
  | start _ _ _ => exact h
  | @unlock i t hi =>
      have hholds : (s.callers i).holds = true := by
        rcases hi with hi | hi <;> rw [hi] <;> rfl
      refine lockKept_moveTo.mpr ⟨by simp [Caller.holds], fun j hj => ?_⟩
      simp [h.alone hholds hj]
  | enqueueNull hi _ => exact same rfl rfl (by rw [hi]; rfl)
  | enqueue hi _ _ => exact same rfl rfl (by rw [hi]; rfl)
  | work _ _ _ _ => exact h

/-! ## Steps of the pool on the object -/

theorem enqueue_fst (p : Threadpool n T) (t : T) (signalled : Finset (Fin n)) :
    (p.enqueue t signalled).1 = p.isrunning := by
  unfold Threadpool.enqueue
  split
  · next h => exact h.symm
  · next h => exact (Bool.eq_false_of_not_eq_true h).symm

theorem Live.step {o : Instance n T} (h : Live o) {e : Threadpool.Event n T}
    {pool : Threadpool n T} (hstep : o.pool.step e = some pool) (he : e ≠ .stop) :
    Live { o with pool } := by
  obtain ⟨es, hrun⟩ := h.reached
  constructor
  · exact (Threadpool.isrunning_of_step hstep he).trans h.running
  · exact ⟨es ++ [e], Transition.run_concat_eq_some.mpr ⟨_, hrun, hstep⟩⟩

theorem Live.enqueue {o : Instance n T} (h : Live o) {t : T} {signalled : Finset (Fin n)}
    (hsignal : o.pool.MaySignal signalled) :
    Live { o with pool := Threadpool.accept t (o.pool.enqueue t signalled) } :=
  h.step (e := .enqueue t signalled) (if_pos hsignal) (by simp)

theorem ne_stop_of_worker {e : Threadpool.Event n T} {k : Fin n} (he : e.worker? = some k) :
    e ≠ .stop := by
  rintro rfl
  cases he

/-- Before `InitThreadPool` a task is refused. -/
theorem enqueue_new {o : Instance n T} (ho : o = .new n T) (t : T)
    (signalled : Finset (Fin n)) :
    { o with pool := Threadpool.accept t (o.pool.enqueue t signalled) } = .new n T := by
  rw [ho]
  rfl

theorem fits_of_moves (hmove : Moves s e s') (h : Inv s) :
    ∀ i, Fits s'.instance? (s'.callers i) := by
  cases hmove with
  | check hi =>
      refine fits_moveTo.mpr ⟨?_, fun j _ => h.fits j⟩
      change Fits s.instance? _
      cases s.instance? with
      | none => trivial
      | some o => exact Option.some_ne_none o
  | lock hi hfree => exact fits_moveTo.mpr ⟨trivial, fun j _ => h.fits j⟩
  | recheck hi =>
      refine fits_moveTo.mpr ⟨?_, fun j _ => h.fits j⟩
      change Fits s.instance? _
      cases s.instance? with
      | none => rfl
      | some o => exact Option.some_ne_none o
  | publish hi =>
      refine fits_moveTo.mpr ⟨rfl, fun j hj => (h.fits j).of_not_holds ?_ ?_⟩
      · exact h.lock.alone (by rw [hi]; rfl) hj
      · exact Option.some_ne_none _
  | init hi ho =>
      refine fits_moveTo.mpr ⟨Option.some_ne_none _, fun j hj => (h.fits j).of_not_holds ?_ ?_⟩
      · exact h.lock.alone (by rw [hi]; rfl) hj
      · exact Option.some_ne_none _
  | start hi ho hmore =>
      intro j
      have hfits := h.fits j
      rw [ho] at hfits
      refine hfits.of_change fun hnew => ?_
      subst hnew
      exact absurd hmore (Nat.lt_irrefl 0)
  | @unlock i t hi =>
      refine fits_moveTo.mpr ⟨?_, fun j _ => h.fits j⟩
      have hsome : s.instance? ≠ none := hi.elim (fun hi => h.fits_at hi) fun hi => h.fits_at hi
      exact hsome
  | enqueueNull hi ho => exact fits_moveTo.mpr ⟨trivial, fun j _ => h.fits j⟩
  | @enqueue i t o signalled hi ho hsignal =>
      refine fits_moveTo.mpr ⟨trivial, fun j _ => ?_⟩
      have hfits := h.fits j
      rw [ho] at hfits
      exact hfits.of_change fun hnew => enqueue_new hnew t signalled
  | work ho he hk hpool =>
      intro j
      have hfits := h.fits j
      rw [ho] at hfits
      refine hfits.of_change fun hnew => ?_
      subst hnew
      exact absurd hk (Nat.not_lt_zero _)

theorem live_of_moves (hmove : Moves s e s') (h : Inv s) :
    ∀ o, s'.instance? = some o → o = .new n T ∨ Live o := by
  cases hmove with
  | check hi => exact h.live
  | lock hi hfree => exact h.live
  | recheck hi => exact h.live
  | unlock hi => exact h.live
  | enqueueNull hi ho => exact h.live
  | publish hi =>
      rintro o ⟨⟩
      exact .inl rfl
  | @init i t o hi ho =>
      rintro _ ⟨⟩
      have hnew := ho.symm.trans (h.fits_at hi)
      rw [Option.some.inj hnew]
      exact .inr ⟨rfl, [], rfl⟩
  | start hi ho hmore =>
      rintro _ ⟨⟩
      rcases h.live _ ho with rfl | hlive
      · exact absurd hmore (Nat.lt_irrefl 0)
      · exact .inr ⟨hlive.running, hlive.reached⟩
  | @enqueue i t o signalled hi ho hsignal =>
      rintro _ ⟨⟩
      exact (h.live _ ho).imp (fun hnew => enqueue_new hnew t signalled)
        fun hlive => hlive.enqueue hsignal
  | work ho he hk hpool =>
      rintro _ ⟨⟩
      rcases h.live _ ho with rfl | hlive
      · exact absurd hk (Nat.not_lt_zero _)
      · exact .inr (hlive.step hpool (ne_stop_of_worker he))

theorem constructed_of_moves (hmove : Moves s e s') (h : Inv s) :
    s'.constructed = if s'.instance?.isSome then 1 else 0 := by
  have hsame : ∀ {o : Instance n T}, s.instance? = some o → s.constructed = 1 := by
    intro o ho
    rw [h.constructed, ho]
    rfl
  cases hmove with
  | check hi => exact h.constructed
  | lock hi hfree => exact h.constructed
  | recheck hi => exact h.constructed
  | unlock hi => exact h.constructed
  | enqueueNull hi ho => exact h.constructed
  | @publish i t hi =>
      have hnone : s.instance? = none := h.fits_at hi
      change s.constructed + 1 = 1
      rw [h.constructed, hnone]
      rfl
  | init hi ho => exact hsame ho
  | start hi ho hmore => exact hsame ho
  | enqueue hi ho hsignal => exact hsame ho
  | work ho he hk hpool => exact hsame ho

theorem accepted_enqueue (p : Threadpool n T) (t : T) (signalled : Finset (Fin n)) :
    (Threadpool.accept t (p.enqueue t signalled)).accepted =
      if p.isrunning then p.accepted ++ [t] else p.accepted := by
  unfold Threadpool.enqueue
  split
  · simp only [Threadpool.accept]
    split <;> rfl
  · rfl

omit [DecidableEq ι] in
theorem accepted_eq {o : Instance n T} (ho : s.instance? = some o) :
    s.accepted = o.pool.accepted := by
  rw [accepted, ho]
  rfl

/-- `Enqueue` returns `true` from an object that has been initialised, and `false`
from one that has not. -/
theorem returned_of_moves (hmove : Moves s e s') (h : Inv s) :
    (e.isEnqueue = false ∧ s'.returned = s.returned ∧ s'.accepted = s.accepted) ∨
      ∃ i t o, e.isEnqueue = true ∧ s.instance? = some o ∧
        s'.returned = s.returned ++ [⟨i, t, some o.pool.isrunning⟩] ∧
        s'.accepted = if o.pool.isrunning then s.accepted ++ [t] else s.accepted := by
  cases hmove with
  | check hi => exact .inl ⟨rfl, rfl, rfl⟩
  | lock hi hfree => exact .inl ⟨rfl, rfl, rfl⟩
  | recheck hi => exact .inl ⟨rfl, rfl, rfl⟩
  | unlock hi => exact .inl ⟨rfl, rfl, rfl⟩
  | @publish i t hi =>
      have hnone : s.instance? = none := h.fits_at hi
      refine .inl ⟨rfl, rfl, ?_⟩
      change [] = s.accepted
      rw [accepted, hnone]
      rfl
  | init hi ho => exact .inl ⟨rfl, rfl, (accepted_eq ho).symm⟩
  | start hi ho hmore => exact .inl ⟨rfl, rfl, (accepted_eq ho).symm⟩
  | @enqueueNull i t signalled hi ho =>
      exact absurd ho (h.fits_at hi)
  | @enqueue i t o signalled hi ho hsignal =>
      refine .inr ⟨i, t, o, rfl, ho, ?_, ?_⟩
      · rw [← enqueue_fst o.pool t signalled]
        rfl
      · rw [accepted_eq ho]
        exact accepted_enqueue o.pool t signalled
  | work ho he hk hpool =>
      refine .inl ⟨rfl, rfl, ?_⟩
      rw [accepted_eq ho]
      rcases Threadpool.accepted_of_step hpool with hsame | ⟨t, signalled, rfl, -⟩
      · exact hsame
      · cases he

theorem unborn_of_moves (hmove : Moves s e s') (h : Inv s) (hnone : s'.instance? = none) :
    s'.returned = [] := by
  cases hmove with
  | check hi => exact h.unborn hnone
  | lock hi hfree => exact h.unborn hnone
  | recheck hi => exact h.unborn hnone
  | unlock hi => exact h.unborn hnone
  | publish hi => cases hnone
  | init hi ho => cases hnone
  | start hi ho hmore => cases hnone
  | @enqueueNull i t signalled hi ho =>
      exact absurd ho (h.fits_at hi)
  | enqueue hi ho hsignal => cases hnone
  | work ho he hk hpool => cases hnone

theorem inv_of_step (s : Process n T ι) (e : Event n T ι) (s' : Process n T ι)
    (hstep : s.step e = some s') (h : Inv s) : Inv s' := by
  have hmove := moves_of_step hstep
  constructor
  · exact lock_of_moves hmove h.lock
  · exact fits_of_moves hmove h
  · exact constructed_of_moves hmove h
  · exact live_of_moves hmove h
  · exact unborn_of_moves hmove h
  · rcases returned_of_moves hmove h with ⟨-, hreturned, haccepted⟩ |
      ⟨i, t, o, -, -, hreturned, haccepted⟩
    · rw [hreturned, haccepted]
      exact h.handed
    · rw [hreturned, haccepted, List.filter_append, List.map_append, ← h.handed]
      cases o.pool.isrunning with
      | true => rfl
      | false => exact (List.append_nil _).symm

theorem inv_of_run {es : List (Event n T ι)}
    (h : Transition.run step (initial n T ι) es = some s) : Inv s :=
  Transition.keeps inv_of_step h inv_initial

/-! ## When the pool has been initialised -/

def Initialised (s : Process n T ι) : Prop :=
  ∃ o, s.instance? = some o ∧ o.pool.isrunning = true

theorem initialised_of_moves (hmove : Moves s e s') (h : Inv s) :
    s'.Initialised ↔ s.Initialised ∨ e.isInit = true := by
  have kept : ∀ {o o' : Instance n T}, s.instance? = some o → s'.instance? = some o' →
      o'.pool.isrunning = o.pool.isrunning → e.isInit = false →
      (s'.Initialised ↔ s.Initialised ∨ e.isInit = true) := by
    intro o o' ho ho' hsame he
    simp [Initialised, ho, ho', hsame, he]
  cases hmove with
  | check hi => exact (or_iff_left Bool.false_ne_true).symm
  | lock hi hfree => exact (or_iff_left Bool.false_ne_true).symm
  | recheck hi => exact (or_iff_left Bool.false_ne_true).symm
  | unlock hi => exact (or_iff_left Bool.false_ne_true).symm
  | enqueueNull hi ho => exact (or_iff_left Bool.false_ne_true).symm
  | @publish i t hi =>
      have hnone : s.instance? = none := h.fits_at hi
      simp [Initialised, Event.isInit, moveTo, setInstance, Instance.new, hnone]
  | init hi ho => exact iff_of_true ⟨_, rfl, rfl⟩ (.inr rfl)
  | start hi ho hmore => exact kept ho rfl rfl rfl
  | @enqueue i t o signalled hi ho hsignal =>
      refine kept ho rfl ?_ rfl
      exact Threadpool.isrunning_of_step (e := .enqueue t signalled) (if_pos hsignal) (by simp)
  | work ho he hk hpool =>
      exact kept ho rfl (Threadpool.isrunning_of_step hpool (ne_stop_of_worker he)) rfl

end Step

/-! ## Which schedules lose a task -/

def InitsFirst (es : List (Event n T ι)) : Prop :=
  ∀ e ∈ es.takeWhile (fun e => !e.isInit), e.isEnqueue = false

instance (es : List (Event n T ι)) : Decidable (InitsFirst es) :=
  inferInstanceAs (Decidable (∀ e ∈ _, _))

omit [DecidableEq ι] in
theorem initsFirst_cons (e : Event n T ι) (es : List (Event n T ι)) :
    InitsFirst (e :: es) ↔
      e.isInit = true ∨ e.isEnqueue = false ∧ InitsFirst es := by
  unfold InitsFirst
  cases he : e.isInit with
  | true => simp [he]
  | false => simp [he]

omit [DecidableEq ι] in
theorem initsFirst_concat (es : List (Event n T ι)) (e : Event n T ι) :
    InitsFirst (es ++ [e]) ↔
      InitsFirst es ∧ (e.isEnqueue = true → ∃ d ∈ es, d.isInit = true) := by
  induction es with
  | nil =>
      have hapart : e.isInit = true → e.isEnqueue = false := by
        cases e <;> simp [Event.isInit, Event.isEnqueue]
      rw [List.nil_append, initsFirst_cons]
      cases he : e.isEnqueue with
      | true => simp_all [InitsFirst]
      | false => simp [InitsFirst]
  | cons d es ih =>
      rw [List.cons_append, initsFirst_cons, initsFirst_cons, ih]
      cases hd : d.isInit with
      | true => simp [hd]
      | false => simp [hd, and_assoc]

theorem results_of_run {es : List (Event n T ι)} {s : Process n T ι}
    (h : Transition.run step (initial n T ι) es = some s) :
    (s.Initialised ↔ ∃ e ∈ es, e.isInit = true) ∧
      ((∀ call ∈ s.returned, call.result = some true) ↔ InitsFirst es) := by
  induction es using List.reverseRecOn generalizing s with
  | nil =>
      simp only [Transition.run_nil, Option.some.injEq] at h
      subst h
      simp [Initialised, initial, InitsFirst]
  | append_singleton es e ih =>
      obtain ⟨t, ht, hstep⟩ := Transition.run_concat_eq_some.mp h
      obtain ⟨hinit, hresults⟩ := ih ht
      have hinv := inv_of_run ht
      have hmove := moves_of_step hstep
      constructor
      · rw [initialised_of_moves hmove hinv, hinit]
        simp [or_and_right, exists_or]
      · rw [initsFirst_concat, ← hresults, ← hinit]
        rcases returned_of_moves hmove hinv with ⟨he, hreturned, -⟩ |
          ⟨i, task, o, he, ho, hreturned, -⟩
        · simp [hreturned, he]
        · have hinitialised : t.Initialised ↔ o.pool.isrunning = true := by
            simp [Initialised, ho]
          simp [hreturned, he, hinitialised, or_imp, forall_and]

/-- Every `Enqueue` has returned `true`, and the tasks are in the queue, or were taken
from its front by a worker. -/
structure KeepsTasks (s : Process n T ι) : Prop where
  accepted : ∀ call ∈ s.returned, call.result = some true
  queued : ∀ o, s.instance? = some o →
    o.pool.taken ++ o.pool.taskQueue = s.returned.map Call.task

theorem Live.fifo {o : Instance n T} (h : Live o) :
    o.pool.accepted = o.pool.taken ++ o.pool.taskQueue := by
  obtain ⟨es, hrun⟩ := h.reached
  exact Transition.keeps
    (I := fun p : Threadpool n T => p.accepted = p.taken ++ p.taskQueue)
    (fun _ _ _ hstep hp => Threadpool.fifo_of_step hstep hp) hrun rfl

omit [DecidableEq ι] in
theorem keepsTasks_iff {s : Process n T ι} (h : Inv s) :
    s.KeepsTasks ↔ ∀ call ∈ s.returned, call.result = some true := by
  constructor
  · exact KeepsTasks.accepted
  · intro hall
    refine ⟨hall, fun o ho => ?_⟩
    have hfifo : o.pool.accepted = o.pool.taken ++ o.pool.taskQueue := by
      rcases h.live o ho with rfl | hlive
      · rfl
      · exact hlive.fifo
    have hfilter : s.returned.filter (fun call => call.result = some true) = s.returned :=
      List.filter_eq_self.mpr fun call hcall => decide_eq_true (hall call hcall)
    rw [← hfifo, ← accepted_eq ho, h.handed, hfilter]

omit [DecidableEq ι] in
theorem Inv.constructed_once {s : Process n T ι} (h : Inv s) :
    s.constructed ≤ 1 ∧
      ((∃ i t, s.callers i = .entered t) ∨ s.returned ≠ [] → s.constructed = 1) := by
  have hsome : s.instance? ≠ none → s.constructed = 1 := by
    intro ho
    rw [h.constructed, if_pos (Option.isSome_iff_ne_none.mpr ho)]
  constructor
  · rw [h.constructed]
    split <;> omega
  · rintro (⟨i, t, hi⟩ | hreturned)
    · exact hsome (h.fits_at hi)
    · exact hsome fun hnone => hreturned (h.unborn hnone)

/--
However the threads are interleaved the pool is constructed once, by the time the
first `GetInstance` returns.  No task is lost exactly when `InitThreadPool` comes
before the first `Enqueue`.
-/
theorem getInstance_keeps_tasks_iff {es : List (Event n T ι)} {s : Process n T ι}
    (h : Transition.run step (initial n T ι) es = some s) :
    s.constructed ≤ 1 ∧
      ((∃ i t, s.callers i = .entered t) ∨ s.returned ≠ [] → s.constructed = 1) ∧
      (s.KeepsTasks ↔ InitsFirst es) := by
  have hinv := inv_of_run h
  obtain ⟨hone, hexactly⟩ := hinv.constructed_once
  exact ⟨hone, hexactly, (keepsTasks_iff hinv).trans (results_of_run h).2⟩

def publishing : List (Event 3 Nat (Fin 2)) :=
  [.check 0 10, .lock 0, .recheck 0, .publish 0]

def lateButServed : List (Event 3 Nat (Fin 2)) :=
  publishing ++ [.init 0, .check 1 20, .enqueue 1 ∅, .start 0, .start 0, .start 0,
    .work (.lock 0), .unlock 0, .enqueue 0 ∅]

theorem getInstance_keeps_tasks_iff_served : ∃ s : Process 3 Nat (Fin 2),
    Transition.run step (initial 3 Nat (Fin 2)) lateButServed = some s ∧
    s.returned.map Call.task = [20, 10] ∧ s.KeepsTasks := by
  have hrun : Transition.run step (initial 3 Nat (Fin 2)) lateButServed = some _ := rfl
  exact ⟨_, hrun, rfl, (getInstance_keeps_tasks_iff hrun).2.2.mpr (by decide)⟩

/-- A second thread finds `_instance` set, and the pool not yet running. -/
theorem late_caller_refused : ¬ ∀ (es : List (Event 3 Nat (Fin 2))) s,
    Transition.run step (initial 3 Nat (Fin 2)) es = some s →
      ∀ call ∈ s.returned, call.result = some true := by
  intro h
  have hrun : Transition.run step (initial 3 Nat (Fin 2))
      (publishing ++ [.check 1 20, .enqueue 1 ∅]) = some _ := rfl
  have hcall := h _ _ hrun ⟨1, 20, some false⟩ (by decide)
  cases hcall

end Process

end LinuxAdvance.Pool
