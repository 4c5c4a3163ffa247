import LinuxAdvance.Chat.UdpServer
import LinuxAdvance.Pool.Order

/-!
# In which order messages arrive

The receiving thread of `Start` and the workers of its pool, each section under a
mutex one step: `AddOnlineUser`, then `DelOnlineUser` or `Enqueue`, and `Route` as
the task of a worker.  A misuse of an iterator ends what can be said about a run.
The pool is there from the start: `GetInstance` makes it for the first message, and
what a worker does before that is to go to sleep.  Nobody calls `Stop`.
-/

namespace LinuxAdvance.Chat

open LinuxAdvance.Foundation
open LinuxAdvance.Cxx
open LinuxAdvance.Pool

/-- `std::bind(&UdpServer::Route, this, message)`; the number and the sender tell
one task from another. -/
structure Job where
  number : Nat
  sender : SockaddrIn
  message : Bytes
  deriving DecidableEq, Repr

/-- The receiving thread is in `recvfrom`, or has called `AddOnlineUser`. -/
inductive Receiver where
  | receiving
  | added (addr : InetAddr) (buff : Bytes)
  deriving DecidableEq

structure ChatServer (n : Nat) where
  pool : Threadpool n Job
  onlineUser : Users := []
  receiver : Receiver := .receiving
  sent : List (SockaddrIn × Job) := []

inductive Event (n : Nat) where
  | receive (datagram : Datagram)
  | dispatch (signalled : Finset (Fin n))
  | lock (i : Fin n)
  | spurious (i : Fin n)
  | relock (i : Fin n)
  | route (i : Fin n)

namespace ChatServer

variable {n : Nat}

def initial (n : Nat) : ChatServer n where
  pool := .initThreadPool n Job

def onPool (s : ChatServer n) (e : Threadpool.Event n Job) : Option (ChatServer n) :=
  (s.pool.step e).map fun pool => { s with pool }

def receive (s : ChatServer n) (datagram : Datagram) : Option (ChatServer n) :=
  let received := UdpServer.recvfrom datagram
  if received.length = 0 then some s
  else if received.length < buffSize then
    let addr := InetAddr.ofSockaddr datagram.peer
    match (addOnlineUser addr).run s.onlineUser with
    | .done () onlineUser =>
        some { s with onlineUser, receiver := .added addr (ofCString received) }
    | _ => none
  else none

def dispatch (s : ChatServer n) (addr : InetAddr) (buff : Bytes)
    (signalled : Finset (Fin n)) : Option (ChatServer n) :=
  if buff = quit then
    match (delOnlineUser addr).run s.onlineUser with
    | .done () onlineUser => some { s with onlineUser, receiver := .receiving }
    | _ => none
  else
    let job := ⟨s.pool.accepted.length, addr.addr, message addr buff⟩
    { s with receiver := .receiving }.onPool (.enqueue job signalled)

def step (s : ChatServer n) : Event n → Option (ChatServer n)
  | .receive datagram =>
      match s.receiver with
      | .receiving => s.receive datagram
      | .added _ _ => none
  | .dispatch signalled =>
      match s.receiver with
      | .receiving => none
      | .added addr buff => s.dispatch addr buff signalled
  | .lock i => s.onPool (.lock i)
  | .spurious i => s.onPool (.spurious i)
  | .relock i => s.onPool (.relock i)
  | .route i =>
      match s.pool.workers i with
      | .running job => { s with sent := s.sent ++ route job s.onlineUser }.onPool (.finish i)
      | _ => none

/-- Whoever is sent both is sent `a` first. -/
def KeepsOrder (s : ChatServer n) (a b : Job) : Prop :=
  ∀ (user : SockaddrIn) (i j : Nat),
    s.sent[i]? = some (user, a) → s.sent[j]? = some (user, b) → i < j

/-! ## What one step does -/

inductive Moves (s : ChatServer n) : ChatServer n → Prop
  | users {t : ChatServer n} (hpool : t.pool = s.pool) (hsent : t.sent = s.sent) : Moves s t
  | pool {t : ChatServer n} {e : Threadpool.Event n Job}
      (hnumber : ∀ job signalled, e = .enqueue job signalled →
        job.number = s.pool.accepted.length)
      (hpool : s.pool.step e = some t.pool) (hsent : t.sent = s.sent) : Moves s t
  | route {t : ChatServer n} {i : Fin n} {job : Job}
      (hjob : s.pool.workers i = .running job) (hpool : s.pool.step (.finish i) = some t.pool)
      (hsent : t.sent = s.sent ++ Chat.route job s.onlineUser) : Moves s t

theorem onPool_eq_some {s t : ChatServer n} {e : Threadpool.Event n Job} :
    s.onPool e = some t ↔ ∃ pool, s.pool.step e = some pool ∧ { s with pool } = t := by
  simp [onPool]

theorem moves_of_receive {s t : ChatServer n} {datagram : Datagram}
    (h : s.receive datagram = some t) : Moves s t := by
  unfold receive at h
  simp only at h
  split at h
  · simp only [Option.some.injEq] at h
    exact h ▸ .users rfl rfl
  · split at h
    · split at h
      · simp only [Option.some.injEq] at h
        exact h ▸ .users rfl rfl
      · simp at h
    · simp at h

theorem moves_of_dispatch {s t : ChatServer n} {addr : InetAddr} {buff : Bytes}
    {signalled : Finset (Fin n)} (h : s.dispatch addr buff signalled = some t) :
    Moves s t := by
  unfold dispatch at h
  split at h
  · split at h
    · simp only [Option.some.injEq] at h
      exact h ▸ .users rfl rfl
    · simp at h
  · obtain ⟨pool, hpool, rfl⟩ := onPool_eq_some.mp h
    refine .pool ?_ hpool rfl
    intro job _ he
    simp only [Threadpool.Event.enqueue.injEq] at he
    rw [← he.1]

theorem moves_of_step {s t : ChatServer n} {e : Event n} (h : s.step e = some t) :
    Moves s t := by
  cases e with
  | receive datagram =>
      simp only [step] at h
      split at h
      · exact moves_of_receive h
      · simp at h
  | dispatch signalled =>
      simp only [step] at h
      split at h
      · simp at h
      · exact moves_of_dispatch h
  | lock i | spurious i | relock i =>
      obtain ⟨pool, hpool, rfl⟩ := onPool_eq_some.mp h
      exact .pool (by simp) hpool rfl
  | route i =>
      simp only [step] at h
      split at h
      · next job hjob =>
          obtain ⟨pool, hpool, rfl⟩ := onPool_eq_some.mp h
          exact .route hjob hpool rfl
      · simp at h

/-! ## What every run keeps -/

structure Inv (s : ChatServer n) : Prop where
  pool : s.pool.Inv
  numbered : s.pool.accepted.map Job.number = List.range s.pool.accepted.length
  executed : ∀ user job, (user, job) ∈ s.sent → job ∈ s.pool.executed

theorem Inv.nodup {s : ChatServer n} (h : Inv s) : s.pool.accepted.Nodup := by
  apply List.Nodup.of_map Job.number
  rw [h.numbered]
  exact List.nodup_range

theorem job_of_mem_route {job job' : Job} {users : Users} {user : SockaddrIn}
    (h : (user, job') ∈ route job users) : job' = job := by
  simp only [route, List.mem_map, Prod.mk.injEq] at h
  obtain ⟨_, _, _, rfl⟩ := h
  rfl

theorem inv_of_step (hn : 0 < n) (s : ChatServer n) (e : Event n) (t : ChatServer n)
    (hstep : s.step e = some t) (h : Inv s) : Inv t := by
  cases moves_of_step hstep with
  | users hpool hsent =>
      constructor
      · exact hpool ▸ h.pool
      · exact hpool ▸ h.numbered
      · rw [hpool, hsent]
        exact h.executed
  | pool hnumber hpool hsent =>
      constructor
      · exact Threadpool.inv_of_step hn _ _ _ hpool h.pool
      · rcases Threadpool.accepted_of_step hpool with hsame | ⟨job, signalled, rfl, hnew⟩
        · rw [hsame]
          exact h.numbered
        · rw [hnew]
          simp [h.numbered, hnumber job signalled rfl, List.range_succ]
      · intro user job hmem
        rw [hsent] at hmem
        exact Threadpool.executed_subset_of_step hpool (h.executed user job hmem)
  | @route i job hjob hpool hsent =>
      have hfinish : t.pool = s.pool.finish i job := by
        simpa [Threadpool.step, hjob, eq_comm] using hpool
      constructor
      · exact Threadpool.inv_of_step hn _ _ _ hpool h.pool
      · rw [hfinish]
        exact h.numbered
      · intro user job' hmem
        rw [hsent, List.mem_append] at hmem
        rw [hfinish]
        rcases hmem with hmem | hmem
        · exact List.mem_append_left _ (h.executed user job' hmem)
        · rw [job_of_mem_route hmem]
          exact List.mem_append_right _ (by simp)

theorem inv_initial (n : Nat) : Inv (initial n) where
  pool := Threadpool.inv_initThreadPool n Job
  numbered := rfl
  executed := by simp [initial]

theorem inv_of_run (hn : 0 < n) {es : List (Event n)} {s : ChatServer n}
    (h : Transition.run step (initial n) es = some s) : Inv s :=
  Transition.keeps (inv_of_step hn) h (inv_initial n)

theorem accepted_prefix_of_step (s : ChatServer n) (e : Event n) (t : ChatServer n)
    (hstep : s.step e = some t) : s.pool.accepted <+: t.pool.accepted := by
  cases moves_of_step hstep with
  | users hpool _ => rw [hpool]
  | pool _ hpool _ => exact Threadpool.accepted_prefix_of_step hpool
  | route _ hpool _ => exact Threadpool.accepted_prefix_of_step hpool

theorem accepted_prefix_of_run {es : List (Event n)} {s t : ChatServer n}
    (h : Transition.run step s es = some t) : s.pool.accepted <+: t.pool.accepted :=
  Transition.keeps (I := fun t => s.pool.accepted <+: t.pool.accepted)
    (fun t e u hstep ht => ht.trans (accepted_prefix_of_step t e u hstep)) h
    (List.prefix_refl _)

/-! ## Two jobs that are never in hand together -/

structure InTurn (s : ChatServer n) (a b : Job) : Prop where
  executed_first : b ∈ s.pool.taken → a ∈ s.pool.executed
  keepsOrder : s.KeepsOrder a b

theorem keepsOrder_route {s : ChatServer n} (h : Inv s) {a b job : Job} (hne : a ≠ b)
    {i : Fin n} (hjob : s.pool.workers i = .running job) (hturn : InTurn s a b) :
    KeepsOrder { s with sent := s.sent ++ route job s.onlineUser } a b := by
  intro user k l hk hl
  simp only [List.getElem?_append] at hk hl
  split at hk
  · split at hl
    · exact hturn.keepsOrder user k l hk hl
    · omega
  · have ha : a = job := job_of_mem_route (List.mem_of_getElem? hk)
    split at hl
    · -- `b` has been sent already, so `a` has been executed and is not in hand
      have hb := h.executed user b (List.mem_of_getElem? hl)
      have hdone := hturn.executed_first (h.pool.taken_of_executed hb)
      rw [ha] at hdone
      exact absurd hdone (h.pool.not_executed_of_running h.nodup hjob)
    · have hb : b = job := job_of_mem_route (List.mem_of_getElem? hl)
      exact absurd (ha.trans hb.symm) hne

theorem inTurn_of_step {s t : ChatServer n} {e : Event n} (h : Inv s)
    (hstep : s.step e = some t) {a b : Job} {all : List Job} (hall : t.pool.accepted <+: all)
    (hnodup : all.Nodup) (hbefore : Before a b all) (hne : a ≠ b)
    (hapart : ¬t.pool.Together a b) (hturn : InTurn s a b) : InTurn t a b := by
  cases moves_of_step hstep with
  | users hpool hsent =>
      constructor
      · rw [hpool]
        exact hturn.executed_first
      · intro user i j
        rw [hsent]
        exact hturn.keepsOrder user i j
  | pool _ hpool hsent =>
      constructor
      · exact Threadpool.executed_first_of_step h.pool hpool hall hnodup hbefore hapart
          hturn.executed_first
      · intro user i j
        rw [hsent]
        exact hturn.keepsOrder user i j
  | route hjob hpool hsent =>
      constructor
      · exact Threadpool.executed_first_of_step h.pool hpool hall hnodup hbefore hapart
          hturn.executed_first
      · intro user i j
        rw [hsent]
        exact keepsOrder_route h hne hjob hturn user i j

theorem inTurn_of_run (hn : 0 < n) {es : List (Event n)} {s : ChatServer n}
    (h : Transition.run step (initial n) es = some s) {a b : Job}
    (hbefore : Before a b s.pool.accepted) (hne : a ≠ b)
    (hapart : ∀ pre t, pre <+: es → Transition.run step (initial n) pre = some t →
      ¬t.pool.Together a b) : InTurn s a b := by
  have hnodup := (inv_of_run hn h).nodup
  suffices hall : ∀ pre, pre <+: es → ∀ t, Transition.run step (initial n) pre = some t →
      InTurn t a b from hall es (List.prefix_refl _) s h
  intro pre
  induction pre using List.reverseRecOn with
  | nil =>
      intro _ t ht
      simp only [Transition.run_nil, Option.some.injEq] at ht
      subst ht
      constructor
      · simp [initial, Threadpool.initThreadPool]
      · simp [KeepsOrder, initial]
  | append_singleton pre e ih =>
      intro hpre u hu
      obtain ⟨t, ht, hstep⟩ := Transition.run_concat_eq_some.mp hu
      obtain ⟨later, rfl⟩ := hpre
      obtain ⟨u', hu', hlater⟩ := Transition.run_append_eq_some.mp h
      rw [hu, Option.some.injEq] at hu'
      subst hu'
      exact inTurn_of_step (inv_of_run hn ht) hstep (accepted_prefix_of_run hlater) hnodup
        hbefore hne (hapart _ _ (List.prefix_append _ _) hu)
        (ih ((List.prefix_append _ _).trans (List.prefix_append _ _)) t ht)

theorem before_of_number_lt {s : ChatServer n} (h : Inv s) {a b : Job}
    (ha : a ∈ s.pool.accepted) (hb : b ∈ s.pool.accepted) (hlt : a.number < b.number) :
    Before a b s.pool.accepted := by
  have hindex : ∀ (job : Job) (k : Nat), s.pool.accepted[k]? = some job → job.number = k := by
    intro job k hk
    have hmap : (s.pool.accepted.map Job.number)[k]? = some job.number := by simp [hk]
    rw [h.numbered] at hmap
    simp only [List.getElem?_eq_some_iff, List.getElem_range] at hmap
    exact hmap.2.symm
  obtain ⟨pre, post, hsplit⟩ := List.append_of_mem hb
  refine ⟨pre, post, hsplit, ?_⟩
  have hnumber : b.number = pre.length := hindex b pre.length (by simp [hsplit])
  obtain ⟨k, hk⟩ := List.mem_iff_getElem?.mp ha
  rw [← hindex a k hk, hsplit, List.getElem?_append_left (by omega)] at hk
  exact List.mem_of_getElem? hk

theorem order_of_run (hn : 0 < n) {es : List (Event n)} {s : ChatServer n}
    (h : Transition.run step (initial n) es = some s) {a b : Job}
    (ha : a ∈ s.pool.accepted) (hb : b ∈ s.pool.accepted) (hlt : a.number < b.number)
    (hapart : n = 1 ∨ ∀ pre t, pre <+: es → Transition.run step (initial n) pre = some t →
      ¬t.pool.Together a b) : s.KeepsOrder a b := by
  have hne : a ≠ b := by
    rintro rfl
    omega
  have hbefore := before_of_number_lt (inv_of_run hn h) ha hb hlt
  rcases hapart with rfl | hapart
  · exact (inTurn_of_run hn h hbefore hne fun _ t _ _ =>
      t.pool.not_together_of_one hne).keepsOrder
  · exact (inTurn_of_run hn h hbefore hne hapart).keepsOrder

def alone : SockaddrIn := ⟨(10, 0, 0, 1), (31, 144)⟩

def posts (payload : Bytes) : List (Event n) := [.receive ⟨alone, payload⟩, .dispatch ∅]

def job (number : Nat) (payload : Bytes) : Job :=
  ⟨number, alone, message (.ofSockaddr alone) payload⟩

/-- One worker takes and routes one message after the other. -/
theorem order_of_run_one : ∃ s, Transition.run step (initial 1)
      (posts (text "a") ++ posts (text "b") ++ [.lock 0, .route 0, .lock 0, .route 0]) =
        some s ∧
    s.sent = [(alone, job 0 (text "a")), (alone, job 1 (text "b"))] ∧
      s.KeepsOrder (job 0 (text "a")) (job 1 (text "b")) := by
  have hrun : Transition.run step (initial 1)
      (posts (text "a") ++ posts (text "b") ++ [.lock 0, .route 0, .lock 0, .route 0]) =
        some _ := rfl
  refine ⟨_, hrun, rfl, order_of_run (by decide) hrun ?_ ?_ (by decide) (.inl rfl)⟩
  · decide
  · decide

/-- Three workers: the second message is routed before the first. -/
theorem order_lost :
    ¬ ∀ (n : Nat), 0 < n → ∀ (es : List (Event n)) (s : ChatServer n),
      Transition.run step (initial n) es = some s →
        ∀ a b, a ∈ s.pool.accepted → b ∈ s.pool.accepted → a.sender = b.sender →
          a.number < b.number → s.KeepsOrder a b := by
  intro h
  have hrun : Transition.run step (initial 3)
      (posts (text "a") ++ posts (text "b") ++ [.lock 0, .lock 1, .route 1, .route 0]) =
        some _ := rfl
  have horder := h 3 (by decide) _ _ hrun (job 0 (text "a")) (job 1 (text "b"))
    (by decide) (by decide) rfl (by decide)
  have hlt := horder alone 1 0 rfl rfl
  omega

end ChatServer

end LinuxAdvance.Chat
