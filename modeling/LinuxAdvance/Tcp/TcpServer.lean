import LinuxAdvance.Pool.Conservation
import LinuxAdvance.Pool.Order
import LinuxAdvance.System.Socket
import LinuxAdvance.Tcp.EchoStream

/-!
# The echo server with its thread pool: `TcpServer`

`Start` accepts a connection and enqueues `Service` on its descriptor; a worker
that takes the task serves the connection to its end and closes the descriptor.
The kernel gives numbers out again, and what a worker reads, writes and closes is
whatever its number stands for at that moment.  `accept` failures are skipped by
`Start`; the pool is there from the start, and nobody calls `Stop`.
-/

namespace LinuxAdvance.Tcp

open LinuxAdvance.Foundation
open LinuxAdvance.Cxx
open LinuxAdvance.System
open LinuxAdvance.Pool

/-- `std::bind(&TcpServer::Service, this, sockfd, addr)`; the number tells one
connection from another. -/
structure Conn where
  number : Nat
  sockfd : Fd
  deriving DecidableEq, Repr

/-- `live` are the connections that are open, `closed` those that have been
closed, `others` the descriptors the process has open besides. -/
structure TcpServer (n : Nat) where
  pool : Threadpool n Conn
  live : List Conn := []
  closed : List Conn := []
  others : Finset Fd
  talks : Nat → Talk := fun _ => {}

inductive Event (n : Nat) where
  | accept (choice : NewFd) (signalled : Finset (Fin n))
  | lock (i : Fin n)
  | spurious (i : Fin n)
  | relock (i : Fin n)
  | client (number : Nat) (e : TalkEvent Unit)
  | service (i : Fin n) (e : TalkEvent Unit)
  | close (i : Fin n)
  | finish (i : Fin n)

def TalkEvent.ofClient : TalkEvent Unit → Bool
  | .enter _ => true
  | .recv _ => true
  | .recvFails => true
  | .hangUp => true
  | _ => false

namespace TcpServer

variable {n : Nat}

def initial (n : Nat) (others : Finset Fd) : TcpServer n where
  pool := .initThreadPool n Conn
  others

def opened (s : TcpServer n) : Finset Fd := s.others ∪ (s.live.map Conn.sockfd).toFinset

def owner (s : TcpServer n) (fd : Fd) : Option Conn :=
  s.live.find? fun conn => decide (conn.sockfd = fd)

def onPool (s : TcpServer n) (e : Threadpool.Event n Conn) : Option (TcpServer n) :=
  (s.pool.step e).map fun pool => { s with pool }

def talk (s : TcpServer n) (number : Nat) (e : TalkEvent Unit) : Option (TcpServer n) :=
  ((s.talks number).step echoAnswer e).map fun t =>
    { s with talks := Function.update s.talks number t }

def accept (s : TcpServer n) (choice : NewFd) (signalled : Finset (Fin n)) :
    Option (TcpServer n) :=
  let conn := ⟨s.pool.accepted.length, choice.choose s.opened⟩
  { s with live := s.live ++ [conn] }.onPool (.enqueue conn signalled)

/-- A use of a descriptor that stands for another connection, or for none, ends
what can be said about a run. -/
def service (s : TcpServer n) (conn : Conn) (e : TalkEvent Unit) : Option (TcpServer n) :=
  if s.owner conn.sockfd = some conn then s.talk conn.number e else none

def close (s : TcpServer n) (conn : Conn) : Option (TcpServer n) :=
  match s.owner conn.sockfd with
  | none => none
  | some stands => some { s with live := s.live.erase stands, closed := s.closed ++ [stands] }

def step (s : TcpServer n) : Event n → Option (TcpServer n)
  | .accept choice signalled => s.accept choice signalled
  | .lock i => s.onPool (.lock i)
  | .spurious i => s.onPool (.spurious i)
  | .relock i => s.onPool (.relock i)
  | .client number e =>
      if number < s.pool.accepted.length ∧ e.ofClient = true then s.talk number e else none
  | .service i e =>
      match s.pool.workers i with
      | .running conn => if e.ofClient = false then s.service conn e else none
      | _ => none
  | .close i =>
      match s.pool.workers i with
      | .running conn =>
          if (s.talks conn.number).service = .ended ∧ conn ∉ s.closed then s.close conn else none
      | _ => none
  | .finish i =>
      match s.pool.workers i with
      | .running conn => if conn ∈ s.closed then s.onPool (.finish i) else none
      | _ => none

theorem onPool_eq_some {s t : TcpServer n} {e : Threadpool.Event n Conn} :
    s.onPool e = some t ↔ ∃ pool, s.pool.step e = some pool ∧ { s with pool } = t := by
  simp [onPool]

theorem talk_eq_some {s t : TcpServer n} {number : Nat} {e : TalkEvent Unit} :
    s.talk number e = some t ↔ ∃ talk, (s.talks number).step echoAnswer e = some talk ∧
      { s with talks := Function.update s.talks number talk } = t := by
  simp [talk]

/-! ## What every run keeps -/

/-- The open connections have a descriptor each, the process has no other use for
it, and the kernel and the pool agree on which connections there are. -/
structure Inv (s : TcpServer n) : Prop where
  pool : s.pool.Inv
  running : s.pool.isrunning = true
  numbered : s.pool.accepted.map Conn.number = List.range s.pool.accepted.length
  accounted : s.pool.accepted.Perm (s.closed ++ s.live)
  distinct : (s.live.map Conn.sockfd).Nodup
  apart : ∀ conn ∈ s.live, conn.sockfd ∉ s.others
  executed : ∀ conn ∈ s.pool.executed, conn ∈ s.closed
  queued : ∀ conn ∈ s.pool.taskQueue, conn ∉ s.closed ∧ (s.talks conn.number).handled = []
  fresh : ∀ number, s.pool.accepted.length ≤ number → s.talks number = {}
  talked : ∀ number, ∃ es, Transition.run (Talk.step echoAnswer) {} es = some (s.talks number)

section Inv

variable {s t : TcpServer n}

theorem inv_initial (n : Nat) (others : Finset Fd) : Inv (initial n others) where
  pool := Threadpool.inv_initThreadPool n Conn
  running := rfl
  numbered := rfl
  accounted := .nil
  distinct := .nil
  apart := by simp [initial]
  executed := by simp [initial, Threadpool.initThreadPool]
  queued := by simp [initial, Threadpool.initThreadPool]
  fresh := fun _ _ => rfl
  talked := fun _ => ⟨[], rfl⟩

theorem Inv.nodup (h : Inv s) : s.pool.accepted.Nodup := by
  apply List.Nodup.of_map Conn.number
  rw [h.numbered]
  exact List.nodup_range

theorem Inv.number_inj (h : Inv s) {a b : Conn} (ha : a ∈ s.pool.accepted)
    (hb : b ∈ s.pool.accepted) (hab : a.number = b.number) : a = b := by
  have hmap : (s.pool.accepted.map Conn.number).Nodup := by
    rw [h.numbered]
    exact List.nodup_range
  exact List.inj_on_of_nodup_map hmap ha hb hab

theorem Inv.not_queued_of_running (h : Inv s) {i : Fin n} {conn : Conn}
    (hi : s.pool.workers i = .running conn) : conn ∉ s.pool.taskQueue := by
  intro hqueue
  have hall : (s.pool.taskQueue + s.pool.hands + s.pool.executed : Multiset Conn).Nodup := by
    rw [← h.pool.conserved]
    simpa using h.nodup
  have hapart := (Multiset.nodup_add.mp (Multiset.nodup_add.mp hall).1).2.2
  exact Multiset.disjoint_left.mp hapart (by simpa using hqueue)
    (Threadpool.mem_hands.mpr ⟨i, hi⟩)

theorem Inv.number_ne_of_queued (h : Inv s) {i : Fin n} {conn queued : Conn}
    (hi : s.pool.workers i = .running conn) (hqueue : queued ∈ s.pool.taskQueue) :
    queued.number ≠ conn.number := by
  intro heq
  have haccepted : queued ∈ s.pool.accepted := by
    rw [h.pool.fifo]
    exact List.mem_append_right _ hqueue
  have hsame := h.number_inj haccepted (h.pool.accepted_of_running hi) heq
  exact h.not_queued_of_running hi (hsame ▸ hqueue)

theorem owner_of_mem {conn : Conn} (hdistinct : (s.live.map Conn.sockfd).Nodup)
    (hlive : conn ∈ s.live) : s.owner conn.sockfd = some conn := by
  cases howner : s.owner conn.sockfd with
  | none =>
      have hnot := List.find?_eq_none.mp howner conn hlive
      simp at hnot
  | some stands =>
      have hfd : stands.sockfd = conn.sockfd := by simpa using List.find?_some howner
      have hmem : stands ∈ s.live := List.mem_of_find?_eq_some howner
      rw [List.inj_on_of_nodup_map hdistinct hmem hlive hfd]

theorem Inv.owner_of_running (h : Inv s) {i : Fin n} {conn : Conn}
    (hi : s.pool.workers i = .running conn) (hopen : conn ∉ s.closed) :
    s.owner conn.sockfd = some conn := by
  have hmem := h.accounted.mem_iff.mp (h.pool.accepted_of_running hi)
  have hlive : conn ∈ s.live := (List.mem_append.mp hmem).resolve_left hopen
  exact owner_of_mem h.distinct hlive

/-! ## The steps -/

theorem Inv.onPool (hn : 0 < n) (h : Inv s) {e : Threadpool.Event n Conn}
    (he : (∃ i, e = .lock i) ∨ (∃ i, e = .spurious i) ∨ ∃ i, e = .relock i)
    (hstep : s.onPool e = some t) : Inv t := by
  obtain ⟨pool, hpool, rfl⟩ := onPool_eq_some.mp hstep
  have hinv : pool.Inv := Threadpool.inv_of_step hn _ _ _ hpool h.pool
  have hfields : pool.accepted = s.pool.accepted ∧ pool.executed = s.pool.executed ∧
      pool.isrunning = s.pool.isrunning ∧ pool.taskQueue ⊆ s.pool.taskQueue := by
    have hqueue : ∀ (p : Threadpool n Conn) i, (p.taskHandler i).taskQueue ⊆ p.taskQueue := by
      intro p i
      unfold Threadpool.taskHandler
      split
      · exact List.Subset.refl _
      · exact List.Subset.refl _
      · next hq => simp [hq]
    rcases he with ⟨i, rfl⟩ | ⟨i, rfl⟩ | ⟨i, rfl⟩ <;> cases Threadpool.takes_of_step hpool
    · exact ⟨by simp, by simp, by simp, hqueue _ _⟩
    · exact ⟨rfl, rfl, rfl, List.Subset.refl _⟩
    · exact ⟨by simp [Threadpool.reacquire], by simp [Threadpool.reacquire],
        by simp [Threadpool.reacquire], hqueue _ _⟩
  obtain ⟨haccepted, hexecuted, hrunning, hqueue⟩ := hfields
  exact {
    pool := hinv
    running := hrunning.trans h.running
    numbered := by
      change pool.accepted.map _ = List.range pool.accepted.length
      rw [haccepted]
      exact h.numbered
    accounted := (List.Perm.of_eq haccepted).trans h.accounted
    distinct := h.distinct
    apart := h.apart
    executed := fun conn hconn => h.executed conn (hexecuted ▸ hconn)
    queued := fun conn hconn => h.queued conn (hqueue hconn)
    fresh := fun number hnumber => h.fresh number (haccepted ▸ hnumber)
    talked := h.talked }

theorem Inv.accept (hn : 0 < n) (h : Inv s) {choice : NewFd} {signalled : Finset (Fin n)}
    (hstep : s.accept choice signalled = some t) : Inv t := by
  obtain ⟨pool, hpool, rfl⟩ := onPool_eq_some.mp hstep
  have hinv : pool.Inv := Threadpool.inv_of_step hn _ _ _ hpool h.pool
  have hfields : pool.accepted = s.pool.accepted ++ [⟨s.pool.accepted.length, choice.choose s.opened⟩] ∧
      pool.taskQueue = s.pool.taskQueue ++ [⟨s.pool.accepted.length, choice.choose s.opened⟩] ∧
      pool.executed = s.pool.executed ∧ pool.isrunning = s.pool.isrunning := by
    cases Threadpool.takes_of_step hpool with
    | enqueue _ =>
        simp only [Threadpool.enqueue, h.running, if_true, Threadpool.accept]
        split <;> exact ⟨rfl, rfl, rfl, rfl⟩
  obtain ⟨haccepted, hqueue, hexecuted, hrunning⟩ := hfields
  have hfresh : choice.choose s.opened ∉ s.opened := choice.notMem s.opened
  simp only [opened, Finset.mem_union, List.mem_toFinset, not_or] at hfresh
  have hnew : (⟨s.pool.accepted.length, choice.choose s.opened⟩ : Conn) ∉ s.pool.accepted := by
    intro hmem
    have hnumber := List.mem_map_of_mem (f := Conn.number) hmem
    rw [h.numbered] at hnumber
    simp at hnumber
  exact {
    pool := hinv
    running := hrunning.trans h.running
    numbered := by
      change pool.accepted.map _ = List.range pool.accepted.length
      rw [haccepted]
      simp [h.numbered, List.range_succ]
    accounted := by
      change pool.accepted.Perm _
      rw [haccepted, ← List.append_assoc]
      exact h.accounted.append_right _
    distinct := by
      change ((s.live ++ _).map Conn.sockfd).Nodup
      rw [List.map_append, List.map_singleton]
      exact List.concat_eq_append ▸ h.distinct.concat hfresh.2
    apart := by
      intro conn hconn
      rcases List.mem_append.mp hconn with hlive | hconn
      · exact h.apart conn hlive
      · obtain rfl := List.mem_singleton.mp hconn
        exact hfresh.1
    executed := fun conn hconn => h.executed conn (hexecuted ▸ hconn)
    queued := by
      intro conn hconn
      change conn ∈ pool.taskQueue at hconn
      rw [hqueue] at hconn
      rcases List.mem_append.mp hconn with hold | hconn
      · exact h.queued conn hold
      · obtain rfl := List.mem_singleton.mp hconn
        refine ⟨fun hclosed => hnew ?_, ?_⟩
        · exact h.accounted.mem_iff.mpr (List.mem_append_left _ hclosed)
        · change (s.talks _).handled = []
          rw [h.fresh _ le_rfl]
    fresh := by
      intro number hnumber
      change pool.accepted.length ≤ number at hnumber
      rw [haccepted, List.length_append] at hnumber
      exact h.fresh number (by omega)
    talked := h.talked }

/-- A step of one conversation, which is not that of a queued connection or not one
of the server's. -/
theorem Inv.talk (h : Inv s) {number : Nat} {e : TalkEvent Unit}
    (haccepted : number < s.pool.accepted.length)
    (hqueue : ∀ conn ∈ s.pool.taskQueue, conn.number = number → e.ofClient = true)
    (hstep : s.talk number e = some t) : Inv t := by
  obtain ⟨talk, htalk, rfl⟩ := talk_eq_some.mp hstep
  refine { h with queued := ?_, fresh := ?_, talked := ?_ }
  · intro conn hconn
    have hhandled := (h.queued conn hconn).2
    refine ⟨(h.queued conn hconn).1, ?_⟩
    by_cases hnumber : conn.number = number
    · have hclient := hqueue conn hconn hnumber
      subst hnumber
      change (Function.update s.talks conn.number talk conn.number).handled = []
      rw [Function.update_self]
      cases Talk.takes_of_step htalk <;> first | exact hhandled | cases hclient
    · change (Function.update s.talks number talk conn.number).handled = []
      rwa [Function.update_of_ne hnumber]
  · intro k hk
    have hne : k ≠ number := by
      rintro rfl
      exact absurd haccepted (Nat.not_lt.mpr hk)
    change Function.update s.talks number talk k = {}
    rw [Function.update_of_ne hne]
    exact h.fresh k hk
  · intro k
    change ∃ es, Transition.run (Talk.step echoAnswer) {} es =
      some (Function.update s.talks number talk k)
    by_cases hk : k = number
    · subst hk
      obtain ⟨es, hes⟩ := h.talked k
      rw [Function.update_self]
      exact ⟨es ++ [e], Transition.run_concat_eq_some.mpr ⟨_, hes, htalk⟩⟩
    · rw [Function.update_of_ne hk]
      exact h.talked k

theorem Inv.close (h : Inv s) {i : Fin n} {conn : Conn}
    (hi : s.pool.workers i = .running conn) (hopen : conn ∉ s.closed)
    (hstep : s.close conn = some t) :
    Inv t ∧ t.closed = s.closed ++ [conn] ∧ t.live = s.live.erase conn := by
  rw [TcpServer.close, h.owner_of_running hi hopen] at hstep
  simp only [Option.some.injEq] at hstep
  subst hstep
  have hmem := h.accounted.mem_iff.mp (h.pool.accepted_of_running hi)
  have hlive : conn ∈ s.live := (List.mem_append.mp hmem).resolve_left hopen
  refine ⟨?_, rfl, rfl⟩
  exact {
    pool := h.pool
    running := h.running
    numbered := h.numbered
    accounted := by
      rw [List.append_assoc]
      exact h.accounted.trans ((List.perm_cons_erase hlive).append_left s.closed)
    distinct := h.distinct.sublist (List.erase_sublist.map Conn.sockfd)
    apart := fun c hc => h.apart c (List.mem_of_mem_erase hc)
    executed := fun c hc => List.mem_append_left _ (h.executed c hc)
    queued := by
      intro c hc
      refine ⟨fun hclosed => ?_, (h.queued c hc).2⟩
      rcases List.mem_append.mp hclosed with hclosed | hlast
      · exact (h.queued c hc).1 hclosed
      · obtain rfl := List.mem_singleton.mp hlast
        exact h.not_queued_of_running hi hc
    fresh := h.fresh
    talked := h.talked }

theorem Inv.finish (hn : 0 < n) (h : Inv s) {i : Fin n} {conn : Conn}
    (hi : s.pool.workers i = .running conn) (hclosed : conn ∈ s.closed)
    (hstep : s.onPool (.finish i) = some t) : Inv t := by
  obtain ⟨pool, hpool, rfl⟩ := onPool_eq_some.mp hstep
  have hinv : pool.Inv := Threadpool.inv_of_step hn _ _ _ hpool h.pool
  obtain rfl : pool = s.pool.finish i conn := by
    simpa [Threadpool.step, hi, eq_comm] using hpool
  refine { h with pool := hinv, executed := fun c hc => ?_ }
  rcases List.mem_append.mp hc with hc | hlast
  · exact h.executed c hc
  · exact List.mem_singleton.mp hlast ▸ hclosed

theorem Inv.number_lt_of_running (h : Inv s) {i : Fin n} {conn : Conn}
    (hi : s.pool.workers i = .running conn) : conn.number < s.pool.accepted.length := by
  have hmem := List.mem_map_of_mem (f := Conn.number) (h.pool.accepted_of_running hi)
  rw [h.numbered] at hmem
  simpa using hmem

theorem inv_of_step (hn : 0 < n) (s : TcpServer n) (e : Event n) (t : TcpServer n)
    (hstep : s.step e = some t) (h : Inv s) : Inv t := by
  cases e with
  | accept choice signalled => exact h.accept hn hstep
  | lock i => exact h.onPool hn (.inl ⟨i, rfl⟩) hstep
  | spurious i => exact h.onPool hn (.inr (.inl ⟨i, rfl⟩)) hstep
  | relock i => exact h.onPool hn (.inr (.inr ⟨i, rfl⟩)) hstep
  | client number e =>
      simp only [step, Option.ite_none_right_eq_some] at hstep
      obtain ⟨⟨hnumber, hclient⟩, hstep⟩ := hstep
      exact h.talk hnumber (fun _ _ _ => hclient) hstep
  | service i e =>
      simp only [step] at hstep
      split at hstep
      · next conn hi =>
          simp only [Option.ite_none_right_eq_some, service] at hstep
          refine h.talk (h.number_lt_of_running hi) ?_ hstep.2.2
          exact fun queued hqueue hnumber => absurd hnumber (h.number_ne_of_queued hi hqueue)
      · cases hstep
  | close i =>
      simp only [step] at hstep
      split at hstep
      · next conn hi =>
          simp only [Option.ite_none_right_eq_some] at hstep
          exact (h.close hi hstep.1.2 hstep.2).1
      · cases hstep
  | finish i =>
      simp only [step] at hstep
      split at hstep
      · next conn hi =>
          simp only [Option.ite_none_right_eq_some] at hstep
          exact h.finish hn hi hstep.1 hstep.2
      · cases hstep

end Inv

/-! ## The server as its clients rely on it -/

/-- A worker's descriptor stands for its own connection until it closes it, no
connection is served twice, every connection is open or has been closed, once, and
every conversation is one of a server that has no other client. -/
structure Sound (s : TcpServer n) : Prop where
  own : ∀ i conn, s.pool.workers i = .running conn → conn ∉ s.closed →
    s.owner conn.sockfd = some conn
  apart : ∀ i j conn, s.pool.workers i = .running conn → s.pool.workers j = .running conn → i = j
  accounted : s.pool.accepted.Perm (s.closed ++ s.live) ∧ s.pool.accepted.Nodup
  executed : ∀ conn ∈ s.pool.executed, conn ∈ s.closed
  queued : ∀ conn ∈ s.pool.taskQueue, conn ∈ s.live ∧ (s.talks conn.number).handled = []
  talked : ∀ number, ∃ es, Transition.run (Talk.step echoAnswer) {} es = some (s.talks number)
  echoed : ∀ number, (s.talks number).travelling.Sublist (s.talks number).sent

theorem Inv.sound {s : TcpServer n} (h : Inv s) : Sound s where
  own := fun _ _ => h.owner_of_running
  apart := by
    intro i j conn hi hj
    have hall : (s.pool.taskQueue + s.pool.hands + s.pool.executed : Multiset Conn).Nodup := by
      rw [← h.pool.conserved]
      simpa using h.nodup
    have hhands := (Multiset.nodup_add.mp (Multiset.nodup_add.mp hall).1).2.1
    exact Crew.share_unique hhands (Phase.mem_hand.mpr hi) (Phase.mem_hand.mpr hj)
  accounted := ⟨h.accounted, h.nodup⟩
  executed := h.executed
  queued := by
    intro conn hconn
    have haccepted : conn ∈ s.pool.accepted := by
      rw [h.pool.fifo]
      exact List.mem_append_right _ hconn
    have hmem := h.accounted.mem_iff.mp haccepted
    obtain ⟨hopen, hhandled⟩ := h.queued conn hconn
    exact ⟨(List.mem_append.mp hmem).resolve_left hopen, hhandled⟩
  talked := h.talked
  echoed := by
    intro number
    obtain ⟨es, hes⟩ := h.talked number
    exact Talk.travelling_sublist_of_run hes

theorem connections_served (hn : 0 < n) {others : Finset Fd} {es : List (Event n)} {s : TcpServer n}
    (h : Transition.run step (initial n others) es = some s) : Sound s :=
  (Transition.keeps (inv_of_step hn) h (inv_initial n others)).sound

theorem connections_served_reused : ∃ s, Transition.run step (initial 1 {3})
      [.accept .above ∅, .lock 0, .client 0 .hangUp, .service 0 .eof, .close 0,
        .accept .above ∅, .finish 0, .lock 0] = some s ∧
    s.closed.map Conn.sockfd = [4] ∧ s.live.map Conn.sockfd = [4] ∧ Sound s := by
  have hrun : Transition.run step (initial 1 {3})
      [.accept .above ∅, .lock 0, .client 0 .hangUp, .service 0 .eof, .close 0,
        .accept .above ∅, .finish 0, .lock 0] = some _ := rfl
  exact ⟨_, hrun, rfl, rfl, connections_served (by decide) hrun⟩

end TcpServer

end LinuxAdvance.Tcp
