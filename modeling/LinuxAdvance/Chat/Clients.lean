import LinuxAdvance.Chat.Order
import LinuxAdvance.Foundation.Footprint

/-!
# The chat room with its clients

`UdpClient.cc` of the chat room has a thread that sends what is entered and one
that prints what comes in.  QUIT is not sent: it ends the sending thread, and so
does an empty line, for which `sendto` returns 0.  Of what was sent the network
delivers anything at any time, any number of times.  A datagram that fills a buffer
ends what can be said about a run.
-/

namespace LinuxAdvance.Chat

open LinuxAdvance.Foundation
open LinuxAdvance.Cxx
open LinuxAdvance.Cxx.Vector
open LinuxAdvance.Pool

/-- `sent` are the lines that `sendto` took, and `ended` says that `SenderRoute`
has left its loop. -/
structure UdpClient where
  sent : List Bytes := []
  ended : Bool := false
  printed : List Bytes := []
  deriving DecidableEq, Repr

namespace UdpClient

def maxPayload : Nat := 65507

/-- What `sendto` returns; it may fail for reasons of its own. -/
def sendto (message : Bytes) (fails : Bool) : Option Nat :=
  if fails = true ∨ maxPayload < message.length then none else some message.length

def senderRoute (c : UdpClient) (message : Bytes) (fails : Bool) : UdpClient :=
  if message = quit then { c with ended := true }
  else
    match sendto message fails with
    | none => { c with ended := true }
    | some n => { c with sent := c.sent ++ [message], ended := decide (n = 0) }

def recverRoute (c : UdpClient) (payload : Bytes) : Option UdpClient :=
  let received := payload.take buffSize
  if received.length = 0 then some c
  else if received.length < buffSize then
    some { c with printed := c.printed ++ [ofCString received] }
  else none

end UdpClient

structure ChatRoom (n : Nat) where
  server : ChatServer n := .initial n
  clients : SockaddrIn → UdpClient := fun _ => {}

inductive RoomEvent (n : Nat) where
  | enter (peer : SockaddrIn) (message : Bytes) (fails : Bool)
  | server (e : Event n)
  | print (peer : SockaddrIn) (job : Job)

namespace ChatRoom

variable {n : Nat}

def setClient (s : ChatRoom n) (peer : SockaddrIn) (c : UdpClient) : ChatRoom n :=
  { s with clients := Function.update s.clients peer c }

def Deliverable (s : ChatRoom n) : Event n → Prop
  | .receive datagram => datagram.payload ∈ (s.clients datagram.peer).sent
  | _ => True

instance (s : ChatRoom n) (e : Event n) : Decidable (s.Deliverable e) := by
  cases e <;> unfold Deliverable <;> infer_instance

def step (s : ChatRoom n) : RoomEvent n → Option (ChatRoom n)
  | .enter peer message fails =>
      let c := s.clients peer
      if c.ended then none else some (s.setClient peer (c.senderRoute message fails))
  | .server e =>
      if s.Deliverable e then (s.server.step e).map fun server => { s with server } else none
  | .print peer job =>
      if (peer, job) ∈ s.server.sent then
        ((s.clients peer).recverRoute job.message).map (s.setClient peer)
      else none

end ChatRoom

/-! ## What a client does -/

namespace UdpClient

theorem senderRoute_cases (c : UdpClient) (message : Bytes) (fails : Bool) :
    c.senderRoute message fails = { c with ended := true } ∨
      message ≠ quit ∧ ∃ ended,
        c.senderRoute message fails = { c with sent := c.sent ++ [message], ended } := by
  unfold senderRoute
  by_cases hquit : message = quit
  · exact .inl (if_pos hquit)
  · rw [if_neg hquit]
    cases hsent : sendto message fails with
    | none => exact .inl rfl
    | some k => exact .inr ⟨hquit, _, rfl⟩

/-- What can be printed: nothing of it is cut off. -/
theorem recverRoute_cases {c d : UdpClient} {payload : Bytes}
    (h : c.recverRoute payload = some d) :
    d = c ∨ payload.length < buffSize ∧ d = { c with printed := c.printed ++ [ofCString payload] } := by
  unfold recverRoute at h
  dsimp only at h
  split at h
  · exact .inl (Option.some.inj h).symm
  · split at h
    · next hlt =>
        rw [List.length_take] at hlt
        have hlength : payload.length < buffSize := by omega
        rw [List.take_of_length_le hlength.le] at h
        exact .inr ⟨hlength, (Option.some.inj h).symm⟩
    · cases h

end UdpClient

/-! ## What the server does -/

theorem within_eraseWhile {α : Type} (p : α → Bool) :
    Proc.Within (fun v w : List α => w.Sublist v) (eraseWhile p) := by
  have hdereference : ∀ iter, Proc.Within (fun v w : List α => w.Sublist v) (dereference iter) := by
    intro iter
    refine Proc.Within.get.bind fun v => ?_
    split
    · exact .pure _
    · exact .raise _
  have hadvance : ∀ iter, Proc.Within (fun v w : List α => w.Sublist v) (advance (α := α) iter) := by
    intro iter
    refine Proc.Within.get.bind fun v => ?_
    split
    · exact .pure _
    · exact .raise _
  have herase : ∀ iter, Proc.Within (fun v w : List α => w.Sublist v) (erase (α := α) iter) := by
    intro iter
    refine Proc.Within.get.bind fun v => ?_
    split
    · exact .modify fun w => List.eraseIdx_sublist w iter
    · exact .raise _
  refine Proc.Within.get.bind fun v => Proc.Within.iterate (fun iter => ?_) _ _
  refine Proc.Within.get.bind fun v => ?_
  split
  · exact .pure _
  · refine (hdereference iter).bind fun a => ?_
    split
    · exact (herase iter).bind fun _ => (hadvance iter).bind fun _ => .pure _
    · exact (hadvance iter).bind fun _ => .pure _

theorem delOnlineUser_sublist {user : InetAddr} {users users' : Users}
    (h : (delOnlineUser user).run users = .done () users') : users'.Sublist users := by
  have hwithin := within_eraseWhile (fun e => InetAddr.equals e user) users
  rw [show eraseWhile _ = delOnlineUser user from rfl, h] at hwithin
  exact keeps_of_step (I := fun v => v.Sublist users) (fun _ _ hstep hv => hstep.trans hv)
    hwithin (List.Sublist.refl users)

namespace ChatServer

variable {n : Nat}

def afterAdd (users : Users) (user : InetAddr) : Users :=
  if user.addr ∈ users.map InetAddr.addr then users else users ++ [user]

inductive Takes (s : ChatServer n) : Event n → ChatServer n → Prop
  | empty {d : Datagram} : Takes s (.receive d) s
  | added {d : Datagram} (hne : d.payload ≠ []) (hlt : d.payload.length < buffSize) :
      Takes s (.receive d) { s with
        onlineUser := afterAdd s.onlineUser (.ofSockaddr d.peer)
        receiver := .added (.ofSockaddr d.peer) (ofCString d.payload) }
  | quit {addr : InetAddr} {signalled : Finset (Fin n)} {users : Users}
      (hreceiver : s.receiver = .added addr quit) (husers : users.Sublist s.onlineUser) :
      Takes s (.dispatch signalled) { s with onlineUser := users, receiver := .receiving }
  | enqueue {addr : InetAddr} {buff : Bytes} {signalled : Finset (Fin n)}
      {pool : Threadpool n Job} (hreceiver : s.receiver = .added addr buff)
      (hpool : s.pool.step
        (.enqueue ⟨s.pool.accepted.length, addr.addr, message addr buff⟩ signalled) = some pool) :
      Takes s (.dispatch signalled) { s with receiver := .receiving, pool }
  | worker {e : Event n} {f : Threadpool.Event n Job} {pool : Threadpool n Job}
      (hworker : ∀ job signalled, f ≠ .enqueue job signalled)
      (hfinish : ∀ i, f ≠ .finish i)
      (hpool : s.pool.step f = some pool) : Takes s e { s with pool }
  | route {i : Fin n} {job : Job} {pool : Threadpool n Job}
      (hjob : s.pool.workers i = .running job) (hpool : s.pool.step (.finish i) = some pool) :
      Takes s (.route i) { s with sent := s.sent ++ Chat.route job s.onlineUser, pool }

theorem takes_of_receive {s t : ChatServer n} {d : Datagram} (h : s.receive d = some t) :
    Takes s (.receive d) t := by
  unfold receive at h
  simp only at h
  split at h
  · exact (Option.some.inj h) ▸ .empty
  · next hpos =>
      split at h
      · next hlt =>
          have hlength : d.payload.length < buffSize := by
            rw [UdpServer.recvfrom, List.length_take] at hlt
            omega
          have hsame : UdpServer.recvfrom d = d.payload := List.take_of_length_le hlength.le
          rw [hsame] at h hpos
          rw [run_addOnlineUser] at h
          simp only [Option.some.injEq] at h
          refine h ▸ .added (fun hnil => hpos ?_) hlength
          rw [hnil]
          rfl
      · cases h

theorem takes_of_dispatch {s t : ChatServer n} {addr : InetAddr} {buff : Bytes}
    {signalled : Finset (Fin n)} (hreceiver : s.receiver = .added addr buff)
    (h : s.dispatch addr buff signalled = some t) : Takes s (.dispatch signalled) t := by
  unfold dispatch at h
  split at h
  · next hquit =>
      subst hquit
      split at h
      · next users hrun =>
          exact (Option.some.inj h) ▸ .quit hreceiver (delOnlineUser_sublist hrun)
      · cases h
  · obtain ⟨pool, hpool, rfl⟩ := onPool_eq_some.mp h
    exact .enqueue hreceiver hpool

theorem takes_of_step {s t : ChatServer n} {e : Event n} (h : s.step e = some t) :
    Takes s e t := by
  cases e with
  | receive datagram =>
      simp only [step] at h
      split at h
      · exact takes_of_receive h
      · cases h
  | dispatch signalled =>
      simp only [step] at h
      split at h
      · cases h
      · next addr buff hreceiver => exact takes_of_dispatch hreceiver h
  | lock i | spurious i | relock i =>
      obtain ⟨pool, hpool, rfl⟩ := onPool_eq_some.mp h
      exact .worker (by simp) (by simp) hpool
  | route i =>
      simp only [step] at h
      split at h
      · next job hjob =>
          obtain ⟨pool, hpool, rfl⟩ := onPool_eq_some.mp h
          exact .route hjob hpool
      · cases h

end ChatServer

end LinuxAdvance.Chat
