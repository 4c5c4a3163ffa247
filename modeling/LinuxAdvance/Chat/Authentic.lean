import LinuxAdvance.Chat.Clients
import LinuxAdvance.Chat.Relay

/-!
# Who said it

The server puts `[ip:port] ` in front of what a client sent.  What a client prints
can be read in one way only, and says who sent it, whatever is in the text and
whatever the network does.
-/

namespace LinuxAdvance.Chat

open LinuxAdvance.Foundation
open LinuxAdvance.Cxx
open LinuxAdvance.Cxx.Vector
open LinuxAdvance.Pool

/-! ## Reading a message -/

def colon : UInt8 := 58

def bracket : UInt8 := 93

theorem notMem_inetNtoa {b : UInt8} (hdigit : isDigit b = false) (hdot : b ≠ dot)
    (a : UInt8 × UInt8 × UInt8 × UInt8) : b ∉ inetNtoa a := by
  have hnat (k : Nat) : b ∉ natToString k := notMem_natToString hdigit k
  obtain ⟨w, x, y, z⟩ := a
  simp only [inetNtoa, List.mem_append, List.mem_cons, not_or]
  exact ⟨hnat _, hdot, hnat _, hdot, hnat _, hdot, hnat _⟩

/-- Two texts that end at their first `b` and go on behind it. -/
theorem append_cons_inj {b : UInt8} {s s' r r' : Bytes} (hs : b ∉ s) (hs' : b ∉ s')
    (h : s ++ b :: r = s' ++ b :: r') : s = s' ∧ r = r' := by
  have htake (t q : Bytes) (ht : b ∉ t) : (t ++ b :: q).takeWhile (· ≠ b) = t := by
    rw [List.takeWhile_append_of_pos]
    · simp
    · intro c hc
      have hne : c ≠ b := fun heq => ht (heq ▸ hc)
      simpa using hne
  have hfirst : s = s' := by rw [← htake s r hs, h, htake s' r' hs']
  subst hfirst
  have hrest := List.append_cancel_left h
  simp only [List.cons.injEq, true_and] at hrest
  exact ⟨rfl, hrest⟩

theorem message_eq (addr : InetAddr) (buff : Bytes) :
    message addr buff =
      91 :: (addr.ip ++ colon :: (natToString addr.port ++ bracket :: (32 :: buff))) := by
  have hopen : text "[" = [91] := by decide
  have hcolon : text ":" = [colon] := by decide
  have hclose : text "] " = [bracket, 32] := by decide
  simp [message, hopen, hcolon, hclose]

theorem message_inj {a b : InetAddr} {x y : Bytes} (h : message a x = message b y) :
    a = b ∧ x = y := by
  simp only [message_eq, List.cons.injEq, true_and] at h
  have hip : ∀ c : InetAddr, colon ∉ c.ip := fun c =>
    c.ip_eq ▸ notMem_inetNtoa (by decide) (by decide) _
  have hport : ∀ k, bracket ∉ natToString k := notMem_natToString (by decide)
  obtain ⟨hsame, hrest⟩ := append_cons_inj (hip a) (hip b) h
  obtain ⟨hnumber, htext⟩ := append_cons_inj (hport _) (hport _) hrest
  simp only [List.cons.injEq, true_and] at htext
  refine ⟨?_, htext⟩
  have hequals : a.equals b = true := by
    simp [InetAddr.equals, hsame, natToString_injective hnumber]
  rw [← InetAddr.ofSockaddr_addr a, InetAddr.equals_iff.mp hequals, InetAddr.ofSockaddr_addr]

theorem notMem_message {addr : InetAddr} {buff : Bytes} (h : (0 : UInt8) ∉ buff) :
    (0 : UInt8) ∉ message addr buff := by
  have hip : (0 : UInt8) ∉ addr.ip := addr.ip_eq ▸ notMem_inetNtoa (by decide) (by decide) _
  have hport : (0 : UInt8) ∉ natToString addr.port := notMem_natToString (by decide) _
  simp [message_eq, hip, hport, h, colon, bracket]

/-! ## What has been said -/

namespace ChatRoom

variable {n : Nat} {s t : ChatRoom n}

/-- The client has sent a line that the server reads as `buff`. -/
def Said (s : ChatRoom n) (peer : SockaddrIn) (buff : Bytes) : Prop :=
  ∃ line ∈ (s.clients peer).sent, line ≠ [] ∧ line.length < buffSize ∧ buff = ofCString line

/-- Who has said what is in a job. -/
def SaidJob (s : ChatRoom n) (job : Job) : Prop :=
  ∃ buff, s.Said job.sender buff ∧ job.message = message (.ofSockaddr job.sender) buff

def Speaks (s : ChatRoom n) (peer : SockaddrIn) : Prop := ∃ buff, s.Said peer buff

structure Inv (s : ChatRoom n) : Prop where
  server : s.server.Inv
  receiver : ∀ addr buff, s.server.receiver = .added addr buff → s.Said addr.addr buff
  accepted : ∀ job ∈ s.server.pool.accepted, s.SaidJob job
  users : ∀ user ∈ s.server.onlineUser, s.Speaks user.addr
  sent : ∀ peer job, (peer, job) ∈ s.server.sent → s.SaidJob job ∧ s.Speaks peer
  printed : ∀ peer, ∀ out ∈ (s.clients peer).printed,
    s.Speaks peer ∧ ∃ job, s.SaidJob job ∧ out = job.message

theorem Said.notMem {peer : SockaddrIn} {buff : Bytes} (h : s.Said peer buff) :
    (0 : UInt8) ∉ buff := by
  obtain ⟨line, -, -, -, rfl⟩ := h
  exact notMem_ofCString line

theorem SaidJob.notMem {job : Job} (h : s.SaidJob job) : (0 : UInt8) ∉ job.message := by
  obtain ⟨buff, hsaid, hmessage⟩ := h
  exact hmessage ▸ notMem_message hsaid.notMem

theorem inv_initial (n : Nat) : Inv ({} : ChatRoom n) where
  server := ChatServer.inv_initial n
  receiver := fun _ _ h => by cases h
  accepted := fun _ h => by cases h
  users := fun _ h => by cases h
  sent := fun _ _ h => by cases h
  printed := fun _ _ h => by cases h

/-! ### A client's step -/

section Client

variable {peer : SockaddrIn} {c : UdpClient}

theorem sent_setClient (hsent : (s.clients peer).sent ⊆ c.sent) (other : SockaddrIn) :
    (s.clients other).sent ⊆ ((s.setClient peer c).clients other).sent := by
  by_cases hother : other = peer
  · subst hother
    simpa [setClient] using hsent
  · simp [setClient, hother]

theorem Said.setClient (hsent : (s.clients peer).sent ⊆ c.sent) {other : SockaddrIn} {buff : Bytes}
    (h : s.Said other buff) : (s.setClient peer c).Said other buff := by
  obtain ⟨line, hline, hrest⟩ := h
  exact ⟨line, sent_setClient hsent other hline, hrest⟩

theorem SaidJob.setClient (hsent : (s.clients peer).sent ⊆ c.sent) {job : Job}
    (h : s.SaidJob job) : (s.setClient peer c).SaidJob job := by
  obtain ⟨buff, hsaid, hmessage⟩ := h
  exact ⟨buff, hsaid.setClient hsent, hmessage⟩

theorem Speaks.setClient (hsent : (s.clients peer).sent ⊆ c.sent) {other : SockaddrIn}
    (h : s.Speaks other) : (s.setClient peer c).Speaks other := by
  obtain ⟨buff, hsaid⟩ := h
  exact ⟨buff, hsaid.setClient hsent⟩

theorem Inv.setClient (h : Inv s) (hsent : (s.clients peer).sent ⊆ c.sent)
    (hprinted : ∀ out ∈ c.printed, out ∈ (s.clients peer).printed ∨
      s.Speaks peer ∧ ∃ job, s.SaidJob job ∧ out = job.message) :
    Inv (s.setClient peer c) := by
  refine ⟨h.server, fun addr buff hr => (h.receiver addr buff hr).setClient hsent,
    fun job hj => (h.accepted job hj).setClient hsent,
    fun user hu => (h.users user hu).setClient hsent, fun p job hmem => ?_, fun p out hout => ?_⟩
  · obtain ⟨hjob, hspeaks⟩ := h.sent p job hmem
    exact ⟨hjob.setClient hsent, hspeaks.setClient hsent⟩
  · have hwas : s.Speaks p ∧ ∃ job, s.SaidJob job ∧ out = job.message := by
      by_cases hp : p = peer
      · subst hp
        rcases hprinted out (by simpa [ChatRoom.setClient] using hout) with hold | hnew
        · exact h.printed p out hold
        · exact hnew
      · exact h.printed p out (by simpa [ChatRoom.setClient, hp] using hout)
    obtain ⟨hspeaks, job, hjob, hmessage⟩ := hwas
    exact ⟨hspeaks.setClient hsent, job, hjob.setClient hsent, hmessage⟩

end Client

/-! ### The server's step -/

theorem Inv.serve (hn : 0 < n) (h : Inv s) {e : Event n} {server : ChatServer n}
    (hdeliver : s.Deliverable e) (hstep : s.server.step e = some server) :
    Inv { s with server } := by
  have hserver : server.Inv := ChatServer.inv_of_step hn _ _ _ hstep h.server
  cases ChatServer.takes_of_step hstep with
  | empty => exact { h with server := hserver }
  | @added d hne hlt =>
      have hsaid : s.Said d.peer (ofCString d.payload) := ⟨d.payload, hdeliver, hne, hlt, rfl⟩
      refine { h with server := hserver, receiver := fun addr buff hr => ?_, users := fun user hu => ?_ }
      · cases hr
        exact hsaid
      · simp only [ChatServer.afterAdd] at hu
        split at hu
        · exact h.users user hu
        · rcases List.mem_append.mp hu with hold | hnew
          · exact h.users user hold
          · obtain rfl := List.mem_singleton.mp hnew
            exact ⟨_, hsaid⟩
  | quit _ husers =>
      exact { h with
        server := hserver
        receiver := fun _ _ hr => by cases hr
        users := fun user hu => h.users user (husers.subset hu) }
  | @enqueue addr buff signalled pool hreceiver hpool =>
      refine { h with
        server := hserver
        receiver := fun _ _ hr => by cases hr
        accepted := fun job hjob => ?_ }
      rcases Threadpool.accepted_of_step hpool with hsame | ⟨new, _, he, hnew⟩
      · exact h.accepted job (hsame ▸ hjob)
      · obtain ⟨rfl, -⟩ := Threadpool.Event.enqueue.inj he
        simp only [hnew] at hjob
        rcases List.mem_append.mp hjob with hold | hlast
        · exact h.accepted job hold
        · obtain rfl := List.mem_singleton.mp hlast
          exact ⟨buff, h.receiver addr buff hreceiver, by rw [InetAddr.ofSockaddr_addr]⟩
  | worker hworker _ hpool =>
      refine { h with server := hserver, accepted := fun job hjob => ?_ }
      have hsame := Threadpool.accepted_of_not_enqueue hworker hpool
      exact h.accepted job (hsame ▸ hjob)
  | @route i job pool hjob hpool =>
      have hsame := Threadpool.accepted_of_not_enqueue (by simp) hpool
      refine { h with
        server := hserver
        accepted := fun job hj => h.accepted job (hsame ▸ hj)
        sent := fun peer new hmem => ?_ }
      rcases List.mem_append.mp hmem with hold | hnew
      · exact h.sent peer new hold
      · obtain ⟨user, huser, heq⟩ := List.mem_map.mp hnew
        obtain ⟨rfl, rfl⟩ := Prod.mk.inj heq
        exact ⟨h.accepted job (h.server.pool.accepted_of_running hjob), h.users user huser⟩

theorem inv_of_step (hn : 0 < n) (s : ChatRoom n) (e : RoomEvent n) (t : ChatRoom n)
    (hstep : s.step e = some t) (h : Inv s) : Inv t := by
  cases e with
  | enter peer line fails =>
      simp only [step] at hstep
      split at hstep
      · cases hstep
      · obtain rfl := Option.some.inj hstep
        rcases UdpClient.senderRoute_cases (s.clients peer) line fails with heq | ⟨-, _, heq⟩ <;>
          rw [heq]
        · exact h.setClient (List.Subset.refl _) fun _ hout => .inl hout
        · exact h.setClient (List.subset_append_left _ _) fun _ hout => .inl hout
  | server e =>
      simp only [step, Option.ite_none_right_eq_some, Option.map_eq_some_iff] at hstep
      obtain ⟨hdeliver, server, hserver, rfl⟩ := hstep
      exact h.serve hn hdeliver hserver
  | print peer job =>
      simp only [step, Option.ite_none_right_eq_some, Option.map_eq_some_iff] at hstep
      obtain ⟨hmem, c, hc, rfl⟩ := hstep
      obtain ⟨hjob, hspeaks⟩ := h.sent peer job hmem
      rcases UdpClient.recverRoute_cases hc with rfl | ⟨-, rfl⟩
      · exact h.setClient (List.Subset.refl _) fun _ hout => .inl hout
      · refine h.setClient (List.Subset.refl _) fun out hout => ?_
        rcases List.mem_append.mp hout with hold | hnew
        · exact .inl hold
        · obtain rfl := List.mem_singleton.mp hnew
          exact .inr ⟨hspeaks, job, hjob, ofCString_of_notMem hjob.notMem⟩

/-- Whatever a client prints was said by exactly one client in exactly one text,
and the client has spoken itself. -/
theorem printed_authentic (hn : 0 < n) {es : List (RoomEvent n)}
    (h : Transition.run step {} es = some s) {peer : SockaddrIn} {out : Bytes}
    (hout : out ∈ (s.clients peer).printed) :
    s.Speaks peer ∧ ∃! said : SockaddrIn × Bytes,
      s.Said said.1 said.2 ∧ out = message (.ofSockaddr said.1) said.2 := by
  have hinv : Inv s := Transition.keeps (inv_of_step hn) h (inv_initial n)
  obtain ⟨hspeaks, job, ⟨buff, hsaid, hmessage⟩, rfl⟩ := hinv.printed peer out hout
  refine ⟨hspeaks, ⟨job.sender, buff⟩, ⟨hsaid, hmessage⟩, ?_⟩
  rintro ⟨other, text⟩ ⟨-, hother⟩
  obtain ⟨haddr, htext⟩ := message_inj (hmessage.symm.trans hother)
  have hsender := congrArg InetAddr.addr haddr
  simp only [InetAddr.addr_ofSockaddr] at hsender
  rw [hsender, htext]

open UdpServer (alice bob)

/-- Bob says what looks like a message from Alice. -/
def forged : Bytes := text "[10.0.0.1:8080] hi"

theorem printed_authentic_forged : ∃ s, Transition.run step ({} : ChatRoom 1)
      [.enter bob forged false, .server (.receive ⟨bob, forged⟩), .server (.dispatch ∅),
        .server (.lock 0), .server (.route 0),
        .print bob ⟨0, bob, message (.ofSockaddr bob) forged⟩] = some s ∧
    (s.clients bob).printed = [text "[10.0.0.2:8080] [10.0.0.1:8080] hi"] ∧
    ∃! said : SockaddrIn × Bytes, s.Said said.1 said.2 ∧
      text "[10.0.0.2:8080] [10.0.0.1:8080] hi" = message (.ofSockaddr said.1) said.2 := by
  have hrun : Transition.run step ({} : ChatRoom 1)
      [.enter bob forged false, .server (.receive ⟨bob, forged⟩), .server (.dispatch ∅),
        .server (.lock 0), .server (.route 0),
        .print bob ⟨0, bob, message (.ofSockaddr bob) forged⟩] = some _ := rfl
  have hprinted : text "[10.0.0.2:8080] [10.0.0.1:8080] hi" ∈
      [text "[10.0.0.2:8080] [10.0.0.1:8080] hi"] := by simp
  exact ⟨_, hrun, rfl, (@printed_authentic 1 _ (by decide) _ hrun bob _ hprinted).2⟩

end ChatRoom

end LinuxAdvance.Chat
