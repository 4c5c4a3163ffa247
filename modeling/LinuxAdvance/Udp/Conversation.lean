import LinuxAdvance.Foundation.AskWait
import LinuxAdvance.Foundation.Transition
import LinuxAdvance.Udp.UdpServer

/-!
# Clients and a server: `UdpClient`

Any number of clients, each in the loop of `UdpClient.cc`: a line from the
keyboard, `sendto`, `recvfrom`.  They share one server and a network that may
delay, reorder, lose and copy datagrams.  A datagram that overruns a buffer ends
what can be said about a run.
-/

namespace LinuxAdvance.Udp

open LinuxAdvance.Foundation
open LinuxAdvance.Cxx
open LinuxAdvance.Cxx.Vector
open LinuxAdvance.Chat

/-- The lines entered, and what each `recvfrom` returned: a payload, or `none` for
an error.  Between the two the client waits. -/
structure UdpClient where
  entered : List Bytes := []
  received : List (Option Bytes) := []

/-- What is printed for a datagram; nothing for an empty one. -/
def shown (payload : Bytes) : Option Bytes :=
  if payload = [] then none else some (ofCString payload)

namespace UdpClient

/-- What was printed after each line, if anything. -/
def printed (c : UdpClient) : List (Option Bytes) := c.received.map fun r => r.bind shown

def AtPrompt (c : UdpClient) : Prop := c.received.length = c.entered.length

def Waits (c : UdpClient) : Prop := c.received.length < c.entered.length

instance (c : UdpClient) : Decidable c.AtPrompt := inferInstanceAs (Decidable (_ = _))

instance (c : UdpClient) : Decidable c.Waits := inferInstanceAs (Decidable (_ < _))

end UdpClient

/-- `replies` carry the address they go to. -/
structure Conversation where
  clients : SockaddrIn → UdpClient := fun _ => {}
  requests : List Datagram := []
  replies : List Datagram := []

inductive Event (ω : Type) where
  | enter (peer : SockaddrIn) (line : Bytes)
  | serve (request : Datagram) (outside : ω)
  | receive (reply : Datagram)
  | fail (peer : SockaddrIn)
  | loseRequest (request : Datagram)
  | loseReply (reply : Datagram)
  | copyRequest (request : Datagram)
  | copyReply (reply : Datagram)

namespace Conversation

variable {ω : Type} (onMessage : OnMessage ω)

def setClient (s : Conversation) (peer : SockaddrIn) (c : UdpClient) : Conversation :=
  { s with clients := Function.update s.clients peer c }

def enter (s : Conversation) (peer : SockaddrIn) (line : Bytes) : Conversation :=
  let c := s.clients peer
  { s.setClient peer { c with entered := c.entered ++ [line] } with
    requests := s.requests ++ sendto peer line }

def receive (s : Conversation) (peer : SockaddrIn) (result : Option Bytes) : Conversation :=
  let c := s.clients peer
  s.setClient peer { c with received := c.received ++ [result] }

def step (s : Conversation) : Event ω → Option Conversation
  | .enter peer line => if (s.clients peer).AtPrompt then some (s.enter peer line) else none
  | .serve request outside =>
      if request ∈ s.requests then
        match UdpServer.handle onMessage outside request with
        | .ok sent =>
            some { s with
              requests := s.requests.erase request
              replies := s.replies ++ sent }
        | .error _ => none
      else none
  | .receive reply =>
      if (s.clients reply.peer).Waits ∧ reply ∈ s.replies ∧ reply.payload.length < buffSize then
        some { s.receive reply.peer (some reply.payload) with
          replies := s.replies.erase reply }
      else none
  | .fail peer => if (s.clients peer).Waits then some (s.receive peer none) else none
  | .loseRequest request =>
      if request ∈ s.requests then some { s with requests := s.requests.erase request } else none
  | .loseReply reply =>
      if reply ∈ s.replies then some { s with replies := s.replies.erase reply } else none
  | .copyRequest request =>
      if request ∈ s.requests then some { s with requests := s.requests ++ [request] } else none
  | .copyReply reply =>
      if reply ∈ s.replies then some { s with replies := s.replies ++ [reply] } else none

end Conversation

/-- The network copies nothing and `recvfrom` does not fail. -/
def Event.Steady {ω : Type} : Event ω → Prop
  | .fail _ => False
  | .copyRequest _ => False
  | .copyReply _ => False
  | _ => True

/-! ## The conversation as clients that ask and wait -/

/-- A reply to a line: the line fits in the server's buffer with its NUL. -/
def Answers {ω : Type} (onMessage : OnMessage ω) (line reply : Bytes) : Prop :=
  line ≠ [] ∧ line.length < buffSize ∧ ∃ outside, reply = onMessage outside (ofCString line)

def messages (datagrams : List Datagram) : Multiset (SockaddrIn × Bytes) :=
  (datagrams.map fun d => (d.peer, d.payload) : List (SockaddrIn × Bytes))

theorem messages_append (ds es : List Datagram) :
    messages (ds ++ es) = messages ds + messages es := by
  simp [messages]

theorem messages_erase {d : Datagram} {ds : List Datagram} (h : d ∈ ds) :
    messages ds = (d.peer, d.payload) ::ₘ messages (ds.erase d) := by
  have hperm := (List.perm_cons_erase h).map fun d : Datagram => (d.peer, d.payload)
  exact Multiset.coe_eq_coe.mpr hperm

theorem messages_sendto (peer : SockaddrIn) (payload : Bytes) :
    messages (sendto peer payload) = 0 ∨ messages (sendto peer payload) = {(peer, payload)} := by
  unfold sendto
  split
  · exact .inr rfl
  · exact .inl rfl

namespace Conversation

open AskWait (State Next Copies GivesUp)

abbrev Abstract : Type := State SockaddrIn Bytes Bytes

def abstract (s : Conversation) : Abstract where
  asked := fun peer => (s.clients peer).entered
  got := fun peer => (s.clients peer).received
  requests := messages s.requests
  replies := messages s.replies

variable {ω : Type} {onMessage : OnMessage ω} {s t : Conversation}

theorem abstract_initial : abstract {} = State.start SockaddrIn Bytes Bytes := rfl

theorem entered_setClient (s : Conversation) (peer : SockaddrIn) (c : UdpClient) :
    (fun p => ((s.setClient peer c).clients p).entered) =
      Function.update (fun p => (s.clients p).entered) peer c.entered := by
  funext p
  by_cases hp : p = peer
  · subst hp
    simp [setClient]
  · simp [setClient, hp]

theorem received_setClient (s : Conversation) (peer : SockaddrIn) (c : UdpClient) :
    (fun p => ((s.setClient peer c).clients p).received) =
      Function.update (fun p => (s.clients p).received) peer c.received := by
  funext p
  by_cases hp : p = peer
  · subst hp
    simp [setClient]
  · simp [setClient, hp]

/-- What a step is to the abstract clients: steps of theirs, a copy, or a wait
given up. -/
inductive Simulates (onMessage : OnMessage ω) (s : Abstract) : Event ω → Abstract → Prop
  | steps {e : Event ω} {t : Abstract}
      (h : Relation.ReflTransGen (Next (Answers onMessage)) s t) : Simulates onMessage s e t
  | copies {e : Event ω} {t : Abstract} (hsteady : ¬ e.Steady) (hpeer : ∀ peer, e ≠ .fail peer)
      (h : Copies s t) : Simulates onMessage s e t
  | fails {peer : SockaddrIn} {t : Abstract} (h : GivesUp peer s t) :
      Simulates onMessage s (.fail peer) t

theorem simulates_enter {peer : SockaddrIn} {line : Bytes} (hprompt : (s.clients peer).AtPrompt) :
    Relation.ReflTransGen (Next (Answers onMessage)) s.abstract (s.enter peer line).abstract := by
  have hask : Next (Answers onMessage) s.abstract _ := .ask line hprompt
  have hsent : (s.enter peer line).abstract =
      { (s.abstract) with
        asked := Function.update s.abstract.asked peer (s.abstract.asked peer ++ [line])
        requests := messages s.requests + messages (sendto peer line) } := by
    have hentered := entered_setClient s peer
      { s.clients peer with entered := (s.clients peer).entered ++ [line] }
    have hreceived := received_setClient s peer
      { s.clients peer with entered := (s.clients peer).entered ++ [line] }
    simp only [abstract, enter, messages_append]
    rw [State.mk.injEq]
    refine ⟨hentered, hreceived.trans ?_, rfl, rfl⟩
    simp
  rw [hsent]
  rcases messages_sendto peer line with hnone | hone
  · rw [hnone, add_zero]
    exact .tail (.single hask) (.loseRequest (Multiset.le_cons_self _ _))
  · rw [hone, add_comm, Multiset.singleton_add]
    exact .single hask

theorem simulates_serve {request : Datagram} {outside : ω} {sent : List Datagram}
    (hmem : request ∈ s.requests) (hsent : UdpServer.handle onMessage outside request = .ok sent) :
    Relation.ReflTransGen (Next (Answers onMessage)) s.abstract
      (abstract { s with
        requests := s.requests.erase request, replies := s.replies ++ sent }) := by
  have hrequest : s.abstract.requests = (request.peer, request.payload) ::ₘ
      messages (s.requests.erase request) := messages_erase hmem
  rcases UdpServer.handle_cases onMessage hsent with ⟨-, rfl⟩ | ⟨hne, hlt, rfl⟩
  · rw [List.append_nil]
    exact .single (.loseRequest (hrequest ▸ Multiset.le_cons_self _ _))
  · have hserve : Next (Answers onMessage) s.abstract _ :=
      .serve hrequest ⟨hne, hlt, outside, rfl⟩
    have hreplies : messages (s.replies ++ sendto request.peer
        (onMessage outside (ofCString request.payload))) =
        messages s.replies + messages (sendto request.peer
          (onMessage outside (ofCString request.payload))) := messages_append _ _
    simp only [abstract, hreplies]
    rcases messages_sendto request.peer (onMessage outside (ofCString request.payload)) with
      hnone | hone
    · rw [hnone, add_zero]
      exact .tail (.single hserve) (.loseReply (Multiset.le_cons_self _ _))
    · rw [hone, add_comm, Multiset.singleton_add]
      exact .single hserve

theorem abstract_receive (s : Conversation) (peer : SockaddrIn) (result : Option Bytes)
    (replies : List Datagram) :
    abstract { s.receive peer result with replies } =
      { (s.abstract) with
        got := Function.update s.abstract.got peer (s.abstract.got peer ++ [result])
        replies := messages replies } := by
  have hentered := entered_setClient s peer
    { s.clients peer with received := (s.clients peer).received ++ [result] }
  have hreceived := received_setClient s peer
    { s.clients peer with received := (s.clients peer).received ++ [result] }
  simp only [abstract, receive]
  rw [State.mk.injEq]
  refine ⟨hentered.trans ?_, hreceived, rfl, rfl⟩
  simp

theorem simulates_of_step {e : Event ω} (h : s.step onMessage e = some t) :
    Simulates onMessage s.abstract e t.abstract := by
  cases e with
  | enter peer line =>
      simp only [step, Option.ite_none_right_eq_some, Option.some.injEq] at h
      obtain ⟨hprompt, rfl⟩ := h
      exact .steps (simulates_enter hprompt)
  | serve request outside =>
      simp only [step] at h
      split at h
      · next hmem =>
          split at h
          · next sent hsent =>
              cases h
              exact .steps (simulates_serve hmem hsent)
          · cases h
      · cases h
  | receive reply =>
      simp only [step, Option.ite_none_right_eq_some, Option.some.injEq] at h
      obtain ⟨⟨hwaits, hmem, -⟩, rfl⟩ := h
      rw [abstract_receive]
      exact .steps (.single (.take hwaits (messages_erase hmem)))
  | fail peer =>
      simp only [step, Option.ite_none_right_eq_some, Option.some.injEq] at h
      obtain ⟨hwaits, rfl⟩ := h
      have heq := abstract_receive s peer none s.replies
      exact .fails (heq ▸ GivesUp.mk hwaits)
  | loseRequest request =>
      simp only [step, Option.ite_none_right_eq_some, Option.some.injEq] at h
      obtain ⟨hmem, rfl⟩ := h
      refine .steps (.single (.loseRequest ?_))
      exact (Multiset.le_cons_self _ _).trans_eq (messages_erase hmem).symm
  | loseReply reply =>
      simp only [step, Option.ite_none_right_eq_some, Option.some.injEq] at h
      obtain ⟨hmem, rfl⟩ := h
      refine .steps (.single (.loseReply ?_))
      exact (Multiset.le_cons_self _ _).trans_eq (messages_erase hmem).symm
  | copyRequest request =>
      simp only [step, Option.ite_none_right_eq_some, Option.some.injEq] at h
      obtain ⟨hmem, rfl⟩ := h
      refine .copies id (by simp) ?_
      have hcopy : messages (s.requests ++ [request]) =
          (request.peer, request.payload) ::ₘ messages s.requests := by
        rw [messages_append, add_comm]
        rfl
      simp only [abstract, hcopy]
      exact .request (by simp [messages_erase hmem])
  | copyReply reply =>
      simp only [step, Option.ite_none_right_eq_some, Option.some.injEq] at h
      obtain ⟨hmem, rfl⟩ := h
      refine .copies id (by simp) ?_
      have hcopy : messages (s.replies ++ [reply]) =
          (reply.peer, reply.payload) ::ₘ messages s.replies := by
        rw [messages_append, add_comm]
        rfl
      simp only [abstract, hcopy]
      exact .reply (by simp [messages_erase hmem])

theorem steps_of_steady {e : Event ω} (he : e.Steady) (h : s.step onMessage e = some t) :
    Relation.ReflTransGen (Next (Answers onMessage)) s.abstract t.abstract := by
  cases simulates_of_step h with
  | steps hsteps => exact hsteps
  | copies hsteady _ _ => exact absurd he hsteady
  | fails _ => exact he.elim

end Conversation

end LinuxAdvance.Udp
