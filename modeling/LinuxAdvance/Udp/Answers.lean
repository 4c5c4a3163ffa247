import LinuxAdvance.Chat.Room
import LinuxAdvance.Udp.Conversation

/-!
# What the clients are answered

While no datagram is copied, the answer printed after a line is the answer to that
line, in whatever order the network delivers.  Whatever the network does, it is
the answer to a line of the client's own.  An empty line is never answered, and
the client waits for good.
-/

namespace LinuxAdvance.Udp

open LinuxAdvance.Foundation
open LinuxAdvance.Cxx
open LinuxAdvance.Chat

variable {ω : Type}

def Prints (onMessage : OnMessage ω) (line : Bytes) (out : Option Bytes) : Prop :=
  line ≠ [] ∧ line.length < buffSize ∧ ∃ outside, out = shown (onMessage outside (ofCString line))

namespace Conversation

open AskWait (InStep Own Stranded Next)
open Chat.UdpServer (alice bob)

variable {onMessage : OnMessage ω} {s t : Conversation}

/-! ## In order -/

theorem inStep_of_run {es : List (Event ω)} (hes : ∀ e ∈ es, e.Steady)
    (h : Transition.run (step onMessage) s es = some t) {peer : SockaddrIn}
    (hs : ∃ past last, InStep (Answers onMessage) s.abstract peer past last) :
    ∃ past last, InStep (Answers onMessage) t.abstract peer past last := by
  induction es generalizing s with
  | nil =>
      simp at h
      exact h ▸ hs
  | cons e es ih =>
      simp only [Transition.run_cons, Option.bind_eq_some_iff] at h
      obtain ⟨u, hstep, h⟩ := h
      simp only [List.forall_mem_cons] at hes
      exact ih hes.2 h (AskWait.exists_inStep_of_steps (steps_of_steady hes.1 hstep) hs)

theorem prints_of_answered {line : Bytes} {r : Option Bytes}
    (h : AskWait.Answered (Answers onMessage) line r) :
    Prints onMessage line (r.bind shown) := by
  obtain ⟨reply, rfl, hne, hlt, outside, rfl⟩ := h
  exact ⟨hne, hlt, outside, rfl⟩

theorem inStep_of_start {es : List (Event ω)} (hes : ∀ e ∈ es, e.Steady)
    (h : Transition.run (step onMessage) {} es = some s) (peer : SockaddrIn) :
    ∃ past last, InStep (Answers onMessage) s.abstract peer past last :=
  inStep_of_run hes h ⟨[], [], AskWait.inStep_start (Answers onMessage) peer⟩

theorem printed_of_inStep {peer : SockaddrIn} {past last : List Bytes}
    (hin : InStep (Answers onMessage) s.abstract peer past last) :
    List.Forall₂ (Prints onMessage) past (s.clients peer).printed := by
  rw [UdpClient.printed, List.forall₂_map_right_iff]
  exact hin.got.imp fun _ _ => prints_of_answered

theorem answers_in_order {es : List (Event ω)} (hes : ∀ e ∈ es, e.Steady)
    (h : Transition.run (step onMessage) {} es = some s) (peer : SockaddrIn) :
    ∃ past last, (s.clients peer).entered = past ++ last ∧ last.length ≤ 1 ∧
      List.Forall₂ (Prints onMessage) past (s.clients peer).printed := by
  obtain ⟨past, last, hin⟩ := inStep_of_start hes h peer
  exact ⟨past, last, hin.asked, hin.one, printed_of_inStep hin⟩

/-- Both ask before one is served, and the later question is served first. -/
theorem answers_in_order_overtaken :
    ∃ s, Transition.run (step EchoServer.onMessage) {}
        [.enter alice (text "hi"), .enter bob (text "ho"), .serve ⟨bob, text "ho"⟩ (),
          .serve ⟨alice, text "hi"⟩ (), .receive ⟨alice, text "hi"⟩] = some s ∧
      (s.clients alice).printed = [some (text "hi")] ∧
      ∃ past last, (s.clients alice).entered = past ++ last ∧ last.length ≤ 1 ∧
        List.Forall₂ (Prints EchoServer.onMessage) past (s.clients alice).printed := by
  have hrun : Transition.run (step EchoServer.onMessage) {}
      [.enter alice (text "hi"), .enter bob (text "ho"), .serve ⟨bob, text "ho"⟩ (),
        .serve ⟨alice, text "hi"⟩ (), .receive ⟨alice, text "hi"⟩] = some _ := rfl
  exact ⟨_, hrun, rfl, answers_in_order (by simp [Event.Steady]) hrun alice⟩

/-! ## Their own -/

theorem own_of_step (s : Conversation) (e : Event ω) (t : Conversation)
    (h : s.step onMessage e = some t) (hs : Own (Answers onMessage) s.abstract) :
    Own (Answers onMessage) t.abstract := by
  cases simulates_of_step h with
  | steps hsteps => exact hs.steps hsteps
  | copies _ _ hcopies => exact hs.copies hcopies
  | fails hfails => exact hs.givesUp hfails

theorem answers_own {es : List (Event ω)} (h : Transition.run (step onMessage) {} es = some s)
    {peer : SockaddrIn} {out : Bytes} (hout : some out ∈ (s.clients peer).printed) :
    ∃ line ∈ (s.clients peer).entered, Prints onMessage line (some out) := by
  have hown : Own (Answers onMessage) s.abstract :=
    Transition.keeps own_of_step h (AskWait.own_start _)
  obtain ⟨r, hr, hshown⟩ := List.mem_map.mp hout
  obtain ⟨reply, rfl, hreply⟩ := Option.bind_eq_some_iff.mp hshown
  obtain ⟨line, hline, hne, hlt, outside, rfl⟩ := hown.got peer reply hr
  exact ⟨line, hline, hne, hlt, outside, hreply.symm⟩

/-- A copied request sets the client out of step: the second line is answered with
the first. -/
theorem answers_own_copied :
    ∃ s, Transition.run (step EchoServer.onMessage) {}
        [.enter alice (text "hi"), .copyRequest ⟨alice, text "hi"⟩, .serve ⟨alice, text "hi"⟩ (),
          .serve ⟨alice, text "hi"⟩ (), .receive ⟨alice, text "hi"⟩, .enter alice (text "ho"),
          .receive ⟨alice, text "hi"⟩] = some s ∧
      (s.clients alice).printed = [some (text "hi"), some (text "hi")] ∧
      ∃ line ∈ (s.clients alice).entered,
        Prints EchoServer.onMessage line (some (text "hi")) := by
  have hrun : Transition.run (step EchoServer.onMessage) {}
      [.enter alice (text "hi"), .copyRequest ⟨alice, text "hi"⟩, .serve ⟨alice, text "hi"⟩ (),
        .serve ⟨alice, text "hi"⟩ (), .receive ⟨alice, text "hi"⟩, .enter alice (text "ho"),
        .receive ⟨alice, text "hi"⟩] = some _ := rfl
  have hprinted : some (text "hi") ∈ [some (text "hi"), some (text "hi")] := by simp
  exact ⟨_, hrun, rfl, answers_own hrun (show _ ∈ UdpClient.printed _ from hprinted)⟩

/-! ## Not at all -/

theorem stranded_of_step {e : Event ω} {peer : SockaddrIn} (he : e ≠ .fail peer)
    (h : s.step onMessage e = some t) (hs : Stranded (Answers onMessage) s.abstract peer) :
    Stranded (Answers onMessage) t.abstract peer ∧
      t.abstract.asked peer = s.abstract.asked peer ∧
      t.abstract.got peer = s.abstract.got peer := by
  cases simulates_of_step h with
  | steps hsteps => exact hs.steps hsteps
  | copies _ _ hcopies => exact hs.copies hcopies
  | @fails other _ hfails => exact hs.givesUp (fun heq => he (heq ▸ rfl)) hfails

theorem stranded_of_run {es : List (Event ω)} {peer : SockaddrIn} (hes : ∀ e ∈ es, e ≠ .fail peer)
    (h : Transition.run (step onMessage) s es = some t)
    (hs : Stranded (Answers onMessage) s.abstract peer) : t.clients peer = s.clients peer := by
  induction es generalizing s with
  | nil =>
      simp at h
      rw [h]
  | cons e es ih =>
      simp only [Transition.run_cons, Option.bind_eq_some_iff] at h
      obtain ⟨u, hstep, h⟩ := h
      simp only [List.forall_mem_cons] at hes
      obtain ⟨hstranded, hasked, hgot⟩ := stranded_of_step hes.1 hstep hs
      rw [ih hes.2 h hstranded]
      exact UdpClient.mk.injEq .. |>.mpr ⟨hasked, hgot⟩

theorem stranded_enter {past last : List Bytes} {peer : SockaddrIn}
    (hin : InStep (Answers onMessage) s.abstract peer past last)
    (hprompt : (s.clients peer).AtPrompt) :
    Stranded (Answers onMessage) (s.enter peer []).abstract peer := by
  obtain rfl := hin.last_of_idle hprompt
  have hnone : (AskWait.mine peer s.abstract.requests).card +
      (AskWait.mine peer s.abstract.replies).card = 0 := by simpa using hin.travelling
  have hrequests : AskWait.mine peer (messages s.requests) = 0 :=
    Multiset.card_eq_zero.mp (Nat.eq_zero_of_add_eq_zero hnone).1
  have hsent : messages (s.requests ++ sendto peer []) = (peer, []) ::ₘ messages s.requests := by
    rw [messages_append, add_comm]
    rfl
  refine ⟨?_, ?_, Multiset.card_eq_zero.mp (Nat.eq_zero_of_add_eq_zero hnone).2⟩
  · have hlength : (s.clients peer).received.length = (s.clients peer).entered.length := hprompt
    change (((s.enter peer []).clients peer).received).length <
      (((s.enter peer []).clients peer).entered).length
    simp [enter, setClient, hlength]
  · intro line hline reply hreply
    change line ∈ AskWait.mine peer (messages (s.requests ++ sendto peer [])) at hline
    rw [hsent, AskWait.mine_cons_self, hrequests] at hline
    exact hreply.1 (by simpa using hline)

theorem empty_line_waits_forever {es fs : List (Event ω)} {u : Conversation}
    (hes : ∀ e ∈ es, e.Steady) (h : Transition.run (step onMessage) {} es = some s)
    {peer : SockaddrIn} (henter : s.step onMessage (.enter peer []) = some t)
    (hfs : ∀ e ∈ fs, e ≠ .fail peer) (hmore : Transition.run (step onMessage) t fs = some u) :
    u.clients peer = t.clients peer := by
  obtain ⟨past, last, hin⟩ := inStep_of_start hes h peer
  simp only [step, Option.ite_none_right_eq_some, Option.some.injEq] at henter
  obtain ⟨hprompt, rfl⟩ := henter
  exact stranded_of_run hfs hmore (stranded_enter hin hprompt)

theorem empty_line_waits_forever_served :
    ∃ t u, step EchoServer.onMessage {} (.enter alice []) = some t ∧
      Transition.run (step EchoServer.onMessage) t [.serve ⟨alice, []⟩ ()] = some u ∧
      u.clients alice = t.clients alice := by
  have hstart : Transition.run (step EchoServer.onMessage) {} [] = some {} := rfl
  have henter : step EchoServer.onMessage {} (.enter alice []) = some _ := rfl
  have hmore : Transition.run (step EchoServer.onMessage) (enter {} alice [])
      [.serve ⟨alice, []⟩ ()] = some _ := rfl
  exact ⟨_, _, henter, hmore, empty_line_waits_forever (by simp) hstart henter (by simp) hmore⟩

end Conversation

end LinuxAdvance.Udp
