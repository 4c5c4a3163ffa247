import LinuxAdvance.Chat.Authentic

/-!
# Who stays in the room

A line without a NUL that the client sends is never QUIT for the server.  So
`DelOnlineUser` is not called: whoever has come in stays, also after entering QUIT,
and gets every message that is routed from then on.
-/

namespace LinuxAdvance.Chat

open LinuxAdvance.Foundation
open LinuxAdvance.Cxx
open LinuxAdvance.Pool

variable {n : Nat}

def RoomEvent.Plain : RoomEvent n → Prop
  | .enter _ message _ => (0 : UInt8) ∉ message
  | _ => True

namespace ChatRoom

variable {s t u : ChatRoom n}

def PlainLines (s : ChatRoom n) : Prop :=
  ∀ peer, ∀ line ∈ (s.clients peer).sent, (0 : UInt8) ∉ line ∧ line ≠ quit

theorem Said.ne_quit {peer : SockaddrIn} {buff : Bytes} (h : s.Said peer buff)
    (hplain : s.PlainLines) : buff ≠ quit := by
  obtain ⟨line, hline, -, -, rfl⟩ := h
  obtain ⟨hnul, hne⟩ := hplain peer line hline
  rwa [ofCString_of_notMem hnul]

theorem PlainLines.setClient {peer : SockaddrIn} {c : UdpClient} (h : s.PlainLines)
    (hc : ∀ line ∈ c.sent, line ∈ (s.clients peer).sent ∨ (0 : UInt8) ∉ line ∧ line ≠ quit) :
    (s.setClient peer c).PlainLines := by
  intro other line hline
  by_cases hother : other = peer
  · subst hother
    rcases hc line (by simpa [ChatRoom.setClient] using hline) with hold | hnew
    · exact h other line hold
    · exact hnew
  · exact h other line (by simpa [ChatRoom.setClient, hother] using hline)

theorem plainLines_of_step {e : RoomEvent n} (he : e.Plain) (hstep : s.step e = some t)
    (h : s.PlainLines) : t.PlainLines := by
  cases e with
  | enter peer line fails =>
      simp only [step] at hstep
      split at hstep
      · cases hstep
      · obtain rfl := Option.some.inj hstep
        rcases UdpClient.senderRoute_cases (s.clients peer) line fails with
          heq | ⟨hquit, _, heq⟩ <;> rw [heq]
        · exact h.setClient fun _ hmem => .inl hmem
        · refine h.setClient fun new hmem => ?_
          rcases List.mem_append.mp hmem with hold | hlast
          · exact .inl hold
          · obtain rfl := List.mem_singleton.mp hlast
            exact .inr ⟨he, hquit⟩
  | server e =>
      simp only [step, Option.ite_none_right_eq_some, Option.map_eq_some_iff] at hstep
      obtain ⟨-, server, -, rfl⟩ := hstep
      exact h
  | print peer job =>
      simp only [step, Option.ite_none_right_eq_some, Option.map_eq_some_iff] at hstep
      obtain ⟨-, c, hc, rfl⟩ := hstep
      rcases UdpClient.recverRoute_cases hc with rfl | ⟨-, rfl⟩
      · exact h.setClient fun _ hmem => .inl hmem
      · exact h.setClient fun _ hmem => .inl hmem

/-! ## One step -/

/-- Nobody has left, and what has been routed meanwhile went to everyone who was
there. -/
structure Reaches (s t : ChatRoom n) : Prop where
  users : s.server.onlineUser <+: t.server.onlineUser
  routed : ∀ job ∈ t.server.pool.executed, job ∈ s.server.pool.executed ∨
    ∀ user ∈ s.server.onlineUser, (user.addr, job) ∈ t.server.sent
  sent : s.server.sent <+: t.server.sent

theorem Reaches.refl (s : ChatRoom n) : Reaches s s where
  users := List.prefix_refl _
  routed := fun _ hjob => .inl hjob
  sent := List.prefix_refl _

theorem Reaches.setClient (s : ChatRoom n) (peer : SockaddrIn) (c : UdpClient) :
    Reaches s (s.setClient peer c) where
  users := List.prefix_refl _
  routed := fun _ hjob => .inl hjob
  sent := List.prefix_refl _

theorem Reaches.trans (h : Reaches s t) (h' : Reaches t u) : Reaches s u where
  users := h.users.trans h'.users
  routed := by
    intro job hjob
    rcases h'.routed job hjob with hearlier | hnew
    · exact (h.routed job hearlier).imp_right fun hall user huser =>
        h'.sent.subset (hall user huser)
    · exact .inr fun user huser => hnew user (h.users.subset huser)
  sent := h.sent.trans h'.sent

theorem executed_of_step {p q : Threadpool n Job} {e : Threadpool.Event n Job}
    (he : ∀ i, e ≠ .finish i) (h : p.step e = some q) : q.executed = p.executed := by
  cases Threadpool.takes_of_step h with
  | @enqueue job signalled _ =>
      rcases p.enqueue_eq job signalled with heq | ⟨workers, heq⟩ <;> rw [heq]
  | stop =>
      obtain ⟨workers, heq⟩ := p.stop_eq
      rw [heq]
  | lock _ => exact Threadpool.taskHandler_executed _ _
  | spurious _ => rfl
  | relock _ => exact Threadpool.taskHandler_executed _ _
  | @finish i _ _ => exact absurd rfl (he i)

theorem reaches_of_serve (h : Inv s) (hplain : s.PlainLines) {e : Event n}
    {server : ChatServer n} (hstep : s.server.step e = some server) :
    Reaches s { s with server } := by
  cases ChatServer.takes_of_step hstep with
  | empty => exact Reaches.refl s
  | added _ _ =>
      refine ⟨?_, fun _ hjob => .inl hjob, List.prefix_refl _⟩
      dsimp only [ChatServer.afterAdd]
      split
      · exact List.prefix_refl _
      · exact List.prefix_append _ _
  | quit hreceiver _ => exact absurd rfl ((h.receiver _ _ hreceiver).ne_quit hplain)
  | enqueue _ hpool =>
      refine ⟨List.prefix_refl _, fun job hjob => .inl ?_, List.prefix_refl _⟩
      rwa [← executed_of_step (by simp) hpool]
  | worker _ hfinish hpool =>
      refine ⟨List.prefix_refl _, fun job hjob => .inl ?_, List.prefix_refl _⟩
      rwa [← executed_of_step hfinish hpool]
  | @route i job pool hjob hpool =>
      obtain rfl : pool = s.server.pool.finish i job := by
        simpa [Threadpool.step, hjob, eq_comm] using hpool
      refine ⟨List.prefix_refl _, fun done hdone => ?_, List.prefix_append _ _⟩
      rcases List.mem_append.mp hdone with hold | hlast
      · exact .inl hold
      · obtain rfl := List.mem_singleton.mp hlast
        exact .inr fun user huser => List.mem_append_right _ (List.mem_map_of_mem huser)

theorem reaches_of_step (h : Inv s) (hplain : s.PlainLines) {e : RoomEvent n}
    (hstep : s.step e = some t) : Reaches s t := by
  cases e with
  | enter peer line fails =>
      simp only [step] at hstep
      split at hstep
      · cases hstep
      · obtain rfl := Option.some.inj hstep
        exact Reaches.setClient s _ _
  | server e =>
      simp only [step, Option.ite_none_right_eq_some, Option.map_eq_some_iff] at hstep
      obtain ⟨-, server, hserver, rfl⟩ := hstep
      exact reaches_of_serve h hplain hserver
  | print peer job =>
      simp only [step, Option.ite_none_right_eq_some, Option.map_eq_some_iff] at hstep
      obtain ⟨-, c, -, rfl⟩ := hstep
      exact Reaches.setClient s _ _

/-! ## Whole runs -/

structure Calm (s : ChatRoom n) : Prop where
  inv : Inv s
  plain : s.PlainLines

theorem calm_initial (n : Nat) : Calm ({} : ChatRoom n) where
  inv := inv_initial n
  plain := fun _ _ hline => by cases hline

theorem calm_of_run (hn : 0 < n) {es : List (RoomEvent n)} (hes : ∀ e ∈ es, e.Plain) (h : Calm s)
    (hrun : Transition.run step s es = some t) : Calm t ∧ Reaches s t := by
  induction es generalizing s with
  | nil =>
      simp at hrun
      exact hrun ▸ ⟨h, Reaches.refl s⟩
  | cons e es ih =>
      simp only [Transition.run_cons, Option.bind_eq_some_iff] at hrun
      obtain ⟨m, hstep, hrun⟩ := hrun
      simp only [List.forall_mem_cons] at hes
      have hm : Calm m := ⟨inv_of_step hn _ _ _ hstep h.inv, plainLines_of_step hes.1 hstep h.plain⟩
      obtain ⟨ht, hreaches⟩ := ih hes.2 hm hrun
      exact ⟨ht, (reaches_of_step h.inv h.plain hstep).trans hreaches⟩

theorem exists_maySignal (p : Threadpool n Job) : ∃ signalled, p.MaySignal signalled := by
  by_cases h : ∃ i, (p.workers i).isBlocked
  · obtain ⟨i, hi⟩ := h
    exact ⟨{i}, by simpa using hi, fun _ => Finset.singleton_nonempty i⟩
  · exact ⟨∅, by simp, fun hsome => absurd hsome h⟩

/-- The receiving thread never sees QUIT, so that it never has to advance an
iterator past the end. -/
theorem Calm.dispatches (h : Calm s) {addr : InetAddr} {buff : Bytes}
    (hreceiver : s.server.receiver = .added addr buff) :
    ∃ signalled t, s.step (.server (.dispatch signalled)) = some t := by
  have hquit := (h.inv.receiver addr buff hreceiver).ne_quit h.plain
  obtain ⟨signalled, hsignalled⟩ := exists_maySignal s.server.pool
  refine ⟨signalled, Option.isSome_iff_exists.mp ?_⟩
  simp [step, Deliverable, ChatServer.step, hreceiver, ChatServer.dispatch, hquit,
    ChatServer.onPool, Threadpool.step, hsignalled]

/-- Members stay and are sent every message that is routed while they are there. -/
theorem members_reached (hn : 0 < n) {es fs : List (RoomEvent n)}
    (hes : ∀ e ∈ es ++ fs, e.Plain) (h : Transition.run step {} es = some s)
    (hmore : Transition.run step s fs = some t) :
    s.server.onlineUser <+: t.server.onlineUser ∧
      (∀ job ∈ t.server.pool.executed, job ∉ s.server.pool.executed →
        ∀ user ∈ s.server.onlineUser, (user.addr, job) ∈ t.server.sent) ∧
      ∀ addr buff, t.server.receiver = .added addr buff →
        ∃ signalled u, t.step (.server (.dispatch signalled)) = some u := by
  rw [List.forall_mem_append] at hes
  obtain ⟨hcalm, -⟩ := calm_of_run hn hes.1 (calm_initial n) h
  obtain ⟨hlater, hreaches⟩ := calm_of_run hn hes.2 hcalm hmore
  refine ⟨hreaches.users, fun job hjob hnew => ?_, fun _ _ => hlater.dispatches⟩
  exact (hreaches.routed job hjob).resolve_left hnew

open UdpServer (alice bob)

/-- Alice says hi and enters QUIT; what Bob says then goes to her too. -/
theorem members_reached_after_quit : ∃ s t, Transition.run step ({} : ChatRoom 1)
      [.enter alice (text "hi") false, .server (.receive ⟨alice, text "hi"⟩),
        .server (.dispatch ∅), .enter alice quit false, .enter bob (text "ho") false,
        .server (.receive ⟨bob, text "ho"⟩)] = some s ∧
    Transition.run step s [.server (.dispatch ∅), .server (.lock 0), .server (.route 0),
      .server (.lock 0), .server (.route 0)] = some t ∧
    (s.clients alice).ended = true ∧ s.server.onlineUser <+: t.server.onlineUser ∧
    (alice, (⟨1, bob, message (.ofSockaddr bob) (text "ho")⟩ : Job)) ∈ t.server.sent := by
  have hrun : Transition.run step ({} : ChatRoom 1)
      [.enter alice (text "hi") false, .server (.receive ⟨alice, text "hi"⟩),
        .server (.dispatch ∅), .enter alice quit false, .enter bob (text "ho") false,
        .server (.receive ⟨bob, text "ho"⟩)] = some _ := rfl
  have hplain : ∀ e ∈ ([.enter alice (text "hi") false, .server (.receive ⟨alice, text "hi"⟩),
      .server (.dispatch ∅), .enter alice quit false, .enter bob (text "ho") false,
      .server (.receive ⟨bob, text "ho"⟩)] ++ [.server (.dispatch ∅), .server (.lock 0),
      .server (.route 0), .server (.lock 0), .server (.route 0)] : List (RoomEvent 1)), e.Plain := by
    have hnul : (0 : UInt8) ∉ text "hi" ∧ (0 : UInt8) ∉ quit ∧ (0 : UInt8) ∉ text "ho" := by decide
    simp [RoomEvent.Plain, hnul.1, hnul.2.1, hnul.2.2]
  obtain ⟨husers, hsent, -⟩ := members_reached (by decide) hplain hrun rfl
  refine ⟨_, _, hrun, rfl, rfl, husers, ?_⟩
  exact hsent ⟨1, bob, message (.ofSockaddr bob) (text "ho")⟩ (by decide) (by decide)
    (.ofSockaddr alice) (by decide)

end ChatRoom

end LinuxAdvance.Chat
