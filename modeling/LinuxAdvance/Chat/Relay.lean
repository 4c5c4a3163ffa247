import LinuxAdvance.Chat.Room

/-!
# What is relayed

`recvfrom` may fill the buffer, and the NUL then goes behind it.  The comparison
with QUIT and the message read the buffer as a C string, so that what is behind a
NUL of the sender's is lost.  `Route` finds every user in the room once.
-/

namespace LinuxAdvance.Chat

open LinuxAdvance.Foundation
open LinuxAdvance.Cxx
open LinuxAdvance.Cxx.Vector

def SentOnce (message : Bytes) (users : Users) : Prop :=
  ∀ peer sent, (route message users).count (peer, sent) =
    if sent = message ∧ peer ∈ users.map InetAddr.addr then 1 else 0

theorem sentOnce_of_nodup {users : Users} (h : (users.map InetAddr.addr).Nodup)
    (message : Bytes) : SentOnce message users := by
  intro peer sent
  have hnodup : (route message users).Nodup := by
    have hpairs := h.map (f := fun addr => (addr, message)) (fun _ _ heq => (Prod.mk.inj heq).1)
    rwa [List.map_map] at hpairs
  have hmem : (peer, sent) ∈ route message users ↔
      sent = message ∧ peer ∈ users.map InetAddr.addr := by
    simp only [route, List.mem_map, Prod.mk.injEq]
    constructor
    · rintro ⟨user, huser, haddr, rfl⟩
      exact ⟨rfl, user, huser, haddr⟩
    · rintro ⟨rfl, user, huser, haddr⟩
      exact ⟨user, huser, haddr, rfl⟩
  rw [hnodup.count]
  simp only [hmem]

namespace UdpServer

/-- One round of the loop of `Start`: nothing is written outside `buff`, and what
was received, if it is not QUIT, is enqueued in one message, which `Route` sends
once to each user there is when it runs. -/
structure Relays (s : UdpServer) (d : Datagram) : Prop where
  inBounds : ∀ t, (handle d).run s ≠ .raised .outOfBounds t
  relayed : recvfrom d ≠ quit → ∃ t, (handle d).run s = .done () t ∧
    t.enqueued = s.enqueued ++ [message (.ofSockaddr d.peer) (recvfrom d)] ∧
    ∀ later u, (start later).run t = .done () u →
      SentOnce (message (.ofSockaddr d.peer) (recvfrom d)) u.onlineUser

/-- QUIT, or a text that fits in the buffer with its terminator and has no
terminator in it. -/
def Relayable (received : Bytes) : Prop :=
  received = quit ∨ received ≠ [] ∧ received.length < buffSize ∧ (0 : UInt8) ∉ received

/-! ## Nobody is in the room twice -/

theorem nodup_afterAdd {s : UdpServer} (h : s.senders.Nodup) (peer : SockaddrIn) :
    ((s.afterAdd peer).map InetAddr.addr).Nodup := by
  rw [senders_afterAdd]
  split
  · exact h
  · next hnew => exact List.concat_eq_append ▸ h.concat hnew

theorem run_delOnlineUser_afterAdd {s : UdpServer} (h : s.senders.Nodup) (peer : SockaddrIn) :
    ∃ pre post, s.afterAdd peer = pre ++ .ofSockaddr peer :: post ∧
      (delOnlineUser (.ofSockaddr peer)).run (s.afterAdd peer) =
        if post = [] then .raised .advanceEnd pre else .done () (pre ++ post) := by
  have hmem : peer ∈ (s.afterAdd peer).map InetAddr.addr := by
    rw [senders_afterAdd]
    split
    · assumption
    · simp
  obtain ⟨user, huser, haddr⟩ := List.mem_map.mp hmem
  obtain rfl : InetAddr.ofSockaddr peer = user := by rw [← haddr, InetAddr.ofSockaddr_addr]
  obtain ⟨pre, post, hsplit⟩ := List.append_of_mem huser
  have hnodup := nodup_afterAdd h peer
  rw [hsplit, List.map_append, List.map_cons, List.nodup_middle, List.nodup_cons,
    List.mem_append, not_or] at hnodup
  exact ⟨pre, post, hsplit, hsplit ▸ run_delOnlineUser hnodup.1.1 hnodup.1.2⟩

theorem handle_cases {s : UdpServer} (h : s.senders.Nodup) (d : Datagram) :
    (recvfrom d = [] ∧ (handle d).run s = .done () s) ∨
    (buffSize ≤ (recvfrom d).length ∧ (handle d).run s = .raised .outOfBounds s) ∨
    (ofCString (recvfrom d) = quit ∧ ∃ users : Users, (users.map InetAddr.addr).Nodup ∧
      ((handle d).run s = .raised .advanceEnd { s with onlineUser := users } ∨
        (handle d).run s = .done () { s with onlineUser := users })) ∨
    (recvfrom d ≠ [] ∧ (recvfrom d).length < buffSize ∧ ofCString (recvfrom d) ≠ quit ∧
      (handle d).run s = .done ()
        { s with
          onlineUser := s.afterAdd d.peer
          enqueued := s.enqueued ++
            [message (.ofSockaddr d.peer) (ofCString (recvfrom d))] }) := by
  by_cases hempty : recvfrom d = []
  · exact .inl ⟨hempty, by simp [handle, hempty]⟩
  by_cases hlong : buffSize ≤ (recvfrom d).length
  · have hpos : (recvfrom d).length ≠ 0 := by simpa using hempty
    exact .inr (.inl ⟨hlong, by simp [handle, hpos, Nat.not_lt.mpr hlong]⟩)
  have hlt : (recvfrom d).length < buffSize := Nat.lt_of_not_le hlong
  have hrun := handle_buff hempty hlt s
  by_cases hquit : ofCString (recvfrom d) = quit
  · rw [if_pos hquit] at hrun
    obtain ⟨pre, post, hsplit, hdel⟩ := run_delOnlineUser_afterAdd h d.peer
    have hnodup := nodup_afterAdd h d.peer
    rw [hsplit, List.map_append, List.map_cons] at hnodup
    refine .inr (.inr (.inl ⟨hquit, ?_⟩))
    by_cases hlast : post = []
    · rw [if_pos hlast] at hdel
      rw [run_onUsers_raised hdel] at hrun
      exact ⟨pre, hnodup.of_append_left, .inl hrun⟩
    · rw [if_neg hlast] at hdel
      rw [run_onUsers_done hdel] at hrun
      refine ⟨pre ++ post, ?_, .inr hrun⟩
      rw [List.map_append]
      exact (List.nodup_cons.mp (List.nodup_middle.mp hnodup)).2
  · rw [if_neg hquit] at hrun
    exact .inr (.inr (.inr ⟨hempty, hlt, hquit, hrun⟩))

theorem nodup_of_handle {s t : UdpServer} (h : s.senders.Nodup) {d : Datagram}
    (hrun : (handle d).run s = .done () t) : t.senders.Nodup := by
  rcases handle_cases h d with ⟨-, hd⟩ | ⟨-, hd⟩ | ⟨-, users, husers, hd | hd⟩ | ⟨-, -, -, hd⟩ <;>
    rw [hd] at hrun <;> cases hrun
  · exact h
  · exact husers
  · exact nodup_afterAdd h d.peer

theorem nodup_empty : (senders {}).Nodup := List.nodup_nil

theorem nodup_of_start {s t : UdpServer} (h : s.senders.Nodup) {ds : List Datagram}
    (hrun : (start ds).run s = .done () t) : t.senders.Nodup := by
  induction ds generalizing s with
  | nil =>
      cases hrun
      exact h
  | cons d ds ih =>
      rw [start, Proc.forEach_cons, Proc.run_bind_eq_done] at hrun
      obtain ⟨_, u, hd, hds⟩ := hrun
      exact ih (nodup_of_handle h hd) hds

/-! ## Whole, or not -/

theorem message_injective (addr : InetAddr) : Function.Injective (message addr) := by
  intro a b heq
  exact List.append_cancel_left heq

theorem relays_of_quit {s : UdpServer} (h : s.senders.Nodup) {d : Datagram}
    (hquit : recvfrom d = quit) : s.Relays d := by
  refine ⟨fun t hrun => ?_, fun hnot => absurd hquit hnot⟩
  have hshort : ¬ buffSize ≤ (recvfrom d).length := by
    rw [hquit]
    decide
  rcases handle_cases h d with ⟨-, hd⟩ | ⟨hlong, -⟩ | ⟨-, users, -, hd | hd⟩ | ⟨-, -, -, hd⟩
  · simp [hd] at hrun
  · exact hshort hlong
  · simp [hd] at hrun
  · simp [hd] at hrun
  · simp [hd] at hrun

theorem relays_of_relayable {s : UdpServer} (h : s.senders.Nodup) {d : Datagram}
    (hd : Relayable (recvfrom d)) : s.Relays d := by
  rcases hd with hquit | ⟨hne, hlt, hnul⟩
  · exact relays_of_quit h hquit
  · have hbuff := handle_buff hne hlt s
    rw [ofCString_of_notMem hnul] at hbuff
    by_cases hquit : recvfrom d = quit
    · exact relays_of_quit h hquit
    · rw [if_neg hquit] at hbuff
      refine ⟨fun t hrun => ?_, fun _ => ⟨_, hbuff, rfl, fun later u hlater => ?_⟩⟩
      · rw [hbuff] at hrun
        cases hrun
      · exact sentOnce_of_nodup (nodup_of_start (nodup_of_handle h hbuff) hlater) _

theorem relayable_of_relays {s : UdpServer} (h : s.senders.Nodup) {d : Datagram}
    (hrelays : s.Relays d) : Relayable (recvfrom d) := by
  by_cases hquit : recvfrom d = quit
  · exact .inl hquit
  obtain ⟨t, hrun, henqueued, -⟩ := hrelays.relayed hquit
  refine .inr ?_
  rcases handle_cases h d with ⟨-, hd⟩ | ⟨-, hd⟩ | ⟨-, users, -, hd | hd⟩ | ⟨hne, hlt, -, hd⟩ <;>
    rw [hd] at hrun <;> cases hrun
  · simp at henqueued
  · simp at henqueued
  · have hsame : message (.ofSockaddr d.peer) (ofCString (recvfrom d)) =
        message (.ofSockaddr d.peer) (recvfrom d) := by simpa using henqueued
    refine ⟨hne, hlt, ?_⟩
    rw [← message_injective _ hsame]
    exact notMem_ofCString (recvfrom d)

/-- In every state of a run a datagram is relayed whole exactly when it is QUIT or
leaves room for its terminator and has no NUL in it. -/
theorem relays_iff {ds : List Datagram} {s : UdpServer} (hrun : (start ds).run {} = .done () s)
    (d : Datagram) : s.Relays d ↔ Relayable (recvfrom d) := by
  have hnodup : s.senders.Nodup := nodup_of_start nodup_empty hrun
  exact ⟨relayable_of_relays hnodup, relays_of_relayable hnodup⟩

theorem relays_iff_hi : ∃ s, (start [aliceHi]).run {} = .done () s ∧ s.Relays bobHi := by
  have hrun : (start [aliceHi]).run {} = .done () _ := rfl
  exact ⟨_, hrun, (relays_iff hrun bobHi).mpr (.inr (by decide))⟩

def full : Datagram := ⟨alice, List.replicate buffSize 97⟩

/-- The terminator of a full buffer goes behind it; what is behind a NUL is not
relayed, even when it makes the text another than QUIT. -/
theorem full_datagram_overruns :
    ¬ Relays {} full ∧ ¬ Relays {} ⟨alice, text "a\x00b"⟩ ∧
      ¬ Relays {} ⟨alice, text "QUIT\x00b"⟩ := by
  have hfull : ¬ Relayable (recvfrom full) := by
    rw [full, recvfrom, List.take_of_length_le (by simp)]
    rintro (hquit | ⟨-, hlt, -⟩)
    · have hlength := congrArg List.length hquit
      have hfour : quit.length = 4 := by decide
      rw [hfour, List.length_replicate] at hlength
      exact absurd hlength (by decide)
    · simp at hlt
  have hnul : ¬ Relayable (recvfrom ⟨alice, text "a\x00b"⟩) := by
    rintro (hquit | ⟨-, -, hnul⟩)
    · exact absurd hquit (by decide)
    · exact hnul (by decide)
  have hquit : ¬ Relayable (recvfrom ⟨alice, text "QUIT\x00b"⟩) := by
    rintro (hquit | ⟨-, -, hnul⟩)
    · exact absurd hquit (by decide)
    · exact hnul (by decide)
  exact ⟨fun h => hfull (relayable_of_relays nodup_empty h),
    fun h => hnul (relayable_of_relays nodup_empty h),
    fun h => hquit (relayable_of_relays nodup_empty h)⟩

end UdpServer

end LinuxAdvance.Chat
