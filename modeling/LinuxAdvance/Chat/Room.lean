import LinuxAdvance.Chat.UdpServer
import LinuxAdvance.Foundation.Presence

/-!
# Who is in the chat room

`_online_user` is to be the roster of the datagrams that came in.  It is as long as
nobody who came in last, or is not in the room at all, says QUIT (then
`DelOnlineUser` advances past the end), and nobody who is not in the room sends an
empty datagram, which `Start` takes for none.
-/

namespace LinuxAdvance.Chat

open LinuxAdvance.Foundation
open LinuxAdvance.Cxx
open LinuxAdvance.Cxx.Vector

def presence : Presence Datagram SockaddrIn where
  who := Datagram.peer
  leaves := fun d => d.payload = quit

structure Short (d : Datagram) : Prop where
  length_le : d.payload.length ≤ 1023
  nul_free : (0 : UInt8) ∉ d.payload

/-- An empty datagram comes from somebody in the room, a QUIT from somebody in the
room who did not come in last. -/
structure Harmless (h : List Datagram) (d : Datagram) : Prop where
  empty : d.payload = [] → presence.Online h d.peer
  quit : d.payload = quit → presence.HasSuccessor h d.peer

theorem harmless_of_message {d : Datagram} (hne : d.payload ≠ []) (hquit : d.payload ≠ quit)
    (h : List Datagram) : Harmless h d :=
  ⟨fun hempty => absurd hempty hne, fun h => absurd h hquit⟩

namespace UdpServer

/-- No iterator goes astray, and the users are the roster. -/
def KeepsRoster (ds : List Datagram) : Prop :=
  ∃ s, (start ds).run {} = .done () s ∧ presence.Roster ds s.senders

/-! ## One datagram -/

def afterAdd (s : UdpServer) (peer : SockaddrIn) : Users :=
  if peer ∈ s.senders then s.onlineUser
  else s.onlineUser ++ [InetAddr.ofSockaddr peer]

theorem run_add (s : UdpServer) (peer : SockaddrIn) :
    (onUsers (addOnlineUser (.ofSockaddr peer))).run s =
      .done () { s with onlineUser := s.afterAdd peer } :=
  run_onUsers_done (run_addOnlineUser _ s.onlineUser)

theorem handle_empty {d : Datagram} (hd : d.payload = []) (s : UdpServer) :
    (handle d).run s = .done () s := by
  simp [handle, recvfrom, hd]

/-- A datagram that leaves room for the NUL: what counts from there on is the C
string in the buffer. -/
theorem handle_buff {d : Datagram} (hne : recvfrom d ≠ [])
    (hlt : (recvfrom d).length < buffSize) (s : UdpServer) :
    (handle d).run s =
      (if ofCString (recvfrom d) = quit then onUsers (delOnlineUser (.ofSockaddr d.peer))
        else Proc.modify fun s =>
          { s with
            enqueued := s.enqueued ++
              [message (.ofSockaddr d.peer) (ofCString (recvfrom d))] }).run
        { s with onlineUser := s.afterAdd d.peer } := by
  have hpos : (recvfrom d).length ≠ 0 := by simpa using hne
  simp only [handle, hpos, hlt, if_true, if_false]
  rw [Proc.run_bind_done (run_add s d.peer)]

theorem handle_short {d : Datagram} (hd : Short d) (hne : d.payload ≠ []) (s : UdpServer) :
    (handle d).run s =
      (if d.payload = quit then onUsers (delOnlineUser (.ofSockaddr d.peer))
        else Proc.modify fun s =>
          { s with enqueued := s.enqueued ++ [message (.ofSockaddr d.peer) d.payload] }).run
        { s with onlineUser := s.afterAdd d.peer } := by
  have hlength := hd.length_le
  have hreceived : recvfrom d = d.payload := List.take_of_length_le (by simp [buffSize]; omega)
  have hlt : (recvfrom d).length < buffSize := by
    rw [hreceived]
    simp [buffSize]
    omega
  rw [handle_buff (by rwa [hreceived]) hlt, hreceived, ofCString_of_notMem hd.nul_free]

theorem senders_afterAdd (s : UdpServer) (peer : SockaddrIn) :
    (s.afterAdd peer).map InetAddr.addr =
      if peer ∈ s.senders then s.senders else s.senders ++ [peer] := by
  unfold afterAdd
  split <;> simp [senders]

theorem handle_message {h : List Datagram} {s : UdpServer} {d : Datagram}
    (hroom : presence.Roster h s.senders) (hd : Short d) (hne : d.payload ≠ [])
    (hquit : d.payload ≠ quit) :
    ∃ s', (handle d).run s = .done () s' ∧ presence.Roster (h ++ [d]) s'.senders := by
  have hstays : presence.leaves d = false := by simpa [presence] using hquit
  rw [handle_short hd hne, if_neg hquit]
  refine ⟨_, rfl, ?_⟩
  change presence.Roster (h ++ [d]) ((s.afterAdd d.peer).map InetAddr.addr)
  rw [senders_afterAdd]
  split
  · next hmem => exact hroom.stay hmem hstays
  · next hnew => exact hroom.join hnew hstays

theorem handle_quit_iff {h : List Datagram} {s : UdpServer} {d : Datagram}
    (hroom : presence.Roster h s.senders) (hd : Short d) (hquit : d.payload = quit) :
    (∃ s', (handle d).run s = .done () s' ∧ presence.Roster (h ++ [d]) s'.senders) ↔
      presence.HasSuccessor h d.peer := by
  have hne : d.payload ≠ [] := by
    rw [hquit]
    decide
  have hleaves : presence.leaves d = true := by simpa [presence] using hquit
  rw [handle_short hd hne, if_pos hquit]
  by_cases hmem : d.peer ∈ s.senders
  · obtain ⟨user, huser, haddr⟩ := List.mem_map.mp hmem
    obtain ⟨pre, post, hsplit⟩ := List.append_of_mem huser
    have hself : InetAddr.ofSockaddr d.peer = user := by
      rw [← haddr, InetAddr.ofSockaddr_addr]
    have hsenders : s.senders = pre.map InetAddr.addr ++ d.peer :: post.map InetAddr.addr := by
      simp [senders, hsplit, haddr]
    rw [hsenders] at hroom
    have hapart := hroom.nodup
    rw [List.nodup_middle, List.nodup_cons, List.mem_append, not_or, ← haddr] at hapart
    have hrun := run_delOnlineUser hapart.1.1 hapart.1.2
    have hafter : s.afterAdd d.peer = pre ++ user :: post := by simp [afterAdd, hmem, hsplit]
    rw [hafter, hself, hroom.hasSuccessor_iff, ne_eq, List.map_eq_nil_iff]
    by_cases hlast : post = []
    · rw [if_pos hlast] at hrun
      rw [run_onUsers_raised hrun]
      simp [hlast]
    · rw [if_neg hlast] at hrun
      rw [run_onUsers_done hrun]
      simp only [hlast, not_false_eq_true, iff_true]
      refine ⟨_, rfl, ?_⟩
      simpa [senders] using hroom.leave hleaves
  · have hrun : (delOnlineUser (.ofSockaddr d.peer)).run
        (s.onlineUser ++ .ofSockaddr d.peer :: []) = _ := run_delOnlineUser hmem (by simp)
    have hafter : s.afterAdd d.peer = s.onlineUser ++ [.ofSockaddr d.peer] := by
      simp [afterAdd, hmem]
    rw [if_pos rfl] at hrun
    rw [hafter, run_onUsers_raised hrun]
    simp only [reduceCtorEq, false_and, exists_false, false_iff]
    rintro ⟨honline, -⟩
    exact hmem ((hroom.mem_iff _).mpr honline)

/-- Nothing is done about an empty datagram, whoever sends it. -/
theorem handle_empty_iff {h : List Datagram} {s : UdpServer} {d : Datagram}
    (hroom : presence.Roster h s.senders) (hempty : d.payload = []) :
    (∃ s', (handle d).run s = .done () s' ∧ presence.Roster (h ++ [d]) s'.senders) ↔
      presence.Online h d.peer := by
  have hstays : presence.leaves d = false := by
    change decide (d.payload = quit) = false
    rw [hempty]
    decide
  rw [handle_empty hempty]
  constructor
  · rintro ⟨s', hdone, hroom'⟩
    cases hdone
    exact (hroom.mem_iff _).mp ((hroom'.mem_iff _).mpr (Presence.online_concat_self.mpr hstays))
  · intro honline
    exact ⟨s, rfl, hroom.stay ((hroom.mem_iff _).mpr honline) hstays⟩

theorem handle_iff {h : List Datagram} {s : UdpServer} {d : Datagram}
    (hroom : presence.Roster h s.senders) (hd : Short d) :
    (∃ s', (handle d).run s = .done () s' ∧ presence.Roster (h ++ [d]) s'.senders) ↔
      Harmless h d := by
  by_cases hempty : d.payload = []
  · have hquit : d.payload ≠ quit := by
      rw [hempty]
      decide
    rw [handle_empty_iff hroom hempty]
    exact ⟨fun honline => ⟨fun _ => honline, fun h => absurd h hquit⟩,
      fun h => h.empty hempty⟩
  by_cases hquit : d.payload = quit
  · rw [handle_quit_iff hroom hd hquit]
    exact ⟨fun hbehind => ⟨fun h => absurd h hempty, fun _ => hbehind⟩,
      fun h => h.quit hquit⟩
  · exact iff_of_true (handle_message hroom hd hempty hquit)
      (harmless_of_message hempty hquit h)

/-! ## A whole run -/

theorem keepsRoster_concat {ds : List Datagram} {d : Datagram} (hd : Short d)
    (hkeeps : KeepsRoster ds) : KeepsRoster (ds ++ [d]) ↔ Harmless ds d := by
  obtain ⟨s, hrun, hroom⟩ := hkeeps
  have hnext : (start (ds ++ [d])).run {} = (handle d).run s := by
    rw [start, Proc.forEach_append_done hrun, Proc.forEach_cons, Proc.run_bind]
    cases (handle d).run s <;> rfl
  unfold KeepsRoster
  rw [hnext]
  exact handle_iff hroom hd

theorem membership_iff {ds : List Datagram} (hds : ∀ d ∈ ds, Short d) :
    (∀ pre, pre <+: ds → KeepsRoster pre) ↔
      ∀ pre d, pre ++ [d] <+: ds → Harmless pre d := by
  have hshort : ∀ {pre d}, pre ++ [d] <+: ds → Short d := fun hpre =>
    hds _ (hpre.subset (by simp))
  constructor
  · intro h pre d hpre
    exact (keepsRoster_concat (hshort hpre) (h pre ((List.prefix_append _ _).trans hpre))).mp
      (h _ hpre)
  · intro h pre hpre
    induction pre using List.reverseRecOn with
    | nil => exact ⟨{}, rfl, Presence.Roster.nil⟩
    | append_singleton pre d ih =>
        exact (keepsRoster_concat (hshort hpre) (ih ((List.prefix_append _ _).trans hpre))).mpr
          (h pre d hpre)

def alice : SockaddrIn := ⟨(10, 0, 0, 1), (31, 144)⟩

def bob : SockaddrIn := ⟨(10, 0, 0, 2), (31, 144)⟩

def aliceHi : Datagram := ⟨alice, text "hi"⟩

def bobHi : Datagram := ⟨bob, text "hi"⟩

def aliceEmpty : Datagram := ⟨alice, []⟩

def aliceQuit : Datagram := ⟨alice, quit⟩

/-- Bob came in after Alice, so she can leave; in between she may send nothing. -/
theorem membership_iff_alice : KeepsRoster [aliceHi, bobHi, aliceEmpty, aliceQuit] := by
  have hshort : ∀ d ∈ [aliceHi, bobHi, aliceEmpty, aliceQuit], Short d := by
    intro d hd
    simp only [List.mem_cons, List.not_mem_nil, or_false] at hd
    rcases hd with rfl | rfl | rfl | rfl <;> constructor <;> decide
  have halice : presence.Roster [aliceHi] [alice] :=
    Presence.Roster.nil.join (d := aliceHi) (by simp) (by decide)
  have hboth : presence.Roster [aliceHi, bobHi] [alice, bob] :=
    halice.join (d := bobHi) (by decide) (by decide)
  have hstill : presence.Roster [aliceHi, bobHi, aliceEmpty] ([] ++ alice :: [bob]) :=
    hboth.stay (d := aliceEmpty) (by decide) (by decide)
  refine (membership_iff hshort).mpr ?_ _ (List.prefix_refl _)
  intro pre d hpre
  match pre with
  | [] =>
      simp only [List.nil_append, List.cons_prefix_cons] at hpre
      exact hpre.1 ▸ harmless_of_message (by decide) (by decide) _
  | [_] =>
      simp only [List.cons_append, List.nil_append, List.cons_prefix_cons] at hpre
      exact hpre.2.1 ▸ harmless_of_message (by decide) (by decide) _
  | [_, _] =>
      simp only [List.cons_append, List.nil_append, List.cons_prefix_cons] at hpre
      obtain ⟨rfl, rfl, rfl, -⟩ := hpre
      exact ⟨fun _ => (hboth.mem_iff _).mp (by decide), fun h => absurd h (by decide)⟩
  | [_, _, _] =>
      simp only [List.cons_append, List.nil_append, List.cons_prefix_cons] at hpre
      obtain ⟨rfl, rfl, rfl, rfl, -⟩ := hpre
      exact ⟨fun h => absurd h (by decide), fun _ => hstill.hasSuccessor_iff.mpr (by simp)⟩
  | _ :: _ :: _ :: _ :: _ =>
      have hlength := hpre.length_le
      simp at hlength
      omega

/-- Alice says hi and leaves: the iterator goes past the end. -/
theorem alone_cannot_leave :
    ¬ ∀ ds : List Datagram, (∀ d ∈ ds, Short d) →
      ∀ pre, pre <+: ds → KeepsRoster pre := by
  intro h
  have hshort : ∀ d ∈ [aliceHi, aliceQuit], Short d := by
    intro d hd
    simp only [List.mem_cons, List.not_mem_nil, or_false] at hd
    rcases hd with rfl | rfl <;> constructor <;> decide
  obtain ⟨s, hrun, -⟩ := h [aliceHi, aliceQuit] hshort _ (List.prefix_refl _)
  have hdone : ((start [aliceHi, aliceQuit]).run {}).isDone = true := by
    rw [hrun]
    rfl
  revert hdone
  decide

end UdpServer

end LinuxAdvance.Chat
