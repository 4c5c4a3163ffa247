import LinuxAdvance.Echo.EpollServer
import LinuxAdvance.Echo.Occupancy

/-!
# When `accept` fails

`TcpSocket::Accepter` then returns a null pointer, and all three servers ask it for
its descriptor.  The select server and the poll server are here once more, with an
`accept` that may fail in any pass; while it does not, they are the servers they
were.
-/

namespace LinuxAdvance.Echo

open LinuxAdvance.Foundation
open LinuxAdvance.System

def acceptAnswer (choice : NewFd) (failure : Option Nat) : AcceptAnswer :=
  match failure with
  | none => .conn choice
  | some errno => .fail errno

/-- The call comes back, and what `view` shows is as it was. -/
def Unchanged {σ β : Type} (view : σ → β) (p : Proc Fault σ Unit) (s : σ) : Prop :=
  ∃ s', p.run s = .done () s' ∧ view s' = view s

variable {N : Nat} [NeZero N]

namespace SelectServer.Fallible

def accepter (answer : AcceptAnswer) : Proc Fault (SelectServer N) (Option Fd) := do
  match answer with
  | .fail _ => return none
  | .conn choice => do
      let s ← Proc.get
      let newsockfd := choice.choose s.table.opened
      log (.accept newsockfd)
      return some newsockfd

def acceptClient (answer : AcceptAnswer) : Proc Fault (SelectServer N) Unit := do
  let sockefd ← accepter answer
  let fd ← Proc.ofExcept (sockFd sockefd)
  let s ← Proc.get
  match freeSlot s.fdArray with
  | none => log (.close fd)
  | some pos => setSlot pos (some fd)

def visit (rfds : Finset Fd) (answers : Answers N) (failure : Option Nat) (i : Fin N) :
    Proc Fault (SelectServer N) Unit := do
  let s ← Proc.get
  match s.fdArray i with
  | none => return ()
  | some fd =>
      if ← Proc.ofExcept (fdIsset N fd rfds) then
        if fd = s.listensock then acceptClient (acceptAnswer answers.accept failure)
        else serviceIo i (answers.recv i)

def handlerRead (rfds : Finset Fd) (answers : Answers N) (failure : Option Nat) :
    Proc Fault (SelectServer N) Unit :=
  Proc.forEach (visit rfds answers failure) (List.finRange N)

def loopOnce (round : SelectRound N × Option Nat) : Proc Fault (SelectServer N) Unit := do
  let s ← Proc.get
  let (rfds, maxfd) ← Proc.ofExcept (collect s.fdArray (List.finRange N) ∅ (-1))
  match round.1.readable with
  | none => return ()
  | some readable =>
      let rfds := select (maxfd + 1) rfds readable
      if 0 < rfds.card then handlerRead rfds round.1.answers round.2

def loop (rounds : List (SelectRound N × Option Nat)) : Proc Fault (SelectServer N) Unit :=
  Proc.forEach loopOnce rounds

/-! ## As before, while `accept` does not fail -/

theorem loopOnce_none (round : SelectRound N) :
    loopOnce (round, none) = SelectServer.loopOnce round := rfl

theorem run_acceptClient_fail (errno : Nat) (s : SelectServer N) :
    (acceptClient (.fail errno)).run s = .raised .nullPointer s := rfl

theorem visit_done {rfds : Finset Fd} {answers : Answers N} {failure : Option Nat} {i : Fin N}
    {s s' : SelectServer N} (hrun : (visit rfds answers failure i).run s = .done () s') :
    (SelectServer.visit rfds answers i).run s = .done () s' := by
  cases failure with
  | none => exact hrun
  | some errno =>
      cases hi : s.fdArray i with
      | none => simpa [visit, SelectServer.visit, hi] using hrun
      | some fd =>
          simp only [visit, Proc.run_get_bind, hi, Proc.run_bind_eq_done] at hrun
          obtain ⟨isset, t, hisset, hrest⟩ := hrun
          simp only [SelectServer.visit, Proc.run_get_bind, hi, Proc.run_bind_done hisset]
          split
          · next hset =>
              rw [if_pos hset] at hrest
              split at hrest
              · simp [acceptAnswer, run_acceptClient_fail] at hrest
              · next hlisten => simpa [hlisten] using hrest
          · next hset => simpa [hset] using hrest

theorem loopOnce_done {round : SelectRound N × Option Nat} {s s' : SelectServer N}
    (hrun : (loopOnce round).run s = .done () s') :
    (SelectServer.loopOnce round.1).run s = .done () s' := by
  simp only [loopOnce, Proc.run_get_bind, Proc.run_bind_eq_done] at hrun
  obtain ⟨sets, t, hcollect, hrest⟩ := hrun
  simp only [SelectServer.loopOnce, iteration, Proc.run_get_bind, Proc.run_bind_done hcollect]
  cases hround : round.1.readable with
  | none => simpa [hround] using hrest
  | some readable =>
      simp only [hround] at hrest ⊢
      split
      · next hcard =>
          rw [if_pos hcard, handlerRead, ← List.map_id (List.finRange N)] at hrest
          have hmapped := Proc.forEach_done_map (fun _ _ _ => visit_done) hrest
          simpa [SelectServer.handlerRead] using hmapped
      · next hcard => simpa [hcard] using hrest

theorem loop_done {rounds : List (SelectRound N × Option Nat)} {s s' : SelectServer N}
    (hrun : (loop rounds).run s = .done () s') :
    (SelectServer.loop (rounds.map Prod.fst)).run s = .done () s' :=
  Proc.forEach_done_map (fun _ _ _ => loopOnce_done) hrun

/-! ## The listener is ready and `accept` fails -/

theorem not_loopOnce_done {s : SelectServer N} (h : s.table.Inv) {round : SelectRound N}
    (hready : s.ready round 0 = true) (errno : Nat) (s' : SelectServer N) :
    (loopOnce (round, some errno)).run s ≠ .done () s' := by
  intro hrun
  have hfits : s.Fits round := (loopOnce_done_iff h).mp ⟨s', loopOnce_done hrun⟩
  have hlisten : s.fdArray 0 = some s.listensock := h.listener
  obtain ⟨rfds, maxfd, hcollect, hmem⟩ := collect_all hfits.stored
  cases hround : round.readable with
  | none => simp [ready, hround] at hready
  | some readable =>
      simp only [ready, hround, hlisten] at hready
      have hset : s.listensock ∈ select (maxfd + 1) rfds readable :=
        (hmem readable s.listensock).mpr ⟨⟨0, hlisten⟩, hready⟩
      obtain ⟨rest, hrange, -, -⟩ := SlotTable.finRange_eq_cons N
      have hvisit : (visit (select (maxfd + 1) rfds readable) round.answers (some errno) 0).run s =
          .raised .nullPointer s := by
        simp [visit, hlisten, fdIsset, hfits.stored 0 _ hlisten, hset, acceptAnswer,
          run_acceptClient_fail]
      have hhandler : (handlerRead (select (maxfd + 1) rfds readable) round.answers
          (some errno)).run s = .raised .nullPointer s := by
        rw [handlerRead, hrange, Proc.forEach_cons, Proc.run_bind_raised hvisit]
      have hcard : 0 < (select (maxfd + 1) rfds readable).card := Finset.card_pos.mpr ⟨_, hset⟩
      simp only [loopOnce, Proc.run_get_bind, hcollect, Proc.ofExcept_ok, Proc.pure_bind, hround,
        if_pos hcard, hhandler] at hrun
      cases hrun

end SelectServer.Fallible

namespace PollServer.Fallible

def accepter (answer : AcceptAnswer) : Proc Fault (PollServer N) (Option Fd) := do
  match answer with
  | .fail _ => return none
  | .conn choice => do
      let p ← Proc.get
      let newsockfd := choice.choose p.table.opened
      log (.accept newsockfd)
      return some newsockfd

def acceptClient (answer : AcceptAnswer) : Proc Fault (PollServer N) Unit := do
  let sockefd ← accepter answer
  let fd ← Proc.ofExcept (sockFd sockefd)
  let p ← Proc.get
  match freeSlot p.table.slots with
  | none => log (.close fd)
  | some pos => setSlot pos { fd := some fd, events := pollin }

def visit (answers : Answers N) (failure : Option Nat) (i : Fin N) :
    Proc Fault (PollServer N) Unit := do
  let p ← Proc.get
  match (p.fds i).fd with
  | none => return ()
  | some fd =>
      if (p.fds i).revents &&& pollin ≠ 0 then
        if fd = p.listensock then acceptClient (acceptAnswer answers.accept failure)
        else serviceIo i (answers.recv i)
      else if (p.fds i).revents &&& pollout ≠ 0 then return ()

def handlerRead (answers : Answers N) (failure : Option Nat) : Proc Fault (PollServer N) Unit :=
  Proc.forEach (visit answers failure) (List.finRange N)

def loopOnce (round : PollRound N × Option Nat) : Proc Fault (PollServer N) Unit := do
  match round.1.condition with
  | none => return ()
  | some condition => do
      Proc.modify fun p => { p with fds := polled condition p.fds }
      let p ← Proc.get
      if 0 < (Finset.univ.filter fun i => (p.fds i).revents ≠ 0).card then
        handlerRead round.1.answers round.2

def loop (rounds : List (PollRound N × Option Nat)) : Proc Fault (PollServer N) Unit :=
  Proc.forEach loopOnce rounds

/-! ## As before, while `accept` does not fail -/

theorem loopOnce_none (round : PollRound N) :
    loopOnce (round, none) = PollServer.loopOnce round := rfl

theorem run_acceptClient_fail (errno : Nat) (p : PollServer N) :
    (acceptClient (.fail errno)).run p = .raised .nullPointer p := rfl

theorem visit_done {answers : Answers N} {failure : Option Nat} {i : Fin N}
    {p p' : PollServer N} (hrun : (visit answers failure i).run p = .done () p') :
    (PollServer.visit answers i).run p = .done () p' := by
  cases failure with
  | none => exact hrun
  | some errno =>
      cases hi : (p.fds i).fd with
      | none => simpa [visit, PollServer.visit, hi] using hrun
      | some fd =>
          simp only [visit, Proc.run_get_bind, hi] at hrun
          simp only [PollServer.visit, Proc.run_get_bind, hi]
          by_cases hlisten : (p.fds i).revents &&& pollin ≠ 0 ∧ fd = p.listensock
          · rw [if_pos hlisten.1, if_pos hlisten.2] at hrun
            simp [acceptAnswer, run_acceptClient_fail] at hrun
          · by_cases hin : (p.fds i).revents &&& pollin ≠ 0
            · have hother : fd ≠ p.listensock := fun heq => hlisten ⟨hin, heq⟩
              simpa only [if_pos hin, if_neg hother] using hrun
            · simpa only [if_neg hin] using hrun

theorem loopOnce_done {round : PollRound N × Option Nat} {p p' : PollServer N}
    (hrun : (loopOnce round).run p = .done () p') :
    (PollServer.loopOnce round.1).run p = .done () p' := by
  cases hround : round.1.condition with
  | none => simpa [loopOnce, PollServer.loopOnce, iteration, hround] using hrun
  | some condition =>
      simp only [loopOnce, hround, Proc.run_modify_bind, Proc.run_get_bind] at hrun
      simp only [PollServer.loopOnce, iteration, hround, Proc.run_modify_bind, Proc.run_get_bind]
      split
      · next hcard =>
          rw [if_pos hcard, handlerRead] at hrun
          have hmapped := Proc.forEach_done_map (h := id) (fun _ _ _ => visit_done) hrun
          rwa [List.map_id] at hmapped
      · next hcard => rwa [if_neg hcard] at hrun

theorem loop_done {rounds : List (PollRound N × Option Nat)} {p p' : PollServer N}
    (hrun : (loop rounds).run p = .done () p') :
    (PollServer.loop (rounds.map Prod.fst)).run p = .done () p' :=
  Proc.forEach_done_map (fun _ _ _ => loopOnce_done) hrun

theorem inv_of_loop {rounds : List (PollRound N × Option Nat)} {start p : PollServer N}
    (h : start.Inv) (hrun : (loop rounds).run start = .done () p) : p.Inv := by
  obtain ⟨q, hq, hinv⟩ := exists_loop h (rounds.map Prod.fst)
  rw [loop_done hrun] at hq
  cases hq
  exact hinv

/-! ## The listener is ready and `accept` fails -/

theorem run_visit_fail {p : PollServer N} (hlisten : (p.fds 0).fd = some p.listensock)
    (hin : (p.fds 0).revents &&& pollin ≠ 0) (answers : Answers N) (errno : Nat) :
    (visit answers (some errno) 0).run p = .raised .nullPointer p := by
  simp only [visit, Proc.run_get_bind, hlisten, if_pos hin, if_true]
  exact run_acceptClient_fail errno p

theorem not_loopOnce_done {p : PollServer N} (h : p.Inv) {round : PollRound N}
    (hready : p.ready round 0 = true) (errno : Nat) (p' : PollServer N) :
    (loopOnce (round, some errno)).run p ≠ .done () p' := by
  intro hrun
  have hlisten : (p.fds 0).fd = some p.listensock := h.table.listener
  cases hround : round.condition with
  | none => simp [ready, hround] at hready
  | some condition =>
      simp only [ready, hround, look, Bool.and_eq_true, decide_eq_true_eq] at hready
      have hnonzero : (polled condition p.fds 0).revents ≠ 0 := by
        intro hzero
        simp [hzero] at hready
      have hcard : 0 < (Finset.univ.filter fun i => (polled condition p.fds i).revents ≠ 0).card :=
        Finset.card_pos.mpr ⟨0, by simpa using hnonzero⟩
      have hfd : (polled condition p.fds 0).fd = some p.listensock := hlisten
      obtain ⟨rest, hrange, -, -⟩ := SlotTable.finRange_eq_cons N
      simp only [loopOnce, hround, Proc.run_modify_bind, Proc.run_get_bind, if_pos hcard,
        handlerRead, hrange, Proc.forEach_cons] at hrun
      have hvisit := run_visit_fail (p := { p with fds := polled condition p.fds }) hfd hready.2
        round.answers errno
      rw [Proc.run_bind_raised hvisit] at hrun
      cases hrun

end PollServer.Fallible

namespace EpollServer

theorem run_acceptClient_fail (errno : Nat) (added : Bool) (s : EpollServer) :
    (acceptClient (.fail errno) added).run s = .raised .nullPointer s := rfl

/-- `epoll_wait` reports that a client can be accepted. -/
def ListenerReady (s : EpollServer) (round : EpollRound) : Prop :=
  ∃ event ∈ s.reported round, event.fd = s.listensock ∧ event.events &&& epollin ≠ 0

theorem not_loopOnce_done {s : EpollServer} {round : EpollRound} (hready : s.ListenerReady round)
    {errno : Nat} (hfail : round.answers.accept = .fail errno) (s' : EpollServer) :
    (loopOnce round).run s ≠ .done () s' := by
  intro hrun
  obtain ⟨event, hmem, hlisten, hin⟩ := hready
  have hkept : ∀ e t t', t.listensock = s.listensock →
      (visit round.answers e).run t = .done () t' → t'.listensock = s.listensock :=
    fun _ _ _ ht hvisit => (listensock_visit hvisit).trans ht
  obtain ⟨t, t', ht, hvisit⟩ := Proc.forEach_done_of_mem hkept rfl hrun hmem
  have hsame : event.fd = t.listensock := hlisten.trans ht.symm
  simp only [visit, Proc.run_get_bind, if_pos hin, if_pos hsame, hfail,
    run_acceptClient_fail] at hvisit
  cases hvisit

end EpollServer

/-- In no state does `AcceptClient` come back from a failed `accept`, and from no
state of a run does a pass come back in which the listener was ready. -/
theorem failed_accept_never_survived (N : Nat) [NeZero N] (listensock : Fd) (others : Finset Fd)
    (errno : Nat) :
    ((∀ s : SelectServer N,
        ¬ Unchanged SelectServer.fdArray (SelectServer.Fallible.acceptClient (.fail errno)) s) ∧
      ∀ rounds s, (SelectServer.Fallible.loop rounds).run (.initial N listensock others) =
          .done () s → ∀ round, s.ready round 0 = true →
        ∀ s', (SelectServer.Fallible.loopOnce (round, some errno)).run s ≠ .done () s') ∧
    ((∀ p : PollServer N,
        ¬ Unchanged PollServer.fds (PollServer.Fallible.acceptClient (.fail errno)) p) ∧
      ∀ rounds p, (PollServer.Fallible.loop rounds).run (.initial N listensock others) =
          .done () p → ∀ round, p.ready round 0 = true →
        ∀ p', (PollServer.Fallible.loopOnce (round, some errno)).run p ≠ .done () p') ∧
    (∀ s : EpollServer, ∀ added,
        ¬ Unchanged EpollServer.interest (EpollServer.acceptClient (.fail errno) added) s) ∧
      ∀ rounds s, (EpollServer.loop rounds).run (.initial listensock others) = .done () s →
        ∀ round, s.ListenerReady round → round.answers.accept = .fail errno →
          ∀ s', (EpollServer.loopOnce round).run s ≠ .done () s' := by
  refine ⟨⟨?_, ?_⟩, ⟨?_, ?_⟩, ?_, ?_⟩
  · rintro s ⟨s', hrun, -⟩
    cases hrun
  · intro rounds s hrun round hready
    have hinv := SelectServer.inv_of_loop (SelectServer.inv_initial listensock others)
      (SelectServer.Fallible.loop_done hrun)
    exact SelectServer.Fallible.not_loopOnce_done hinv hready errno
  · rintro p ⟨p', hrun, -⟩
    cases hrun
  · intro rounds p hrun round hready
    have hinv := PollServer.Fallible.inv_of_loop (PollServer.inv_initial listensock others).2 hrun
    exact PollServer.Fallible.not_loopOnce_done hinv hready errno
  · rintro s added ⟨s', hrun, -⟩
    cases hrun
  · intro _ s _ round hready hfail
    exact EpollServer.not_loopOnce_done hready hfail

def abortedRound : EpollRound := ⟨some fun _ => epollin, [3], ⟨.fail 103, true, fun _ => .eof⟩⟩

theorem failed_accept_never_survived_first :
    (¬ ∃ s, (SelectServer.Fallible.loopOnce (someRound 1024, some 103)).run
      (.initial 1024 3 {0, 1, 2}) = .done () s) ∧
    (¬ ∃ p, (PollServer.Fallible.loopOnce
        (⟨some fun _ => pollin, (someRound 1024).answers⟩, some 103)).run
      (.initial 1024 3 {0, 1, 2}) = .done () p) ∧
    ¬ ∃ s, (EpollServer.loopOnce abortedRound).run (.initial 3 {0, 1, 2}) = .done () s := by
  obtain ⟨⟨-, hselect⟩, ⟨-, hpoll⟩, -, hepoll⟩ :=
    failed_accept_never_survived 1024 3 {0, 1, 2} 103
  have hreported : (EpollServer.initial 3 {0, 1, 2}).reported abortedRound = [⟨epollin, 3⟩] := rfl
  refine ⟨?_, ?_, ?_⟩
  · rintro ⟨s, hrun⟩
    exact hselect [] _ rfl (someRound 1024)
      (by simp [SelectServer.ready, someRound, SelectServer.initial]) s hrun
  · rintro ⟨p, hrun⟩
    exact hpoll [] _ rfl ⟨some fun _ => pollin, (someRound 1024).answers⟩
      (by simp [PollServer.ready, PollServer.look, PollServer.polled, PollServer.initial, pollin,
        pollAlways]) p hrun
  · rintro ⟨s, hrun⟩
    exact hepoll [] _ rfl abortedRound ⟨⟨epollin, 3⟩, by simp [hreported], rfl, by decide⟩ rfl s
      hrun

/-- A first client goes away before it is accepted: `ECONNABORTED`. -/
theorem aborted_connection_not_survived :
    ¬ Unchanged SelectServer.fdArray (SelectServer.Fallible.acceptClient (.fail 103))
        (.initial 1024 3 {0, 1, 2}) ∧
      ¬ Unchanged PollServer.fds (PollServer.Fallible.acceptClient (.fail 103))
        (.initial 1024 3 {0, 1, 2}) ∧
      ¬ Unchanged EpollServer.interest (EpollServer.acceptClient (.fail 103) true)
        (.initial 3 {0, 1, 2, 4}) := by
  refine ⟨?_, ?_, ?_⟩ <;>
  · rintro ⟨s', hrun, -⟩
    cases hrun

end LinuxAdvance.Echo
