import LinuxAdvance.Echo.EpollServer

/-!
# The interest set of the epoll server

Between two events of a run the set is the listener and clients that are open, and
while `epoll_ctl` takes every descriptor it is all of them.  A round serves each
client that is reported readable once, in the order in which they are reported.
A client that `epoll_ctl` did not take is never served and never closed.
-/

namespace LinuxAdvance.Echo

open LinuxAdvance.Foundation
open LinuxAdvance.Cxx
open LinuxAdvance.System

def Call.fd : Call → Fd
  | accept fd => fd
  | recv fd => fd
  | send fd _ => fd
  | close fd => fd

def served (calls : List Call) : List Fd :=
  calls.filterMap fun
    | .recv fd => some fd
    | _ => none

@[simp] theorem served_append (calls more : List Call) :
    served (calls ++ more) = served calls ++ served more := List.filterMap_append

theorem ledger_append (calls more : List Call) :
    ledger (calls ++ more) = ledger calls ++ ledger more := List.filterMap_append

theorem ledger_data (fd : Fd) (bytes : Bytes) : ledger [.recv fd, .send fd bytes] = [] := rfl

theorem ledger_closed (fd : Fd) : ledger [.recv fd, .close fd] = [.release fd] := rfl

def EpollEvent.readable (event : EpollEvent) : Bool := decide (event.events &&& epollin ≠ 0)

/-- `accept` does not fail, which the server would not survive. -/
def EpollRound.Accepts (round : EpollRound) : Prop := ∃ choice, round.answers.accept = .conn choice

namespace EpollServer

variable {s t : EpollServer}

/-! ## What one event does -/

def accepted (s : EpollServer) (choice : NewFd) (added : Bool) : EpollServer :=
  let newsockfd := choice.choose s.opened
  { s with
    calls := s.calls ++ [.accept newsockfd]
    interest := if added then Function.update s.interest newsockfd (some epollin) else s.interest }

def serviced (s : EpollServer) (fd : Fd) : RecvResult → EpollServer
  | .data chunk => { s with calls := s.calls ++ [.recv fd, .send fd (echo chunk)] }
  | _ =>
      { s with
        calls := s.calls ++ [.recv fd, .close fd]
        interest := Function.update s.interest fd none }

theorem run_serviceIo (s : EpollServer) (fd : Fd) (answer : RecvResult) :
    (serviceIo fd answer).run s = .done () (s.serviced fd answer) := by
  cases answer <;> simp [serviceIo, log, setInterest, serviced]

theorem run_acceptClient (s : EpollServer) (choice : NewFd) (added : Bool) :
    (acceptClient (.conn choice) added).run s = .done () (s.accepted choice added) := by
  cases added <;> rfl

inductive Visits (answers : EpollAnswers) (event : EpollEvent) (s : EpollServer) :
    EpollServer → Prop
  | accept {choice : NewFd} (hread : event.readable = true) (hfd : event.fd = s.listensock) :
      Visits answers event s (s.accepted choice answers.added)
  | service (hread : event.readable = true) (hfd : event.fd ≠ s.listensock) :
      Visits answers event s (s.serviced event.fd (answers.recv event.fd))
  | skip (hread : event.readable = false) : Visits answers event s s

theorem visits_of_run {answers : EpollAnswers} {event : EpollEvent}
    (hrun : (visit answers event).run s = .done () t) : Visits answers event s t := by
  simp only [visit, Proc.run_get_bind] at hrun
  split at hrun
  · next hread =>
      split at hrun
      · next hfd =>
          cases haccept : answers.accept with
          | fail errno =>
              rw [haccept] at hrun
              cases hrun
          | conn choice =>
              rw [haccept, run_acceptClient] at hrun
              cases hrun
              exact .accept (decide_eq_true hread) hfd
      · next hfd =>
          rw [run_serviceIo] at hrun
          cases hrun
          exact .service (decide_eq_true hread) hfd
  · next hread =>
      split at hrun <;> cases hrun <;> exact .skip (decide_eq_false hread)

theorem exists_visit {answers : EpollAnswers} (haccept : ∃ choice, answers.accept = .conn choice)
    (event : EpollEvent) (s : EpollServer) : ∃ t, (visit answers event).run s = .done () t := by
  obtain ⟨choice, hchoice⟩ := haccept
  simp only [visit, Proc.run_get_bind]
  split
  · split
    · exact ⟨_, hchoice ▸ run_acceptClient s choice answers.added⟩
    · exact ⟨_, run_serviceIo s _ _⟩
  · split <;> exact ⟨s, rfl⟩

section Clients

variable (s) (fd : Fd)

theorem clients_accepted (choice : NewFd) (added : Bool) :
    (s.accepted choice added).clients = insert (choice.choose s.opened) s.clients := by
  simp [clients, accepted, ledger_concat, Call.entry?]

theorem clients_serviced (answer : RecvResult) :
    (s.serviced fd answer).clients =
      match answer with
      | .data _ => s.clients
      | _ => s.clients.erase fd := by
  cases answer <;> simp [clients, serviced, ledger_append, ledger_data, ledger_closed]

end Clients

/-! ## The invariant -/

structure Inv (s : EpollServer) : Prop where
  listener : s.interest s.listensock = some epollin
  client : ∀ fd, fd ≠ s.listensock → s.interest fd ≠ none →
    s.interest fd = some epollin ∧ fd ∈ s.clients
  apart : s.listensock ∉ s.clients
  sound : Ledger.Sound (ledger s.calls)

def Complete (s : EpollServer) : Prop := ∀ fd ∈ s.clients, s.interest fd ≠ none

theorem inv_initial (listensock : Fd) (others : Finset Fd) : Inv (initial listensock others) where
  listener := by simp [initial]
  client := fun fd hfd hwatched => absurd (Function.update_of_ne hfd _ fun _ => none) hwatched
  apart := by simp [clients, initial, ledger]
  sound := Ledger.sound_nil

theorem new_notMem (s : EpollServer) (choice : NewFd) :
    choice.choose s.opened ≠ s.listensock ∧ choice.choose s.opened ∉ s.clients := by
  have hnew := choice.notMem s.opened
  simp only [opened, Finset.mem_insert, Finset.mem_union, not_or] at hnew
  exact ⟨hnew.1, hnew.2.2⟩

theorem Inv.accepted (h : Inv s) (choice : NewFd) (added : Bool) : Inv (s.accepted choice added) := by
  obtain ⟨hlisten, hclient⟩ := s.new_notMem choice
  constructor
  · simp only [EpollServer.accepted]
    split
    · rw [Function.update_of_ne hlisten.symm, h.listener]
    · exact h.listener
  · intro fd hfd hwatched
    rw [clients_accepted, Finset.mem_insert]
    by_cases hnew : fd = choice.choose s.opened
    · subst hnew
      refine ⟨?_, .inl rfl⟩
      simp only [EpollServer.accepted] at hwatched ⊢
      split at hwatched
      · simp [*]
      · exact absurd (h.client _ hfd hwatched).2 hclient
    · have hsame : (s.accepted choice added).interest fd = s.interest fd := by
        simp only [EpollServer.accepted]
        split
        · exact Function.update_of_ne hnew _ _
        · rfl
      rw [hsame] at hwatched ⊢
      obtain ⟨hmask, hmem⟩ := h.client fd hfd hwatched
      exact ⟨hmask, .inr hmem⟩
  · rw [clients_accepted, Finset.mem_insert, not_or]
    exact ⟨hlisten.symm, h.apart⟩
  · simpa [EpollServer.accepted, ledger_concat, Call.entry?] using h.sound

theorem Inv.serviced (h : Inv s) {fd : Fd} (hfd : fd ≠ s.listensock) (hwatched : s.interest fd ≠ none)
    (answer : RecvResult) : Inv (s.serviced fd answer) := by
  have hclosed : Inv { s with
      calls := s.calls ++ [.recv fd, .close fd]
      interest := Function.update s.interest fd none } := by
    have hclients : clients { s with
        calls := s.calls ++ [.recv fd, .close fd]
        interest := Function.update s.interest fd none } = s.clients.erase fd :=
      clients_serviced s fd .eof
    constructor
    · exact (Function.update_of_ne hfd.symm _ _).trans h.listener
    · intro other hother hstill
      have hne : other ≠ fd := by
        rintro rfl
        simp at hstill
      simp only [Function.update_of_ne hne] at hstill ⊢
      obtain ⟨hmask, hmem⟩ := h.client other hother hstill
      exact ⟨hmask, hclients ▸ Finset.mem_erase.mpr ⟨hne, hmem⟩⟩
    · exact hclients ▸ fun hmem => h.apart (Finset.mem_of_mem_erase hmem)
    · have hmem : fd ∈ Ledger.held (ledger s.calls) := (h.client fd hfd hwatched).2
      simp [ledger_append, ledger_closed, h.sound, hmem]
  cases answer with
  | data chunk =>
      have hclients : (s.serviced fd (.data chunk)).clients = s.clients := clients_serviced s fd _
      constructor
      · exact h.listener
      · exact fun other hother hstill => hclients ▸ h.client other hother hstill
      · exact hclients ▸ h.apart
      · simpa [EpollServer.serviced, ledger_append, ledger_data] using h.sound
  | eof => exact hclosed
  | fail errno => exact hclosed

/-! ## One round -/

section Round

variable {answers : EpollAnswers} {event : EpollEvent}

theorem Visits.inv (hvisit : Visits answers event s t) (h : Inv s)
    (hwatched : s.interest event.fd ≠ none) : Inv t := by
  cases hvisit with
  | accept _ _ => exact h.accepted _ _
  | service _ hfd => exact h.serviced hfd hwatched _
  | skip _ => exact h

theorem Visits.listensock (hvisit : Visits answers event s t) : t.listensock = s.listensock := by
  cases hvisit with
  | accept _ _ => rfl
  | service _ _ => cases answers.recv event.fd <;> rfl
  | skip _ => rfl

theorem Visits.watched (hvisit : Visits answers event s t) {fd : Fd} (hne : fd ≠ event.fd)
    (hwatched : s.interest fd ≠ none) : t.interest fd ≠ none := by
  cases hvisit with
  | @accept choice _ _ =>
      simp only [accepted]
      split
      · by_cases hnew : fd = choice.choose s.opened
        · simp [hnew]
        · rwa [Function.update_of_ne hnew]
      · exact hwatched
  | service _ _ =>
      cases answers.recv event.fd with
      | data chunk => exact hwatched
      | eof => exact (Function.update_of_ne hne _ _).trans_ne hwatched
      | fail errno => exact (Function.update_of_ne hne _ _).trans_ne hwatched
  | skip _ => exact hwatched

theorem Visits.watched_rest (hvisit : Visits answers event s t) {events : List EpollEvent}
    (hapart : event.fd ∉ events.map EpollEvent.fd)
    (hwatched : ∀ other ∈ events, s.interest other.fd ≠ none) :
    ∀ other ∈ events, t.interest other.fd ≠ none := by
  intro other hother
  refine hvisit.watched (fun heq => hapart ?_) (hwatched other hother)
  exact heq ▸ List.mem_map_of_mem hother

theorem Visits.complete (hvisit : Visits answers event s t) (hadded : answers.added = true)
    (h : Complete s) : Complete t := by
  intro fd hfd
  cases hvisit with
  | @accept choice _ _ =>
      rw [clients_accepted, Finset.mem_insert] at hfd
      simp only [accepted, hadded, if_true]
      by_cases hnew : fd = choice.choose s.opened
      · simp [hnew]
      · rw [Function.update_of_ne hnew]
        exact h fd (hfd.resolve_left hnew)
  | service _ _ =>
      rw [clients_serviced] at hfd
      cases hanswer : answers.recv event.fd with
      | data chunk =>
          rw [hanswer] at hfd
          exact h fd hfd
      | eof =>
          rw [hanswer] at hfd
          obtain ⟨hne, hmem⟩ := Finset.mem_erase.mp hfd
          exact (Function.update_of_ne hne _ _).trans_ne (h fd hmem)
      | fail errno =>
          rw [hanswer] at hfd
          obtain ⟨hne, hmem⟩ := Finset.mem_erase.mp hfd
          exact (Function.update_of_ne hne _ _).trans_ne (h fd hmem)
  | skip _ => exact h fd hfd

def asks (s : EpollServer) (event : EpollEvent) : Bool :=
  event.readable && decide (event.fd ≠ s.listensock)

theorem Visits.served (hvisit : Visits answers event s t) :
    served t.calls = served s.calls ++ if s.asks event then [event.fd] else [] := by
  cases hvisit with
  | accept _ hfd => simp [accepted, asks, hfd, Echo.served]
  | service hread hfd =>
      cases answers.recv event.fd <;> simp [serviced, asks, hread, hfd, Echo.served]
  | skip hread => simp [asks, hread]

theorem run_handlerRead (haccept : ∃ choice, answers.accept = .conn choice)
    {events : List EpollEvent} (hnodup : (events.map EpollEvent.fd).Nodup) (h : Inv s)
    (hwatched : ∀ event ∈ events, s.interest event.fd ≠ none) :
    ∃ t, (handlerRead events answers).run s = .done () t ∧ Inv t ∧
      Echo.served t.calls =
        Echo.served s.calls ++ (events.filter fun event => s.asks event).map EpollEvent.fd := by
  induction events generalizing s with
  | nil => exact ⟨s, rfl, h, by simp⟩
  | cons event events ih =>
      simp only [List.map_cons, List.nodup_cons] at hnodup
      simp only [List.forall_mem_cons] at hwatched
      obtain ⟨m, hrun⟩ := exists_visit haccept event s
      have hvisit := visits_of_run hrun
      obtain ⟨t, ht, hinv, hserved⟩ := ih hnodup.2 (hvisit.inv h hwatched.1)
        (hvisit.watched_rest hnodup.1 hwatched.2)
      refine ⟨t, ?_, hinv, ?_⟩
      · rw [handlerRead, Proc.forEach_cons, Proc.run_bind_done hrun]
        exact ht
      · have hasks : m.asks = s.asks := by
          funext other
          rw [asks, asks, hvisit.listensock]
        rw [hserved, hvisit.served, hasks, List.append_assoc, List.filter_cons]
        split <;> rfl

end Round

theorem waited_sublist (interest : Fd → Option EpollMask) (order : List Fd)
    (condition : Fd → EpollMask) :
    ((waited interest order condition).map EpollEvent.fd).Sublist order.dedup := by
  have hall : ∀ fds : List Fd, ((fds.filterMap fun fd => (interest fd).map fun mask =>
      (⟨condition fd &&& (mask ||| epollAlways), fd⟩ : EpollEvent)).map EpollEvent.fd).Sublist
        fds := by
    intro fds
    induction fds with
    | nil => exact List.Sublist.refl _
    | cons fd fds ih =>
        cases hmask : interest fd with
        | none =>
            rw [List.filterMap_cons_none (by simp [hmask])]
            exact ih.cons fd
        | some mask =>
            rw [List.filterMap_cons_some (by simp [hmask]; rfl), List.map_cons]
            exact ih.cons_cons fd
  have hpart : (waited interest order condition).Sublist _ :=
    (List.take_sublist _ _).trans List.filter_sublist
  exact (hpart.map EpollEvent.fd).trans (hall order.dedup)

theorem nodup_reported (s : EpollServer) (round : EpollRound) :
    ((s.reported round).map EpollEvent.fd).Nodup := by
  unfold reported
  split
  · exact List.nodup_nil
  · exact round.order.nodup_dedup.sublist (waited_sublist _ _ _)

theorem watched_of_reported {round : EpollRound} {event : EpollEvent}
    (h : event ∈ s.reported round) : s.interest event.fd ≠ none := by
  unfold reported at h
  split at h
  · cases h
  · have hmem := List.mem_of_mem_filter (List.mem_of_mem_take h)
    obtain ⟨fd, -, hfd⟩ := List.mem_filterMap.mp hmem
    obtain ⟨mask, hmask, rfl⟩ := Option.map_eq_some_iff.mp hfd
    simp [hmask]

def askers (s : EpollServer) (round : EpollRound) : List Fd :=
  ((s.reported round).filter fun event => s.asks event).map EpollEvent.fd

theorem run_loopOnce {round : EpollRound} (haccept : round.Accepts) (h : Inv s) :
    ∃ t, (loopOnce round).run s = .done () t ∧ Inv t ∧
      Echo.served t.calls = Echo.served s.calls ++ s.askers round :=
  run_handlerRead haccept (nodup_reported s round) h fun _ => watched_of_reported

/-! ## Whole runs -/

theorem keeps_handlerRead {I : EpollServer → Prop} {answers : EpollAnswers}
    {events : List EpollEvent}
    (hI : ∀ event ∈ events, ∀ s t, Visits answers event s t → I s → I t)
    (hrun : (handlerRead events answers).run s = .done () t) (hs : I s) : I t := by
  induction events generalizing s with
  | nil =>
      cases hrun
      exact hs
  | cons event events ih =>
      rw [handlerRead, Proc.forEach_cons, Proc.run_bind_eq_done] at hrun
      obtain ⟨_, m, hvisit, hrest⟩ := hrun
      simp only [List.forall_mem_cons] at hI
      exact ih hI.2 hrest (hI.1 s m (visits_of_run hvisit) hs)

theorem keeps_loop {I : EpollServer → Prop} {rounds : List EpollRound}
    (hI : ∀ round ∈ rounds, ∀ s t, (loopOnce round).run s = .done () t → I s → I t)
    (hrun : (loop rounds).run s = .done () t) (hs : I s) : I t := by
  induction rounds generalizing s with
  | nil =>
      cases hrun
      exact hs
  | cons round rounds ih =>
      rw [loop, Proc.forEach_cons, Proc.run_bind_eq_done] at hrun
      obtain ⟨_, m, hround, hrest⟩ := hrun
      simp only [List.forall_mem_cons] at hI
      exact ih hI.2 hrest (hI.1 s m hround hs)

theorem exists_loop {rounds : List EpollRound} (hrounds : ∀ round ∈ rounds, round.Accepts)
    (h : Inv s) : ∃ t, (loop rounds).run s = .done () t ∧ Inv t := by
  induction rounds generalizing s with
  | nil => exact ⟨s, rfl, h⟩
  | cons round rounds ih =>
      simp only [List.forall_mem_cons] at hrounds
      obtain ⟨m, hround, hinv, -⟩ := run_loopOnce hrounds.1 h
      obtain ⟨t, hrest, ht⟩ := ih hrounds.2 hinv
      refine ⟨t, ?_, ht⟩
      rw [loop, Proc.forEach_cons, Proc.run_bind_done hround]
      exact hrest

/-- A client connects, and then says something. -/
def connects : EpollRound := ⟨some fun _ => epollin, [3], ⟨.conn .above, true, fun _ => .eof⟩⟩

def speaks : EpollRound :=
  ⟨some fun _ => epollin, [5], ⟨.conn .above, true, fun _ => .data ⟨[104], by decide, by decide⟩⟩⟩

def callsOn (fd : Fd) (calls : List Call) : List Call :=
  calls.filter fun call => decide (call.fd = fd)

/-- Open, and not in the interest set. -/
structure Stray (s : EpollServer) (fd : Fd) : Prop where
  client : fd ∈ s.clients
  unwatched : s.interest fd = none

theorem Visits.stray {answers : EpollAnswers} {event : EpollEvent}
    (hvisit : Visits answers event s t) {fd : Fd} (hne : fd ≠ event.fd) (h : Stray s fd) :
    Stray t fd ∧ callsOn fd t.calls = callsOn fd s.calls := by
  cases hvisit with
  | @accept choice _ _ =>
      have hnew : choice.choose s.opened ≠ fd := by
        rintro rfl
        exact (s.new_notMem choice).2 h.client
      refine ⟨⟨?_, ?_⟩, ?_⟩
      · rw [clients_accepted]
        exact Finset.mem_insert_of_mem h.client
      · simp only [accepted]
        split
        · exact (Function.update_of_ne hnew.symm _ _).trans h.unwatched
        · exact h.unwatched
      · simp [accepted, callsOn, Call.fd, hnew]
  | service _ _ =>
      refine ⟨⟨?_, ?_⟩, ?_⟩
      · rw [clients_serviced]
        cases answers.recv event.fd with
        | data chunk => exact h.client
        | eof => exact Finset.mem_erase.mpr ⟨hne, h.client⟩
        | fail errno => exact Finset.mem_erase.mpr ⟨hne, h.client⟩
      · cases answers.recv event.fd with
        | data chunk => exact h.unwatched
        | eof => exact (Function.update_of_ne hne _ _).trans h.unwatched
        | fail errno => exact (Function.update_of_ne hne _ _).trans h.unwatched
      · cases answers.recv event.fd <;> simp [serviced, callsOn, Call.fd, hne.symm]
  | skip _ => exact ⟨h, rfl⟩

theorem Visits.stray_of_refused {answers : EpollAnswers} {event : EpollEvent}
    (hvisit : Visits answers event s t) (hrefused : answers.added = false) (h : Inv s) {fd : Fd}
    (hmem : fd ∈ t.clients) (hnew : fd ∉ s.clients) : Stray t fd := by
  refine ⟨hmem, ?_⟩
  cases hvisit with
  | @accept choice _ _ =>
      rw [clients_accepted, Finset.mem_insert] at hmem
      obtain rfl := hmem.resolve_right hnew
      by_contra hwatched
      simp only [accepted, hrefused, Bool.false_eq_true, if_false] at hwatched
      exact hnew (h.client _ (s.new_notMem choice).1 hwatched).2
  | service _ _ =>
      rw [clients_serviced] at hmem
      cases hanswer : answers.recv event.fd <;> rw [hanswer] at hmem
      · exact absurd hmem hnew
      · exact absurd (Finset.mem_of_mem_erase hmem) hnew
      · exact absurd (Finset.mem_of_mem_erase hmem) hnew
  | skip _ => exact absurd hmem hnew

theorem stray_of_handlerRead {answers : EpollAnswers} (hrefused : answers.added = false)
    {events : List EpollEvent} (hnodup : (events.map EpollEvent.fd).Nodup) (h : Inv s)
    (hwatched : ∀ event ∈ events, s.interest event.fd ≠ none)
    (hrun : (handlerRead events answers).run s = .done () t) {fd : Fd} (hmem : fd ∈ t.clients)
    (hnew : fd ∉ s.clients) : Stray t fd := by
  induction events generalizing s with
  | nil =>
      cases hrun
      exact absurd hmem hnew
  | cons event events ih =>
      simp only [List.map_cons, List.nodup_cons] at hnodup
      simp only [List.forall_mem_cons] at hwatched
      rw [handlerRead, Proc.forEach_cons, Proc.run_bind_eq_done] at hrun
      obtain ⟨_, m, hone, hrest⟩ := hrun
      have hvisit := visits_of_run hone
      have hstill := hvisit.watched_rest hnodup.1 hwatched.2
      by_cases hcame : fd ∈ m.clients
      · -- The rest of the round finds the client stray and leaves it so.
        have hstray := hvisit.stray_of_refused hrefused h hcame hnew
        refine keeps_handlerRead (I := fun u => Stray u fd) ?_ hrest hstray
        exact fun other hother _ _ hnext hu =>
          (hnext.stray (fun heq => hstill other hother (heq ▸ hstray.unwatched)) hu).1
      · exact ih hnodup.2 (hvisit.inv h hwatched.1) hstill hrest hcame

/-- A client that comes in while `epoll_ctl` refuses its registration is stray. -/
theorem stray_of_refused {round : EpollRound} (hrefused : round.answers.added = false) (h : Inv s)
    (hrun : (loopOnce round).run s = .done () t) {fd : Fd} (hmem : fd ∈ t.clients)
    (hnew : fd ∉ s.clients) : Stray t fd :=
  stray_of_handlerRead hrefused (nodup_reported s round) h (fun _ => watched_of_reported) hrun
    hmem hnew

/-- Nothing is read from such a client or sent to it any more, and it is never
closed. -/
theorem stray_client_stays {rounds : List EpollRound} (hrun : (loop rounds).run s = .done () t)
    {fd : Fd} (h : Stray s fd) : Stray t fd ∧ callsOn fd t.calls = callsOn fd s.calls := by
  refine keeps_loop (I := fun u => Stray u fd ∧ callsOn fd u.calls = callsOn fd s.calls)
    (fun round _ u v hone hu => ?_) hrun ⟨h, rfl⟩
  refine keeps_handlerRead (I := fun w => Stray w fd ∧ callsOn fd w.calls = callsOn fd s.calls)
    (fun event hevent w x hvisit hw => ?_) hone hu
  have hne : fd ≠ event.fd := fun heq => watched_of_reported hevent (heq ▸ hu.1.unwatched)
  obtain ⟨hstray, hcalls⟩ := hvisit.stray hne hw.1
  exact ⟨hstray, hcalls.trans hw.2⟩

/-- `epoll_ctl` does not take the first client, which then speaks in vain. -/
def connectsInVain : EpollRound :=
  ⟨some fun _ => epollin, [3], ⟨.conn .above, false, fun _ => .eof⟩⟩

theorem stray_client_stays_unheard :
    ∃ s t, (loop [connectsInVain]).run (initial 3 {0, 1, 2, 4}) = .done () s ∧
      (loop [speaks, connects]).run s = .done () t ∧ Stray s 5 ∧
      Stray t 5 ∧ callsOn 5 t.calls = callsOn 5 s.calls := by
  have hrun : (loop [connectsInVain]).run (initial 3 {0, 1, 2, 4}) = .done () _ := rfl
  have hround : (loopOnce connectsInVain).run (initial 3 {0, 1, 2, 4}) = .done () _ := rfl
  have hstray : Stray ((loop [connectsInVain]).run (initial 3 {0, 1, 2, 4})).state 5 :=
    stray_of_refused rfl (inv_initial _ _) hround (by decide) (by decide)
  have hmore : (loop [speaks, connects]).run
      ((loop [connectsInVain]).run (initial 3 {0, 1, 2, 4})).state = .done () _ := rfl
  exact ⟨_, _, hrun, hmore, hstray, stray_client_stays hmore hstray⟩

end EpollServer

end LinuxAdvance.Echo
