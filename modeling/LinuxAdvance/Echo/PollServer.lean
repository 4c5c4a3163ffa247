import LinuxAdvance.Echo.SlotTable
import LinuxAdvance.Foundation.Proc

/-!
# The poll server: `PollServer`

Readiness is in the table itself: `poll` writes `revents` of every slot, and
`AcceptClient` and `ServiceIO` overwrite it in the middle of a pass.
-/

namespace LinuxAdvance.Echo

open LinuxAdvance.Foundation
open LinuxAdvance.System

abbrev Mask := BitVec 16

def pollin : Mask := 0x001

def pollout : Mask := 0x004

/-- `POLLERR`, `POLLHUP` and `POLLNVAL`, which need not be asked for. -/
def pollAlways : Mask := 0x038

structure PollFd where
  fd : Option Fd := none
  events : Mask := 0
  revents : Mask := 0

structure PollServer (N : Nat) where
  fds : Fin N → PollFd
  listensock : Fd
  others : Finset Fd
  trace : Trace N := {}

/-- What one iteration of `Loop` meets: the state of each slot's descriptor, or a
`poll` that fails (`none`), and what `accept` and `recv` answer. -/
structure PollRound (N : Nat) where
  condition : Option (Fin N → Mask)
  answers : Answers N

namespace PollServer

variable {N : Nat}

def table (p : PollServer N) : SlotTable N :=
  ⟨fun i => (p.fds i).fd, p.listensock, p.others, p.trace⟩

theorem table_setSlot (p : PollServer N) (pos : Fin N) (slot : PollFd) :
    table { p with fds := Function.update p.fds pos slot } =
      { p.table with slots := Function.update p.table.slots pos slot.fd } := by
  simp only [table, SlotTable.mk.injEq, and_true]
  funext i
  by_cases hi : i = pos <;> simp [hi]

variable [NeZero N]

def initial (N : Nat) [NeZero N] (listensock : Fd) (others : Finset Fd) : PollServer N where
  fds := Function.update (fun _ => {}) 0 { fd := some listensock, events := pollin }
  listensock
  others

def log (call : Call) : Proc Fault (PollServer N) Unit :=
  Proc.modify fun p => { p with trace := p.trace.log call }

def setSlot (pos : Fin N) (slot : PollFd) : Proc Fault (PollServer N) Unit :=
  Proc.modify fun p => { p with fds := Function.update p.fds pos slot }

def acceptClient (choice : NewFd) : Proc Fault (PollServer N) Unit := do
  let p ← Proc.get
  let fd := choice.choose p.table.opened
  log (.accept fd)
  match freeSlot p.table.slots with
  | none => log (.close fd)
  | some pos => setSlot pos { fd := some fd, events := pollin }

def serviceIo (pos : Fin N) (answer : RecvResult) : Proc Fault (PollServer N) Unit := do
  Proc.modify fun p => { p with trace := p.trace.service pos }
  let p ← Proc.get
  match (p.fds pos).fd with
  | none => Proc.raise .badDescriptor
  | some fd => do
      log (.recv fd)
      match answer with
      | .data chunk => log (.send fd (echo chunk))
      | _ => do
          log (.close fd)
          setSlot pos {}

/-- One round of the loop of `HandlerRead`; the branch for `POLLOUT` is empty. -/
def visit (answers : Answers N) (i : Fin N) : Proc Fault (PollServer N) Unit := do
  let p ← Proc.get
  match (p.fds i).fd with
  | none => return ()
  | some fd =>
      if (p.fds i).revents &&& pollin ≠ 0 then
        if fd = p.listensock then acceptClient answers.accept
        else serviceIo i (answers.recv i)
      else if (p.fds i).revents &&& pollout ≠ 0 then return ()

def handlerRead (slots : List (Fin N)) (answers : Answers N) :
    Proc Fault (PollServer N) Unit :=
  Proc.forEach (visit answers) slots

/-- What `poll` writes to `revents`. -/
def polled (condition : Fin N → Mask) (fds : Fin N → PollFd) (i : Fin N) : PollFd :=
  let slot := fds i
  { slot with
    revents := if slot.fd.isSome then condition i &&& (slot.events ||| pollAlways) else 0 }

/-- One iteration of `Loop`, in which `HandlerRead` looks at the given slots. -/
def iteration (slots : List (Fin N)) (round : PollRound N) :
    Proc Fault (PollServer N) Unit := do
  match round.condition with
  | none => return ()
  | some condition => do
      Proc.modify fun p => { p with fds := polled condition p.fds }
      let p ← Proc.get
      if 0 < (Finset.univ.filter fun i => (p.fds i).revents ≠ 0).card then
        handlerRead slots round.answers

def loopOnce (round : PollRound N) : Proc Fault (PollServer N) Unit :=
  iteration (List.finRange N) round

def loop (rounds : List (PollRound N)) : Proc Fault (PollServer N) Unit :=
  Proc.forEach loopOnce rounds

/-! ## The invariant: the slot table's, and `events` -/

def look (p : PollServer N) (i : Fin N) : Bool :=
  (p.fds i).fd.isSome && decide ((p.fds i).revents &&& pollin ≠ 0)

structure Inv (p : PollServer N) : Prop where
  table : p.table.Inv
  events : ∀ i, (p.fds i).events = if (p.fds i).fd.isSome then pollin else 0

/-! ## Each function carries out the slot table's -/

theorem inv_initial (listensock : Fd) (others : Finset Fd) :
    (initial N listensock others).table = .start N listensock others ∧
      (initial N listensock others).Inv := by
  have htable : (initial N listensock others).table = .start N listensock others := by
    simp only [initial, table, SlotTable.start, SlotTable.mk.injEq, and_true]
    funext i
    by_cases hi : i = 0 <;> simp [hi]
  refine ⟨htable, ?_, ?_⟩
  · rw [htable]
    exact SlotTable.inv_start listensock others
  · intro i
    by_cases hi : i = 0 <;> simp [initial, hi]

theorem events_setSlot {p : PollServer N} (h : p.Inv) (pos : Fin N) {slot : PollFd}
    (hslot : slot.events = if slot.fd.isSome then pollin else 0) (i : Fin N) :
    (Function.update p.fds pos slot i).events =
      if (Function.update p.fds pos slot i).fd.isSome then pollin else 0 := by
  by_cases hi : i = pos
  · subst hi
    simpa using hslot
  · simpa [hi] using h.events i

theorem run_acceptClient {p : PollServer N} (h : p.Inv) (choice : NewFd) :
    ∃ p', (acceptClient choice).run p = .done () p' ∧
      p'.table = p.table.accept choice ∧ p'.Inv ∧ ∀ j, p'.look j = p.look j := by
  suffices hall : ∃ p', (acceptClient choice).run p = .done () p' ∧
      p'.table = p.table.accept choice ∧
      (∀ i, (p'.fds i).events = if (p'.fds i).fd.isSome then pollin else 0) ∧
      ∀ j, p'.look j = p.look j by
    obtain ⟨p', hrun, htable, hevents, hlook⟩ := hall
    exact ⟨p', hrun, htable, ⟨htable ▸ h.table.accept choice, hevents⟩, hlook⟩
  simp only [acceptClient, log, setSlot, Proc.run_get_bind, Proc.run_modify_bind,
    SlotTable.accept]
  cases hfree : freeSlot p.table.slots with
  | none => exact ⟨_, rfl, rfl, h.events, fun _ => rfl⟩
  | some pos =>
      refine ⟨_, rfl, table_setSlot _ pos _, events_setSlot h pos rfl, fun j => ?_⟩
      by_cases hj : j = pos
      · have hnone : (p.fds pos).fd = none := (SlotTable.freeSlot_spec hfree).2
        simp [look, hj, hnone]
      · simp [look, hj]

theorem run_serviceIo {p : PollServer N} (h : p.Inv) {pos : Fin N} (hpos : pos ≠ 0)
    (hslot : (p.fds pos).fd ≠ none) (answer : RecvResult) :
    ∃ p', (serviceIo pos answer).run p = .done () p' ∧
      p'.table = p.table.service pos answer ∧ p'.Inv ∧
      ∀ j, j ≠ pos → p'.look j = p.look j := by
  suffices hall : ∃ p', (serviceIo pos answer).run p = .done () p' ∧
      p'.table = p.table.service pos answer ∧
      (∀ i, (p'.fds i).events = if (p'.fds i).fd.isSome then pollin else 0) ∧
      ∀ j, j ≠ pos → p'.look j = p.look j by
    obtain ⟨p', hrun, htable, hevents, hlook⟩ := hall
    exact ⟨p', hrun, htable, ⟨htable ▸ h.table.service hpos answer, hevents⟩, hlook⟩
  obtain ⟨fd, hfd⟩ := Option.ne_none_iff_exists'.mp hslot
  have hslot' : p.table.slots pos = some fd := hfd
  simp only [serviceIo, log, setSlot, Proc.run_modify_bind, Proc.run_get_bind, hfd,
    SlotTable.service, hslot']
  cases answer with
  | data chunk => exact ⟨_, rfl, rfl, h.events, fun _ _ => rfl⟩
  | eof | fail _ =>
      refine ⟨_, rfl, table_setSlot _ pos _, events_setSlot h pos rfl, fun j hj => ?_⟩
      simp [look, hj]

theorem run_visit {p : PollServer N} (h : p.Inv) {i : Fin N} {ready : Fin N → Bool}
    (hready : ready i = p.look i) (answers : Answers N) :
    ∃ p', (visit answers i).run p = .done () p' ∧
      p'.table = p.table.visit ready answers i ∧ p'.Inv ∧
      ∀ j, j ≠ i → p'.look j = p.look j := by
  cases hi : (p.fds i).fd with
  | none =>
      refine ⟨p, by simp [visit, hi], ?_, h, fun _ _ => rfl⟩
      simp [SlotTable.visit, hready, look, hi]
  | some fd =>
      have hslot : p.table.slots i = some fd := hi
      have hlisten : fd = p.listensock ↔ i = 0 := by
        constructor
        · rintro rfl
          exact h.table.holds.apart hslot h.table.listener
        · rintro rfl
          exact Option.some.inj (hslot.symm.trans h.table.listener)
      by_cases hin : (p.fds i).revents &&& pollin ≠ 0
      · have hlook : ready i = true := by
          rw [hready]
          simpa [look, hi] using hin
        simp only [visit, Proc.run_get_bind, hi, hin, if_true, SlotTable.visit, hlook,
          hlisten, not_false_eq_true, ne_eq]
        split
        · obtain ⟨p', hrun, htable, hinv, hother⟩ := run_acceptClient h answers.accept
          exact ⟨p', hrun, htable, hinv, fun j _ => hother j⟩
        · next hzero => exact run_serviceIo h hzero (by simp [hi]) _
      · have hlook : ready i = false := by
          rw [hready]
          simpa [look, hi] using hin
        refine ⟨p, ?_, by simp [SlotTable.visit, hlook], h, fun _ _ => rfl⟩
        simp only [visit, Proc.run_get_bind, hi, hin, if_false]
        split <;> rfl

/-! ## A whole iteration -/

theorem run_scan {p : PollServer N} (h : p.Inv) {is : List (Fin N)} (hnodup : is.Nodup)
    {ready : Fin N → Bool} (hready : ∀ i ∈ is, ready i = p.look i) (answers : Answers N) :
    ∃ p', (handlerRead is answers).run p = .done () p' ∧
      p'.table = is.foldl (SlotTable.visit ready answers) p.table ∧ p'.Inv := by
  induction is generalizing p with
  | nil => exact ⟨p, rfl, rfl, h⟩
  | cons i is ih =>
      rw [List.nodup_cons] at hnodup
      obtain ⟨q, hvisit, htable, hinv, hother⟩ := run_visit h (hready i (by simp)) answers
      have hnext : ∀ j ∈ is, ready j = q.look j := by
        intro j hj
        have hne : j ≠ i := by
          rintro rfl
          exact hnodup.1 hj
        rw [hother j hne]
        exact hready j (by simp [hj])
      rw [handlerRead, Proc.forEach_cons, Proc.run_bind_done hvisit, List.foldl_cons, ← htable]
      exact ih hinv hnodup.2 hnext

/-- The slots with `POLLIN` in `revents` when `poll` returns. -/
def ready (p : PollServer N) (round : PollRound N) (i : Fin N) : Bool :=
  match round.condition with
  | none => false
  | some condition => look { p with fds := polled condition p.fds } i

theorem run_iteration {p : PollServer N} (h : p.Inv) (round : PollRound N)
    {slots : List (Fin N)} (hnodup : slots.Nodup) :
    ∃ p', (iteration slots round).run p = .done () p' ∧
      p'.table = slots.foldl (SlotTable.visit (p.ready round) round.answers) p.table ∧
      p'.Inv := by
  cases hround : round.condition with
  | none =>
      refine ⟨p, by simp [iteration, hround], ?_, h⟩
      rw [SlotTable.foldl_visit_of_not_ready fun i _ => by simp [ready, hround]]
  | some condition =>
      let q : PollServer N := { p with fds := polled condition p.fds }
      have hq : q.Inv := ⟨h.table, h.events⟩
      have hready : ∀ i, p.ready round i = q.look i := fun i => by simp [ready, hround, q]
      have hrun : (iteration slots round).run p =
          (if 0 < (Finset.univ.filter fun i => (q.fds i).revents ≠ 0).card then
            handlerRead slots round.answers else pure ()).run q := by
        simp [iteration, hround, q]
      rw [hrun]
      split
      · exact run_scan hq hnodup (fun i _ => hready i) round.answers
      · next hcard =>
          refine ⟨q, rfl, ?_, hq⟩
          have hzero : ∀ i, (q.fds i).revents = 0 := by
            intro i
            by_contra hne
            exact hcard (Finset.card_pos.mpr ⟨i, by simpa using hne⟩)
          rw [SlotTable.foldl_visit_of_not_ready fun i _ => by simp [hready, look, hzero]]
          rfl

theorem run_loopOnce {p : PollServer N} (h : p.Inv) (round : PollRound N) :
    ∃ p', (loopOnce round).run p = .done () p' ∧
      p'.table = p.table.pass (p.ready round) round.answers ∧ p'.Inv :=
  run_iteration h round (List.nodup_finRange N)

end PollServer

end LinuxAdvance.Echo
