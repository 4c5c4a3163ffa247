import LinuxAdvance.Echo.SlotTable
import LinuxAdvance.Foundation.Proc

/-!
# The select server: `SelectServer`

`N` is both the number of slots and `FD_SETSIZE`: `sizeof(fd_set) * 8`.  `FD_SET`
and `FD_ISSET` of a descriptor from `N` on touch memory outside the set.
-/

namespace LinuxAdvance.Echo

open LinuxAdvance.Foundation
open LinuxAdvance.System

structure SelectServer (N : Nat) where
  fdArray : Fin N → Option Fd
  listensock : Fd
  others : Finset Fd
  trace : Trace N := {}

/-- What one iteration of `Loop` meets: the descriptors that can be read, or a
`select` that fails (`none`), and what `accept` and `recv` answer. -/
structure SelectRound (N : Nat) where
  readable : Option (Fd → Bool)
  answers : Answers N

namespace SelectServer

variable {N : Nat}

def table (s : SelectServer N) : SlotTable N := ⟨s.fdArray, s.listensock, s.others, s.trace⟩

def ofTable (t : SlotTable N) : SelectServer N := ⟨t.slots, t.listensock, t.others, t.trace⟩

@[simp] theorem table_ofTable (t : SlotTable N) : (ofTable t).table = t := rfl

variable [NeZero N]

def initial (N : Nat) [NeZero N] (listensock : Fd) (others : Finset Fd) : SelectServer N where
  fdArray := Function.update (fun _ => none) 0 (some listensock)
  listensock
  others

def log (call : Call) : Proc Fault (SelectServer N) Unit :=
  Proc.modify fun s => { s with trace := s.trace.log call }

def setSlot (pos : Fin N) (fd : Option Fd) : Proc Fault (SelectServer N) Unit :=
  Proc.modify fun s => { s with fdArray := Function.update s.fdArray pos fd }

def acceptClient (choice : NewFd) : Proc Fault (SelectServer N) Unit := do
  let s ← Proc.get
  let fd := choice.choose s.table.opened
  log (.accept fd)
  match freeSlot s.fdArray with
  | none => log (.close fd)
  | some pos => setSlot pos (some fd)

def serviceIo (pos : Fin N) (answer : RecvResult) : Proc Fault (SelectServer N) Unit := do
  Proc.modify fun s => { s with trace := s.trace.service pos }
  let s ← Proc.get
  match s.fdArray pos with
  | none => Proc.raise .badDescriptor
  | some fd => do
      log (.recv fd)
      match answer with
      | .data chunk => log (.send fd (echo chunk))
      | _ => do
          log (.close fd)
          setSlot pos none

def fdIsset (N : Nat) (fd : Fd) (rfds : Finset Fd) : Except Fault Bool :=
  if fd < N then .ok (decide (fd ∈ rfds)) else .error .outsideFdSet

/-- One round of the loop of `HandlerRead`. -/
def visit (rfds : Finset Fd) (answers : Answers N) (i : Fin N) :
    Proc Fault (SelectServer N) Unit := do
  let s ← Proc.get
  match s.fdArray i with
  | none => return ()
  | some fd =>
      if ← Proc.ofExcept (fdIsset N fd rfds) then
        if fd = s.listensock then acceptClient answers.accept
        else serviceIo i (answers.recv i)

def handlerRead (slots : List (Fin N)) (rfds : Finset Fd) (answers : Answers N) :
    Proc Fault (SelectServer N) Unit :=
  Proc.forEach (visit rfds answers) slots

/-- The loop over the slots in `Loop`: `FD_SET` and the largest descriptor. -/
def collect (fdArray : Fin N → Option Fd) :
    List (Fin N) → Finset Fd → Int → Except Fault (Finset Fd × Int)
  | [], rfds, maxfd => .ok (rfds, maxfd)
  | i :: is, rfds, maxfd =>
      match fdArray i with
      | none => collect fdArray is rfds maxfd
      | some fd =>
          if fd < N then collect fdArray is (insert fd rfds) (max maxfd fd)
          else .error .outsideFdSet

/-- What `select` leaves in the set. -/
def select (nfds : Int) (rfds : Finset Fd) (readable : Fd → Bool) : Finset Fd :=
  rfds.filter fun fd => (fd : Int) < nfds ∧ readable fd

/-- One iteration of `Loop`, in which `HandlerRead` looks at the given slots. -/
def iteration (slots : List (Fin N)) (round : SelectRound N) :
    Proc Fault (SelectServer N) Unit := do
  let s ← Proc.get
  let (rfds, maxfd) ← Proc.ofExcept (collect s.fdArray (List.finRange N) ∅ (-1))
  match round.readable with
  | none => return ()
  | some readable =>
      let rfds := select (maxfd + 1) rfds readable
      if 0 < rfds.card then handlerRead slots rfds round.answers

def loopOnce (round : SelectRound N) : Proc Fault (SelectServer N) Unit :=
  iteration (List.finRange N) round

def loop (rounds : List (SelectRound N)) : Proc Fault (SelectServer N) Unit :=
  Proc.forEach loopOnce rounds

/-! ## Each function carries out the slot table's -/

theorem run_acceptClient (s : SelectServer N) (choice : NewFd) :
    (acceptClient choice).run s = .done () (ofTable (s.table.accept choice)) := by
  simp only [acceptClient, log, Proc.run_get_bind, Proc.run_modify_bind, SlotTable.accept]
  change (match freeSlot s.fdArray with
    | none => _
    | some pos => _ : Proc Fault (SelectServer N) Unit).run _ =
      Outcome.done () (ofTable (match freeSlot s.fdArray with | none => _ | some pos => _))
  cases freeSlot s.fdArray <;> rfl

omit [NeZero N] in
theorem run_serviceIo {s : SelectServer N} {pos : Fin N} (hpos : s.fdArray pos ≠ none)
    (answer : RecvResult) :
    (serviceIo pos answer).run s = .done () (ofTable (s.table.service pos answer)) := by
  obtain ⟨fd, hfd⟩ := Option.ne_none_iff_exists'.mp hpos
  have hslot : s.table.slots pos = some fd := hfd
  simp only [serviceIo, SlotTable.service, hslot, Proc.run_modify_bind, Proc.run_get_bind, hfd]
  cases answer <;> rfl

theorem run_visit_none {s : SelectServer N} {i : Fin N} (hi : s.fdArray i = none)
    (rfds : Finset Fd) (answers : Answers N) : (visit rfds answers i).run s = .done () s := by
  simp [visit, hi]

theorem run_visit_outside {s : SelectServer N} {i : Fin N} {fd : Fd}
    (hi : s.fdArray i = some fd) (hfd : N ≤ fd) (rfds : Finset Fd) (answers : Answers N) :
    (visit rfds answers i).run s = .raised .outsideFdSet s := by
  simp [visit, hi, fdIsset, Nat.not_lt.mpr hfd]

theorem run_visit {s : SelectServer N} (h : s.table.Inv) {i : Fin N}
    (hrange : ∀ fd, s.fdArray i = some fd → fd < N) {rfds : Finset Fd}
    {ready : Fin N → Bool} (hready : ready i = (s.fdArray i).any fun fd => decide (fd ∈ rfds))
    (answers : Answers N) :
    (visit rfds answers i).run s = .done () (ofTable (s.table.visit ready answers i)) := by
  cases hi : s.fdArray i with
  | none =>
      rw [run_visit_none hi]
      simp only [hi, Option.any_none] at hready
      simp [SlotTable.visit, hready, ofTable, table]
  | some fd =>
      have hlisten : fd = s.listensock ↔ i = 0 := by
        constructor
        · rintro rfl
          exact h.holds.apart hi h.listener
        · rintro rfl
          exact Option.some.inj (hi.symm.trans h.listener)
      simp only [hi, Option.any_some] at hready
      simp only [visit, Proc.run_get_bind, hi, fdIsset, hrange fd hi, if_true,
        Proc.ofExcept_ok, Proc.pure_bind, SlotTable.visit, hready, decide_eq_true_eq, hlisten]
      split
      · split
        · exact run_acceptClient s _
        · exact run_serviceIo (by simp [hi]) _
      · rfl

/-! ## A pass over the slots after the first -/

theorem run_scan {s : SelectServer N} (h : s.table.Inv) {is : List (Fin N)}
    (hnodup : is.Nodup) (hzero : 0 ∉ is)
    (hrange : ∀ i ∈ is, ∀ fd, s.fdArray i = some fd → fd < N) {rfds : Finset Fd}
    {ready : Fin N → Bool}
    (hready : ∀ i ∈ is, ready i = (s.fdArray i).any fun fd => decide (fd ∈ rfds))
    (answers : Answers N) :
    (handlerRead is rfds answers).run s =
      .done () (ofTable (is.foldl (SlotTable.visit ready answers) s.table)) := by
  induction is generalizing s with
  | nil => rfl
  | cons i is ih =>
      simp only [List.nodup_cons, List.mem_cons, not_or] at hnodup hzero
      have hvisit := run_visit h (hrange i (by simp)) (hready i (by simp)) answers
      have hrest : ∀ j ∈ is,
          (ofTable (s.table.visit ready answers i)).fdArray j = s.fdArray j := by
        intro j hj
        have hne : j ≠ i := by
          rintro rfl
          exact hnodup.1 hj
        exact SlotTable.visit_slots_of_ne (Ne.symm hzero.1) hne
      have hnext : (ofTable (s.table.visit ready answers i)).table.Inv := h.visit i
      rw [handlerRead, Proc.forEach_cons, Proc.run_bind_done hvisit, List.foldl_cons]
      apply ih hnext hnodup.2 hzero.2
      · intro j hj fd
        rw [hrest j hj]
        exact hrange j (by simp [hj]) fd
      · intro j hj
        rw [hrest j hj]
        exact hready j (by simp [hj])

theorem run_scan_outside {s : SelectServer N} (h : s.table.Inv) {is : List (Fin N)}
    (hnodup : is.Nodup) (hzero : 0 ∉ is)
    (houtside : ∃ i ∈ is, ∃ fd, s.fdArray i = some fd ∧ N ≤ fd) (rfds : Finset Fd)
    (answers : Answers N) :
    ∃ s', (handlerRead is rfds answers).run s = .raised .outsideFdSet s' := by
  induction is generalizing s with
  | nil => simp at houtside
  | cons i is ih =>
      simp only [List.nodup_cons, List.mem_cons, not_or] at hnodup hzero
      rw [handlerRead, Proc.forEach_cons]
      by_cases hhere : ∃ fd, s.fdArray i = some fd ∧ N ≤ fd
      · obtain ⟨fd, hi, hfd⟩ := hhere
        exact ⟨s, Proc.run_bind_raised (run_visit_outside hi hfd rfds answers) _⟩
      · have hrange : ∀ fd, s.fdArray i = some fd → fd < N := by
          intro fd hi
          exact Nat.lt_of_not_le fun hfd => hhere ⟨fd, hi, hfd⟩
        let ready : Fin N → Bool := fun j => (s.fdArray j).any fun fd => decide (fd ∈ rfds)
        have hvisit : (visit rfds answers i).run s =
            .done () (ofTable (s.table.visit ready answers i)) :=
          run_visit h hrange rfl answers
        have hnext : (ofTable (s.table.visit ready answers i)).table.Inv := h.visit i
        rw [Proc.run_bind_done hvisit]
        apply ih hnext hnodup.2 hzero.2
        obtain ⟨j, hj, fd, hjfd, hfd⟩ := houtside
        simp only [List.mem_cons] at hj
        rcases hj with rfl | hj
        · exact absurd ⟨fd, hjfd, hfd⟩ hhere
        · have hne : j ≠ i := by
            rintro rfl
            exact hnodup.1 hj
          exact ⟨j, hj, fd, (SlotTable.visit_slots_of_ne (Ne.symm hzero.1) hne).trans hjfd,
            hfd⟩

/-! ## A whole iteration -/

/-- The slots whose descriptor is in the set when `select` returns. -/
def ready (s : SelectServer N) (round : SelectRound N) (i : Fin N) : Bool :=
  match round.readable, s.fdArray i with
  | some readable, some fd => readable fd
  | _, _ => false

def InRange (fdArray : Fin N → Option Fd) : Prop := ∀ i fd, fdArray i = some fd → fd < N

/-- The descriptors in the table are in the range of an `fd_set`, and so is the
one that `AcceptClient` puts there in this iteration. -/
structure Fits (s : SelectServer N) (round : SelectRound N) : Prop where
  stored : InRange s.fdArray
  accepted : s.ready round 0 = true → freeSlot s.fdArray ≠ none →
    round.answers.accept.choose s.table.opened < N

theorem collect_eq_ok {fdArray : Fin N → Option Fd} (is : List (Fin N))
    (hrange : ∀ i ∈ is, ∀ fd, fdArray i = some fd → fd < N) {rfds : Finset Fd} {maxfd : Int}
    (hmax : ∀ fd ∈ rfds, (fd : Int) ≤ maxfd) :
    ∃ rfds' maxfd', collect fdArray is rfds maxfd = .ok (rfds', maxfd') ∧
      (∀ fd, fd ∈ rfds' ↔ fd ∈ rfds ∨ ∃ i ∈ is, fdArray i = some fd) ∧
      ∀ fd ∈ rfds', (fd : Int) ≤ maxfd' := by
  induction is generalizing rfds maxfd with
  | nil => exact ⟨rfds, maxfd, rfl, by simp, hmax⟩
  | cons i is ih =>
      have hrest : ∀ j ∈ is, ∀ fd, fdArray j = some fd → fd < N :=
        fun j hj => hrange j (by simp [hj])
      cases hi : fdArray i with
      | none =>
          obtain ⟨rfds', maxfd', hcollect, hmem, hmax'⟩ := ih hrest hmax
          refine ⟨rfds', maxfd', by simpa [collect, hi] using hcollect, ?_, hmax'⟩
          simpa [hi] using hmem
      | some fd =>
          have hinsert : ∀ fd' ∈ insert fd rfds, (fd' : Int) ≤ max maxfd fd := by
            intro fd' hfd'
            rcases Finset.mem_insert.mp hfd' with rfl | hfd'
            · omega
            · have := hmax fd' hfd'
              omega
          obtain ⟨rfds', maxfd', hcollect, hmem, hmax'⟩ := ih hrest hinsert
          refine ⟨rfds', maxfd', ?_, ?_, hmax'⟩
          · simpa [collect, hi, hrange i (by simp) fd hi] using hcollect
          · intro fd'
            rw [hmem]
            simp [hi, eq_comm, or_assoc, or_left_comm]

theorem collect_eq_error {fdArray : Fin N → Option Fd} {is : List (Fin N)}
    (houtside : ∃ i ∈ is, ∃ fd, fdArray i = some fd ∧ N ≤ fd) (rfds : Finset Fd)
    (maxfd : Int) : collect fdArray is rfds maxfd = .error .outsideFdSet := by
  induction is generalizing rfds maxfd with
  | nil => simp at houtside
  | cons i is ih =>
      simp only [List.exists_mem_cons_iff] at houtside
      rcases houtside with ⟨fd, hi, hfd⟩ | hrest
      · simp [collect, hi, Nat.not_lt.mpr hfd]
      · cases hi : fdArray i with
        | none => simpa [collect, hi] using ih hrest rfds maxfd
        | some fd =>
            simp only [collect, hi]
            split
            · exact ih hrest _ _
            · rfl

theorem collect_all {fdArray : Fin N → Option Fd} (hrange : InRange fdArray) :
    ∃ rfds maxfd, collect fdArray (List.finRange N) ∅ (-1) = .ok (rfds, maxfd) ∧
      ∀ readable fd, fd ∈ select (maxfd + 1) rfds readable ↔
        (∃ i, fdArray i = some fd) ∧ readable fd = true := by
  have hempty : ∀ fd ∈ (∅ : Finset Fd), (fd : Int) ≤ -1 := by simp
  obtain ⟨rfds, maxfd, hcollect, hmem, hmax⟩ :=
    collect_eq_ok (List.finRange N) (fun i _ => hrange i) hempty
  refine ⟨rfds, maxfd, hcollect, fun readable fd => ?_⟩
  simp only [Finset.notMem_empty, List.mem_finRange, true_and, false_or] at hmem
  simp only [select, Finset.mem_filter, hmem]
  constructor
  · rintro ⟨hstored, -, hreadable⟩
    exact ⟨hstored, hreadable⟩
  · rintro ⟨hstored, hreadable⟩
    have := hmax fd ((hmem fd).mpr hstored)
    exact ⟨hstored, by omega, hreadable⟩

theorem run_iteration_failed {s : SelectServer N} (hrange : InRange s.fdArray)
    {round : SelectRound N} (hfailed : round.readable = none) (slots : List (Fin N)) :
    (iteration slots round).run s = .done () s := by
  obtain ⟨rfds, maxfd, hcollect, -⟩ := collect_all hrange
  simp [iteration, hcollect, hfailed]

theorem run_iteration_selected {s : SelectServer N} (hrange : InRange s.fdArray)
    {round : SelectRound N} {readable : Fd → Bool} (hround : round.readable = some readable)
    (slots : List (Fin N)) :
    ∃ rfds : Finset Fd,
      (∀ fd, fd ∈ rfds ↔ (∃ i, s.fdArray i = some fd) ∧ readable fd = true) ∧
      (∀ i, s.ready round i = (s.fdArray i).any fun fd => decide (fd ∈ rfds)) ∧
      (iteration slots round).run s =
        if 0 < rfds.card then (handlerRead slots rfds round.answers).run s
        else .done () s := by
  obtain ⟨rfds, maxfd, hcollect, hmem⟩ := collect_all hrange
  refine ⟨select (maxfd + 1) rfds readable, hmem readable, ?_, ?_⟩
  · intro i
    cases hi : s.fdArray i with
    | none => simp [ready, hround, hi]
    | some fd =>
        have hstored : ∃ i, s.fdArray i = some fd := ⟨i, hi⟩
        simp [ready, hround, hi, hmem, hstored]
  · simp only [iteration, Proc.run_get_bind, hcollect, Proc.ofExcept_ok, Proc.pure_bind,
      hround]
    split <;> rfl

/-- After the listener's slot has been visited, a slot is reported as before: a
new client's descriptor is not in the set. -/
theorem ready_after_first {s : SelectServer N} (h : s.table.Inv) {rfds : Finset Fd}
    (hrfds : ∀ fd ∈ rfds, ∃ i, s.fdArray i = some fd) {ready : Fin N → Bool}
    (answers : Answers N) (i : Fin N) :
    ((s.table.visit ready answers 0).slots i).any (fun fd => decide (fd ∈ rfds)) =
      (s.fdArray i).any fun fd => decide (fd ∈ rfds) := by
  simp only [SlotTable.visit, if_true]
  split
  · rcases SlotTable.accept_slots s.table answers.accept i with hsame | ⟨hnone, -, hnew⟩
    · rw [hsame]
      rfl
    · have hfree : s.fdArray i = none := hnone
      have hnot : answers.accept.choose s.table.opened ∉ rfds := by
        intro hmem
        obtain ⟨j, hj⟩ := hrfds _ hmem
        exact answers.accept.notMem _ (h.opened_of_slot hj)
      simp [hnew, hfree, hnot]
  · rfl

theorem inRange_after_first {s : SelectServer N} {round : SelectRound N}
    (hfits : s.Fits round) :
    InRange (s.table.visit (s.ready round) round.answers 0).slots := by
  intro i fd hi
  simp only [SlotTable.visit, if_true] at hi
  split at hi
  · next hready =>
      rcases SlotTable.accept_slots s.table round.answers.accept i with
        hsame | ⟨-, hfree, hnew⟩
      · exact hfits.stored i fd (hsame.symm.trans hi)
      · rw [hnew, Option.some.injEq] at hi
        have hlt := hfits.accepted hready (fun hnone => by simp [hnone, table] at hfree)
        exact hi ▸ hlt
  · exact hfits.stored i fd hi

theorem run_iteration {s : SelectServer N} (h : s.table.Inv) {round : SelectRound N}
    (hfits : s.Fits round) {is : List (Fin N)} (hnodup : is.Nodup) (hzero : 0 ∉ is) :
    (iteration (0 :: is) round).run s =
      .done () (ofTable ((0 :: is).foldl
        (SlotTable.visit (s.ready round) round.answers) s.table)) := by
  have hidle : (∀ i, s.ready round i = false) → Outcome.done () s =
      (Outcome.done () (ofTable ((0 :: is).foldl
        (SlotTable.visit (s.ready round) round.answers) s.table)) :
          Outcome Fault (SelectServer N) Unit) := by
    intro hready
    rw [SlotTable.foldl_visit_of_not_ready fun i _ => hready i]
    rfl
  cases hround : round.readable with
  | none =>
      rw [run_iteration_failed hfits.stored hround]
      exact hidle fun i => by simp [ready, hround]
  | some readable =>
      obtain ⟨rfds, hmem, hready, hrun⟩ :=
        run_iteration_selected hfits.stored hround (0 :: is)
      rw [hrun]
      split
      · have hfirst := run_visit h (hfits.stored 0) (hready 0) round.answers
        have hnext : (ofTable
            (s.table.visit (s.ready round) round.answers 0)).table.Inv := h.visit 0
        rw [handlerRead, Proc.forEach_cons, Proc.run_bind_done hfirst, List.foldl_cons]
        apply run_scan hnext hnodup hzero
        · intro i _
          exact inRange_after_first hfits i
        · intro i _
          rw [hready i]
          exact (ready_after_first h (fun fd hfd => ((hmem fd).mp hfd).1) _ i).symm
      · next hcard =>
          have hempty : rfds = ∅ := by
            rw [← Finset.card_eq_zero]
            omega
          apply hidle
          intro i
          rw [hready i, hempty]
          simp

theorem run_loopOnce {s : SelectServer N} (h : s.table.Inv) {round : SelectRound N}
    (hfits : s.Fits round) :
    (loopOnce round).run s =
      .done () (ofTable (s.table.pass (s.ready round) round.answers)) := by
  obtain ⟨rest, hrange, hzero, hnodup⟩ := SlotTable.finRange_eq_cons N
  rw [loopOnce, SlotTable.pass, hrange]
  exact run_iteration h hfits hnodup hzero

theorem run_loopOnce_outside {s : SelectServer N} (h : s.table.Inv) {round : SelectRound N}
    (hfits : ¬s.Fits round) : ∃ s', (loopOnce round).run s = .raised .outsideFdSet s' := by
  by_cases hstored : InRange s.fdArray
  · have haccepted : ¬(s.ready round 0 = true → freeSlot s.fdArray ≠ none →
        round.answers.accept.choose s.table.opened < N) := fun ha => hfits ⟨hstored, ha⟩
    push Not at haccepted
    obtain ⟨hready₀, hfree, houtside⟩ := haccepted
    obtain ⟨pos, hpos⟩ := Option.ne_none_iff_exists'.mp hfree
    cases hround : round.readable with
    | none => simp [ready, hround] at hready₀
    | some readable =>
        obtain ⟨rfds, hmem, hready, hrun⟩ :=
          run_iteration_selected hstored hround (List.finRange N)
        obtain ⟨rest, hrange, hzero, hnodup⟩ := SlotTable.finRange_eq_cons N
        have hlisten : s.fdArray 0 = some s.listensock := h.listener
        have hcard : 0 < rfds.card := by
          rw [Finset.card_pos]
          simp only [hready 0, hlisten, Option.any_some, decide_eq_true_eq] at hready₀
          exact ⟨_, hready₀⟩
        have hfirst := run_visit h (hstored 0) (hready 0) round.answers
        have hnext : (ofTable
            (s.table.visit (s.ready round) round.answers 0)).table.Inv := h.visit 0
        have hslot : (s.table.visit (s.ready round) round.answers 0).slots pos =
            some (round.answers.accept.choose s.table.opened) := by
          have hpos' : freeSlot s.table.slots = some pos := hpos
          simp [SlotTable.visit, hready₀, SlotTable.accept, hpos']
        have hmem_rest : pos ∈ rest := by
          have hin := List.mem_finRange pos
          rw [hrange, List.mem_cons] at hin
          exact hin.resolve_left (SlotTable.freeSlot_spec hpos).1
        obtain ⟨s', hs'⟩ := run_scan_outside hnext hnodup hzero
          ⟨pos, hmem_rest, _, hslot, houtside⟩ rfds round.answers
        refine ⟨s', ?_⟩
        rw [loopOnce, hrun, if_pos hcard, hrange, handlerRead, Proc.forEach_cons,
          Proc.run_bind_done hfirst]
        exact hs'
  · have houtside : ∃ i ∈ List.finRange N, ∃ fd, s.fdArray i = some fd ∧ N ≤ fd := by
      simp only [InRange] at hstored
      push Not at hstored
      simpa using hstored
    exact ⟨s, by simp [loopOnce, iteration, collect_eq_error houtside]⟩

theorem loopOnce_done_iff {s : SelectServer N} (h : s.table.Inv) {round : SelectRound N} :
    (∃ s', (loopOnce round).run s = .done () s') ↔ s.Fits round := by
  constructor
  · rintro ⟨s', hs'⟩
    by_contra hfits
    obtain ⟨s'', hs''⟩ := run_loopOnce_outside h hfits
    simp [hs'] at hs''
  · intro hfits
    exact ⟨_, run_loopOnce h hfits⟩

end SelectServer

end LinuxAdvance.Echo
