import LinuxAdvance.Foundation.Ledger
import LinuxAdvance.Foundation.Slots
import LinuxAdvance.System.Socket

/-!
# What an echo server with a table of slots does

The select server and the poll server keep their descriptors in a table whose
first slot is the listener's.  A pass looks at every slot in order; which slots
are reported readable is fixed before the pass starts.  Here is one such machine,
with readiness as a predicate on slots; the two servers carry it out.
-/

namespace LinuxAdvance.Echo

open LinuxAdvance.Foundation
open LinuxAdvance.Cxx
open LinuxAdvance.System

inductive Fault where
  | badDescriptor
  | outsideFdSet
  | nullPointer
  deriving DecidableEq, Repr

inductive Call where
  | accept (fd : Fd)
  | recv (fd : Fd)
  | send (fd : Fd) (bytes : Bytes)
  | close (fd : Fd)
  deriving DecidableEq, Repr

def Call.entry? : Call → Option (Entry Fd)
  | accept fd => some (.acquire fd)
  | close fd => some (.release fd)
  | _ => none

def ledger (calls : List Call) : List (Entry Fd) := calls.filterMap Call.entry?

/-- The message `ServiceIO` sends back for what `recv` left in `buff`. -/
def echo (chunk : Chunk) : Bytes := text "Server Echo# " ++ ofCString chunk.bytes

/-- What `accept` does: it makes a descriptor, or it fails. -/
inductive AcceptAnswer where
  | conn (choice : NewFd)
  | fail (errno : Nat)

/-- `sockefd->SockFd()`; a socket is its descriptor, `none` the null pointer. -/
def sockFd (sockefd : Option Fd) : Except Fault Fd :=
  match sockefd with
  | some fd => .ok fd
  | none => .error .nullPointer

/-- The number `accept` returns, and what `recv` returns when it is called for a
slot. -/
structure Answers (N : Nat) where
  accept : NewFd
  recv : Fin N → RecvResult

/-- The system calls so far and the slots `ServiceIO` was called for. -/
structure Trace (N : Nat) where
  calls : List Call := []
  serviced : List (Fin N) := []
  deriving DecidableEq

namespace Trace

variable {N : Nat}

def clients (trace : Trace N) : Finset Fd := Ledger.held (ledger trace.calls)

def log (trace : Trace N) (call : Call) : Trace N :=
  { trace with calls := trace.calls ++ [call] }

def service (trace : Trace N) (i : Fin N) : Trace N :=
  { trace with serviced := trace.serviced ++ [i] }

def turnAway (trace : Trace N) (fd : Fd) : Trace N := (trace.log (.accept fd)).log (.close fd)

end Trace

/-- `others` are the descriptors the process has open besides. -/
structure SlotTable (N : Nat) where
  slots : Fin N → Option Fd
  listensock : Fd
  others : Finset Fd
  trace : Trace N := {}

def freeSlot {N : Nat} [NeZero N] (slots : Fin N → Option Fd) : Option (Fin N) :=
  (List.finRange N).find? fun pos => decide (pos ≠ 0) && (slots pos).isNone

namespace SlotTable

variable {N : Nat} [NeZero N]

def start (N : Nat) [NeZero N] (listensock : Fd) (others : Finset Fd) : SlotTable N where
  slots := Function.update (fun _ => none) 0 (some listensock)
  listensock
  others

def opened (t : SlotTable N) : Finset Fd :=
  insert t.listensock (t.others ∪ t.trace.clients)

def accept (t : SlotTable N) (choice : NewFd) : SlotTable N :=
  let fd := choice.choose t.opened
  match freeSlot t.slots with
  | none => { t with trace := (t.trace.log (.accept fd)).log (.close fd) }
  | some pos =>
      { t with
        slots := Function.update t.slots pos (some fd)
        trace := t.trace.log (.accept fd) }

def service (t : SlotTable N) (i : Fin N) (answer : RecvResult) : SlotTable N :=
  match t.slots i with
  | none => t
  | some fd =>
      let trace := (t.trace.service i).log (.recv fd)
      match answer with
      | .data chunk => { t with trace := trace.log (.send fd (echo chunk)) }
      | _ =>
          { t with
            slots := Function.update t.slots i none
            trace := trace.log (.close fd) }

def visit (ready : Fin N → Bool) (answers : Answers N) (t : SlotTable N) (i : Fin N) :
    SlotTable N :=
  if ready i then
    if i = 0 then t.accept answers.accept else t.service i (answers.recv i)
  else t

def pass (ready : Fin N → Bool) (answers : Answers N) (t : SlotTable N) : SlotTable N :=
  (List.finRange N).foldl (visit ready answers) t

end SlotTable

/-! ## Calls and clients -/

theorem ledger_concat (calls : List Call) (call : Call) :
    ledger (calls ++ [call]) = ledger calls ++ call.entry?.toList := by
  cases h : call.entry? <;> simp [ledger, h]

namespace Trace

variable {N : Nat} (trace : Trace N) (fd : Fd)

/-- No descriptor is closed that is not an open client's. -/
def Sound (trace : Trace N) : Prop := Ledger.Sound (ledger trace.calls)

@[simp] theorem clients_service (i : Fin N) : (trace.service i).clients = trace.clients := rfl

@[simp] theorem clients_accept :
    (trace.log (.accept fd)).clients = insert fd trace.clients := by
  simp [clients, log, ledger_concat, Call.entry?]

@[simp] theorem clients_close :
    (trace.log (.close fd)).clients = trace.clients.erase fd := by
  simp [clients, log, ledger_concat, Call.entry?]

@[simp] theorem clients_recv : (trace.log (.recv fd)).clients = trace.clients := by
  simp [clients, log, ledger_concat, Call.entry?]

@[simp] theorem clients_send (bytes : Bytes) :
    (trace.log (.send fd bytes)).clients = trace.clients := by
  simp [clients, log, ledger_concat, Call.entry?]

@[simp] theorem sound_service (i : Fin N) : (trace.service i).Sound ↔ trace.Sound := .rfl

@[simp] theorem sound_accept : (trace.log (.accept fd)).Sound ↔ trace.Sound := by
  simp [Sound, log, ledger_concat, Call.entry?]

@[simp] theorem sound_close :
    (trace.log (.close fd)).Sound ↔ trace.Sound ∧ fd ∈ trace.clients := by
  simp [Sound, clients, log, ledger_concat, Call.entry?]

@[simp] theorem sound_recv : (trace.log (.recv fd)).Sound ↔ trace.Sound := by
  simp [Sound, log, ledger_concat, Call.entry?]

@[simp] theorem sound_send (bytes : Bytes) :
    (trace.log (.send fd bytes)).Sound ↔ trace.Sound := by
  simp [Sound, log, ledger_concat, Call.entry?]

@[simp] theorem serviced_log (call : Call) : (trace.log call).serviced = trace.serviced := rfl

@[simp] theorem serviced_service (i : Fin N) :
    (trace.service i).serviced = trace.serviced ++ [i] := rfl

end Trace

namespace SlotTable

variable {N : Nat} [NeZero N]

/-! ## The invariant -/

structure Inv (t : SlotTable N) : Prop where
  listener : t.slots 0 = some t.listensock
  holds : Slots.Holds t.slots (insert t.listensock t.trace.clients)
  listener_notMem : t.listensock ∉ t.trace.clients
  sound : t.trace.Sound

theorem inv_start (listensock : Fd) (others : Finset Fd) : Inv (start N listensock others) where
  listener := by simp [start]
  holds := Slots.Holds.single 0 listensock
  listener_notMem := by simp [start, Trace.clients, ledger]
  sound := Ledger.sound_nil

theorem freeSlot_spec {slots : Fin N → Option Fd} {pos : Fin N}
    (h : freeSlot slots = some pos) : pos ≠ 0 ∧ slots pos = none := by
  simpa using List.find?_some h

theorem freeSlot_second {n : Nat} {slots : Fin (n + 2) → Option Fd} (h : slots 1 = none) :
    freeSlot slots = some 1 := by
  rw [freeSlot, List.finRange_succ, List.finRange_succ]
  simp [h]

theorem freeSlot_eq_none_iff {slots : Fin N → Option Fd} :
    freeSlot slots = none ↔ ∀ i, i ≠ 0 → slots i ≠ none := by
  simp [freeSlot]

theorem Inv.accept {t : SlotTable N} (h : Inv t) (choice : NewFd) : Inv (t.accept choice) := by
  have hnew := choice.notMem t.opened
  simp only [opened, Finset.mem_insert, Finset.mem_union, not_or] at hnew
  obtain ⟨hlisten, -, hclient⟩ := hnew
  unfold SlotTable.accept
  simp only [opened]
  split
  · constructor
    · exact h.listener
    · simpa [hclient] using h.holds
    · simpa [hclient] using h.listener_notMem
    · simpa using h.sound
  · next pos hpos =>
      obtain ⟨hpos, hfree⟩ := freeSlot_spec hpos
      constructor
      · simpa [hpos.symm] using h.listener
      · simp only [Trace.clients_accept, Finset.insert_comm t.listensock]
        exact h.holds.put hfree (by simp [hlisten, hclient])
      · simpa [Ne.symm hlisten] using h.listener_notMem
      · simpa using h.sound

theorem Inv.service {t : SlotTable N} (h : Inv t) {i : Fin N} (hi : i ≠ 0)
    (answer : RecvResult) : Inv (t.service i answer) := by
  unfold SlotTable.service
  split
  · exact h
  · next fd hfd =>
      have hlisten : fd ≠ t.listensock := by
        rintro rfl
        exact hi (h.holds.apart hfd h.listener)
      have hclient : fd ∈ t.trace.clients := by
        simpa [hlisten] using h.holds.mem hfd
      simp only
      split
      · constructor
        · exact h.listener
        · simpa using h.holds
        · simpa using h.listener_notMem
        · simpa using h.sound
      · constructor
        · simpa [hi.symm] using h.listener
        · simp only [Trace.clients_close, Trace.clients_recv, Trace.clients_service]
          rw [← Finset.erase_insert_of_ne (Ne.symm hlisten)]
          exact h.holds.clear hfd
        · simp [h.listener_notMem]
        · simpa [hclient] using h.sound

variable {ready : Fin N → Bool} {answers : Answers N}

theorem Inv.visit {t : SlotTable N} (h : Inv t) (i : Fin N) : Inv (t.visit ready answers i) := by
  unfold SlotTable.visit
  split
  · split
    · exact h.accept _
    · next hi => exact h.service hi _
  · exact h

theorem Inv.foldl_visit {t : SlotTable N} (h : Inv t) (is : List (Fin N)) :
    Inv (is.foldl (SlotTable.visit ready answers) t) := by
  induction is generalizing t with
  | nil => exact h
  | cons i is ih => exact ih (h.visit i)

theorem foldl_visit_of_not_ready {t : SlotTable N} {is : List (Fin N)}
    (hready : ∀ i ∈ is, ready i = false) : is.foldl (visit ready answers) t = t := by
  induction is with
  | nil => rfl
  | cons i is ih =>
      simp only [List.forall_mem_cons] at hready
      rw [List.foldl_cons, visit, hready.1]
      exact ih hready.2

/-- Only one slot is reported. -/
theorem pass_of_single {t : SlotTable N} {i : Fin N} (hready : ∀ j, ready j = true ↔ j = i) :
    t.pass ready answers = t.visit ready answers i := by
  obtain ⟨before, behind, hrange⟩ := List.append_of_mem (List.mem_finRange i)
  have hnodup := List.nodup_finRange N
  rw [hrange, List.nodup_middle, List.nodup_cons, List.mem_append, not_or] at hnodup
  have hquiet : ∀ j, j ≠ i → ready j = false := fun j hj =>
    Bool.eq_false_iff.mpr fun hr => hj ((hready j).mp hr)
  rw [pass, hrange, List.foldl_append, List.foldl_cons,
    foldl_visit_of_not_ready fun j hj => hquiet j fun heq => hnodup.1.1 (heq ▸ hj),
    foldl_visit_of_not_ready fun j hj => hquiet j fun heq => hnodup.1.2 (heq ▸ hj)]

theorem Inv.opened_of_slot {t : SlotTable N} (h : Inv t) {i : Fin N} {fd : Fd}
    (hi : t.slots i = some fd) : fd ∈ t.opened := by
  have hmem := h.holds.mem hi
  simp only [Finset.mem_insert] at hmem
  simp only [opened, Finset.mem_insert, Finset.mem_union]
  tauto

theorem Inv.pass {t : SlotTable N} (h : Inv t) : Inv (t.pass ready answers) :=
  h.foldl_visit _

/-! ## What one pass touches -/

theorem accept_slots (t : SlotTable N) (choice : NewFd) (i : Fin N) :
    (t.accept choice).slots i = t.slots i ∨
      t.slots i = none ∧ freeSlot t.slots = some i ∧
        (t.accept choice).slots i = some (choice.choose t.opened) := by
  unfold accept
  simp only
  split
  · exact .inl rfl
  · next pos hpos =>
      by_cases hi : i = pos
      · subst hi
        exact .inr ⟨(freeSlot_spec hpos).2, hpos, by simp⟩
      · exact .inl (by simp [hi])

theorem accept_slots_of_ne_none {t : SlotTable N} {i : Fin N} (hi : t.slots i ≠ none)
    (choice : NewFd) : (t.accept choice).slots i = t.slots i := by
  rcases accept_slots t choice i with hsame | ⟨hnone, -⟩
  · exact hsame
  · exact absurd hnone hi

theorem accept_serviced (t : SlotTable N) (choice : NewFd) :
    (t.accept choice).trace.serviced = t.trace.serviced := by
  unfold accept
  simp only
  split <;> rfl

theorem visit_slots_of_ne {t : SlotTable N} {i j : Fin N} (hi : i ≠ 0) (hj : j ≠ i) :
    (t.visit ready answers i).slots j = t.slots j := by
  simp only [visit, hi, if_false, service]
  split
  · split
    · rfl
    · split <;> simp [hj]
  · rfl

theorem visit_serviced {t : SlotTable N} {i : Fin N} (hi : i ≠ 0)
    (hready : ready i = true → t.slots i ≠ none) :
    (t.visit ready answers i).trace.serviced =
      t.trace.serviced ++ if ready i then [i] else [] := by
  simp only [visit, hi, if_false, service]
  split
  · next hr =>
      obtain ⟨fd, hfd⟩ := Option.ne_none_iff_exists'.mp (hready hr)
      simp only [hfd]
      split <;> simp
  · simp

theorem serviced_foldl {t : SlotTable N} {is : List (Fin N)} (hnodup : is.Nodup)
    (hzero : 0 ∉ is) (hready : ∀ i ∈ is, ready i = true → t.slots i ≠ none) :
    (is.foldl (visit ready answers) t).trace.serviced =
      t.trace.serviced ++ is.filter ready := by
  induction is generalizing t with
  | nil => simp
  | cons i is ih =>
      simp only [List.nodup_cons, List.mem_cons, not_or] at hnodup hzero
      have hi : i ≠ 0 := Ne.symm hzero.1
      rw [List.foldl_cons, ih hnodup.2 hzero.2, visit_serviced hi (hready i (by simp))]
      · simp only [List.filter_cons, List.append_assoc]
        split <;> simp
      · intro j hj hr
        have hne : j ≠ i := by
          rintro rfl
          exact hnodup.1 hj
        rw [visit_slots_of_ne hi hne]
        exact hready j (by simp [hj]) hr

theorem finRange_eq_cons (N : Nat) [NeZero N] :
    ∃ rest, List.finRange N = 0 :: rest ∧ 0 ∉ rest ∧ rest.Nodup := by
  obtain ⟨n, rfl⟩ := Nat.exists_eq_succ_of_ne_zero (NeZero.ne N)
  refine ⟨(List.finRange n).map Fin.succ, List.finRange_succ, ?_, ?_⟩
  · simp
  · exact (List.nodup_finRange n).map (Fin.succ_injective n)

/-- `ServiceIO` is called once for each client slot reported readable, and for no
other slot: none that was filled in the pass. -/
theorem serviced_pass {t : SlotTable N} (hready : ∀ i, ready i = true → t.slots i ≠ none) :
    (t.pass ready answers).trace.serviced =
      t.trace.serviced ++ (List.finRange N).filter fun i => decide (i ≠ 0) && ready i := by
  obtain ⟨rest, hrange, hzero, hnodup⟩ := finRange_eq_cons N
  have hfirst : (t.visit ready answers 0).trace.serviced = t.trace.serviced := by
    simp only [visit, if_true]
    split
    · exact accept_serviced _ _
    · rfl
  have hslots : ∀ i ∈ rest, ready i = true → (t.visit ready answers 0).slots i ≠ none := by
    intro i _ hr
    simp only [visit, if_true]
    split
    · rw [accept_slots_of_ne_none (hready i hr)]
      exact hready i hr
    · exact hready i hr
  have hfilter : rest.filter (fun i => decide (i ≠ 0) && ready i) = rest.filter ready := by
    apply List.filter_congr
    intro i hi
    have hne : i ≠ 0 := fun h0 => hzero (h0 ▸ hi)
    simp [hne]
  unfold pass
  rw [hrange, List.foldl_cons, serviced_foldl hnodup hzero hslots, hfirst, List.filter_cons]
  simpa using hfilter.symm

end SlotTable

end LinuxAdvance.Echo
