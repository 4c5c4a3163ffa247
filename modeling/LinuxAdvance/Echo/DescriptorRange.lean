import LinuxAdvance.Echo.Occupancy

/-!
# Descriptors and the range of an `fd_set`

`AcceptClient` turns a client away when no slot is free.  What has to be free is a
number below `N`, and of these the process has used some for other descriptors,
which take no slot.
-/

namespace LinuxAdvance.Echo

open LinuxAdvance.Foundation
open LinuxAdvance.System

variable {N : Nat} [NeZero N] {others : Finset Fd}

/-- How many numbers in the range of an `fd_set` the other descriptors take. -/
def usedBy (N : Nat) (others : Finset Fd) : Nat := (others.filter (· < N)).card

/-! ## No number is given twice -/

namespace SlotTable

structure Numbered (others : Finset Fd) (t : SlotTable N) : Prop where
  others_eq : t.others = others
  listener : t.listensock = NewFd.lowest.choose others
  clients : Disjoint others t.trace.clients

theorem Numbered.accept {t : SlotTable N} (h : t.Numbered others) (choice : NewFd) :
    (t.accept choice).Numbered others := by
  have hnew : choice.choose t.opened ∉ others := by
    have hnot := choice.notMem t.opened
    simp only [opened, Finset.mem_insert, Finset.mem_union, not_or] at hnot
    exact h.others_eq ▸ hnot.2.1
  unfold SlotTable.accept
  dsimp only
  split
  · refine ⟨h.others_eq, h.listener, ?_⟩
    simp only [Trace.clients_close, Trace.clients_accept, Finset.erase_insert_eq_erase]
    exact h.clients.mono_right (Finset.erase_subset _ _)
  · refine ⟨h.others_eq, h.listener, ?_⟩
    simp only [Trace.clients_accept]
    exact Finset.disjoint_insert_right.mpr ⟨hnew, h.clients⟩

omit [NeZero N] in
theorem Numbered.service {t : SlotTable N} (h : t.Numbered others) (i : Fin N)
    (answer : RecvResult) : (t.service i answer).Numbered others := by
  unfold SlotTable.service
  split
  · exact h
  · dsimp only
    split
    · exact ⟨h.others_eq, h.listener, by simpa using h.clients⟩
    · refine ⟨h.others_eq, h.listener, ?_⟩
      simp only [Trace.clients_close, Trace.clients_recv, Trace.clients_service]
      exact h.clients.mono_right (Finset.erase_subset _ _)

theorem Numbered.foldl_visit {ready : Fin N → Bool} {answers : Answers N} {t : SlotTable N}
    (h : t.Numbered others) (is : List (Fin N)) :
    (is.foldl (visit ready answers) t).Numbered others := by
  induction is generalizing t with
  | nil => exact h
  | cons i is ih =>
      apply ih
      unfold visit
      split
      · split
        · exact h.accept _
        · exact h.service _ _
      · exact h

omit [NeZero N] in
theorem clients_subset_opened (t : SlotTable N) : t.trace.clients ⊆ t.opened :=
  Finset.subset_union_right.trans (Finset.subset_insert _ _)

theorem card_opened {t : SlotTable N} (h : t.Inv) (hnumbered : t.Numbered others)
    (hrange : SelectServer.InRange t.slots) :
    (t.opened.filter (· < N)).card = usedBy N others + 1 + t.trace.clients.card := by
  have hlisten : t.listensock < N := hrange 0 _ h.listener
  have hnot : t.listensock ∉ others := hnumbered.listener ▸ NewFd.lowest.notMem others
  have hclients : t.trace.clients.filter (· < N) = t.trace.clients := by
    apply Finset.filter_true_of_mem
    intro fd hfd
    obtain ⟨i, hi⟩ := (h.holds.mem_iff fd).mp (Finset.mem_insert_of_mem hfd)
    exact hrange i fd hi
  have hnotMem : t.listensock ∉ others.filter (· < N) ∪ t.trace.clients := by
    simp [hnot, h.listener_notMem]
  have hdisjoint : Disjoint (others.filter (· < N)) t.trace.clients :=
    hnumbered.clients.mono_left (Finset.filter_subset _ _)
  rw [opened, hnumbered.others_eq, Finset.filter_insert, if_pos hlisten, Finset.filter_union,
    hclients, Finset.card_insert_of_notMem hnotMem, Finset.card_union_of_disjoint hdisjoint,
    usedBy]
  omega

omit [NeZero N] in
theorem service_slots (t : SlotTable N) (i j : Fin N) (answer : RecvResult) :
    (t.service i answer).slots j = t.slots j ∨ (t.service i answer).slots j = none := by
  unfold service
  split
  · exact .inl rfl
  · dsimp only
    split
    · exact .inl rfl
    · by_cases hj : j = i
      · exact .inr (by simp [hj])
      · exact .inl (by simp [hj])

end SlotTable

namespace SelectServer

open SlotTable

/-! ## In range, from one moment to the next -/

theorem inRange_scan {ready : Fin N → Bool} {answers : Answers N} {t : SlotTable N}
    (h : InRange t.slots) {is : List (Fin N)} (hzero : 0 ∉ is) :
    InRange (is.foldl (SlotTable.visit ready answers) t).slots := by
  induction is generalizing t with
  | nil => exact h
  | cons i is ih =>
      simp only [List.mem_cons, not_or] at hzero
      refine ih ?_ hzero.2
      intro j fd hj
      simp only [SlotTable.visit, if_neg (Ne.symm hzero.1)] at hj
      split at hj
      · rcases service_slots t i j (answers.recv i) with hsame | hnone
        · exact h j fd (hsame ▸ hj)
        · simp [hnone] at hj
      · exact h j fd hj

theorem inRange_iteration {s : SelectServer N} {round : SelectRound N} (hfits : s.Fits round)
    {is : List (Fin N)} (hzero : 0 ∉ is) :
    InRange ((0 :: is).foldl (SlotTable.visit (s.ready round) round.answers) s.table).slots :=
  inRange_scan (inRange_after_first hfits) hzero

theorem exists_iteration {s : SelectServer N} (h : s.table.Inv) {round : SelectRound N}
    (hfits : s.Fits round) (k : Nat) :
    ∃ m, (iteration ((List.finRange N).take k) round).run s = .done () m ∧
      InRange m.fdArray := by
  rcases SlotTable.take_finRange N k with hnil | ⟨is, hcons, hzero, hnodup⟩
  · rw [hnil]
    exact ⟨s, run_iteration_nil hfits, hfits.stored⟩
  · rw [hcons]
    exact ⟨_, run_iteration h hfits hnodup hzero, inRange_iteration hfits hzero⟩

structure WellNumbered (others : Finset Fd) (s : SelectServer N) : Prop where
  inv : s.table.Inv
  numbered : s.table.Numbered others

theorem WellNumbered.loopOnce {s s' : SelectServer N} (h : s.WellNumbered others)
    {round : SelectRound N} (hrun : (loopOnce round).run s = .done () s') :
    s'.WellNumbered others ∧ InRange s'.fdArray := by
  have hfits := (loopOnce_done_iff h.inv).mp ⟨s', hrun⟩
  rw [run_loopOnce h.inv hfits] at hrun
  cases hrun
  obtain ⟨rest, hrange, hzero, -⟩ := SlotTable.finRange_eq_cons N
  refine ⟨⟨h.inv.pass, h.numbered.foldl_visit _⟩, ?_⟩
  have hpass := inRange_iteration hfits hzero
  rw [← hrange] at hpass
  exact hpass

theorem WellNumbered.loop {start s : SelectServer N} (h : start.WellNumbered others)
    {rounds : List (SelectRound N)} (hrun : (loop rounds).run start = .done () s) :
    s.WellNumbered others ∧ (InRange start.fdArray → InRange s.fdArray) := by
  induction rounds using List.reverseRecOn generalizing s with
  | nil =>
      cases hrun
      exact ⟨h, id⟩
  | append_singleton rounds round ih =>
      obtain ⟨t, ht, hround⟩ := Proc.forEach_concat_eq_done.mp hrun
      obtain ⟨hkept, hrange⟩ := (ih ht).1.loopOnce hround
      exact ⟨hkept, fun _ => hrange⟩

/-! ## The numbers that are left -/

/-- The listener has been given a number below `N`, and one is left for a client
that is accepted in this iteration and finds a slot. -/
structure NumberLeft (others : Finset Fd) (s : SelectServer N) (round : SelectRound N) : Prop where
  listener : usedBy N others < N
  client : s.ready round 0 = true → freeSlot s.fdArray ≠ none →
    usedBy N others + 1 + s.trace.clients.card < N

theorem WellNumbered.fits_iff {s : SelectServer N} (h : s.WellNumbered others)
    {round : SelectRound N} (haccept : round.answers.accept = .lowest) :
    s.Fits round ↔ InRange s.fdArray ∧ s.NumberLeft others round := by
  have hlowest : round.answers.accept.choose s.table.opened < N ↔
      (s.table.opened.filter (· < N)).card < N := by
    rw [haccept]
    exact NewFd.lowest_lt_iff
  constructor
  · intro hfits
    refine ⟨hfits.stored, ?_, ?_⟩
    · have hlt : s.listensock < N := hfits.stored 0 _ h.inv.listener
      have hlisten : s.listensock = NewFd.lowest.choose others := h.numbered.listener
      rw [hlisten] at hlt
      exact NewFd.lowest_lt_iff.mp hlt
    · intro hready hfree
      have hlt := hlowest.mp (hfits.accepted hready hfree)
      rwa [SlotTable.card_opened h.inv h.numbered hfits.stored] at hlt
  · rintro ⟨hrange, hleft⟩
    refine ⟨hrange, fun hready hfree => ?_⟩
    rw [hlowest, SlotTable.card_opened h.inv h.numbered hrange]
    exact hleft.client hready hfree

/-- The listener is opened while the others are, and gets the lowest number too. -/
def startLowest (N : Nat) [NeZero N] (others : Finset Fd) : SelectServer N :=
  initial N (NewFd.lowest.choose others) others

theorem wellNumbered_startLowest (others : Finset Fd) :
    (startLowest N others).WellNumbered others where
  inv := inv_initial _ others
  numbered := ⟨rfl, rfl, by simp [startLowest, initial, table, Trace.clients, ledger]⟩

theorem inRange_startLowest (h : usedBy N others < N) :
    InRange (startLowest N others).fdArray := by
  intro i fd hi
  by_cases hzero : i = 0
  · simp only [startLowest, initial, hzero, Function.update_self, Option.some.injEq] at hi
    exact hi ▸ NewFd.lowest_lt_iff.mpr h
  · simp [startLowest, initial, hzero] at hi

/-- Every iteration of a run ends, so that no argument of `FD_SET` or `FD_ISSET` is
outside the set, and at every moment of it every stored descriptor is below `N`. -/
def StaysInRange (start : SelectServer N) (rounds : List (SelectRound N)) : Prop :=
  ∀ pre round, pre ++ [round] <+: rounds →
    ∃ s, (loop pre).run start = .done () s ∧
      ∀ k, ∃ m, (iteration ((List.finRange N).take k) round).run s = .done () m ∧
        InRange m.fdArray

theorem StaysInRange.fits {start s : SelectServer N} (hstart : start.table.Inv)
    {rounds : List (SelectRound N)} (h : start.StaysInRange rounds)
    {pre : List (SelectRound N)} {round : SelectRound N} (hpre : pre ++ [round] <+: rounds)
    (hrun : (loop pre).run start = .done () s) : s.Fits round := by
  obtain ⟨s', hrun', hmoments⟩ := h pre round hpre
  rw [hrun] at hrun'
  cases hrun'
  obtain ⟨m, hm, -⟩ := hmoments N
  rw [List.take_of_length_le (by simp)] at hm
  exact (loopOnce_done_iff (inv_of_loop hstart hrun)).mp ⟨m, hm⟩

/-- Descriptors stay in range exactly while a number is left for every client that
finds a slot. -/
theorem stays_in_range_iff (others : Finset Fd) {rounds : List (SelectRound N)}
    (hlowest : ∀ round ∈ rounds, round.answers.accept = .lowest) :
    (startLowest N others).StaysInRange rounds ↔
      ∀ pre round s, pre ++ [round] <+: rounds →
        (loop pre).run (startLowest N others) = .done () s → s.NumberLeft others round := by
  have hstart := wellNumbered_startLowest (N := N) others
  have haccept : ∀ pre round, pre ++ [round] <+: rounds → round.answers.accept = .lowest :=
    fun pre round hpre => hlowest round (hpre.subset (by simp))
  constructor
  · intro h pre round s hpre hrun
    have hfits := h.fits hstart.inv hpre hrun
    exact (((hstart.loop hrun).1.fits_iff (haccept pre round hpre)).mp hfits).2
  · intro hleft
    have hfits : (startLowest N others).AlwaysFits rounds := by
      intro pre round s hpre hrun
      have hnow := hleft pre round s hpre hrun
      have hrange := (hstart.loop hrun).2 (inRange_startLowest hnow.listener)
      exact ((hstart.loop hrun).1.fits_iff (haccept pre round hpre)).mpr ⟨hrange, hnow⟩
    intro pre round hpre
    obtain ⟨s, hrun, -⟩ := (keeps_iff hstart.inv).mpr hfits pre round hpre
    exact ⟨s, hrun, exists_iteration (inv_of_loop hstart.inv hrun) (hfits pre round s hpre hrun)⟩

theorem startLowest_visitors :
    startLowest 1024 {0, 1, 2} = .initial 1024 3 {0, 1, 2} := by
  have hchoose : NewFd.lowest.choose {0, 1, 2} = 3 := by
    refine (Nat.find_eq_iff _).mpr ⟨by decide, ?_⟩
    intro n hn
    interval_cases n <;> decide
  rw [startLowest, hchoose]

theorem stays_in_range_visitors :
    (startLowest 1024 {0, 1, 2}).StaysInRange (visitors.map Stir.select) := by
  refine (stays_in_range_iff {0, 1, 2} ?_).mpr ?_
  · simp [visitors, Stir.select, Stir.answers]
  · intro pre round s hpre hrun
    obtain ⟨trace, hstirs, -⟩ := stirs_visitors
    have hkept := ((wellNumbered_startLowest {0, 1, 2}).loop hrun).1
    rw [startLowest_visitors] at hrun
    have haccept : round.answers.accept = .lowest := by
      obtain ⟨e, -, rfl⟩ := List.mem_map.mp (hpre.subset (by simp) : round ∈ _)
      rfl
    exact ((hkept.fits_iff haccept).mp (hstirs.alwaysFits pre round s hpre hrun)).2

def clientAsks (others : Finset Fd) : SelectRound N :=
  ⟨some fun fd => decide (fd = NewFd.lowest.choose others), .lowest, fun _ => .eof⟩

/-! ## A thousand clients -/

theorem freeSlot_of_card {s : SelectServer N} (h : s.table.Inv)
    (hcard : s.trace.clients.card + 1 < N) : freeSlot s.fdArray ≠ none := by
  intro hnone
  have hfull : ∀ i, s.table.slots i ≠ none := by
    intro i
    by_cases hzero : i = 0
    · simp [hzero, h.listener]
    · exact SlotTable.freeSlot_eq_none_iff.mp hnone i hzero
  have hle := h.holds.card_le_of_full hfull
  have hinsert := Finset.card_insert_le s.table.listensock s.table.trace.clients
  simp only [Fintype.card_fin] at hle
  have hclients : s.table.trace.clients.card = s.trace.clients.card := rfl
  omega

theorem ready_clientAsks {s : SelectServer N} (h : s.WellNumbered others) (i : Fin N) :
    s.ready (clientAsks others) i = decide (i = 0) := by
  have hlisten : s.listensock = NewFd.lowest.choose others := h.numbered.listener
  have hfirst : s.fdArray 0 = some s.listensock := h.inv.listener
  by_cases hzero : i = 0
  · simp [ready, clientAsks, hzero, hfirst, hlisten]
  · cases hi : s.fdArray i with
    | none => simp [ready, clientAsks, hi, hzero]
    | some fd =>
        have hne : fd ≠ s.listensock := by
          rintro rfl
          exact hzero (h.inv.holds.apart hi hfirst)
        simp [ready, clientAsks, hi, hzero, ← hlisten, hne]

theorem clients_loopOnce {s s' : SelectServer N} (h : s.WellNumbered others)
    (hcard : s.trace.clients.card + 1 < N)
    (hrun : (loopOnce (clientAsks others)).run s = .done () s') :
    s'.trace.clients.card = s.trace.clients.card + 1 := by
  rw [run_loopOnce h.inv ((loopOnce_done_iff h.inv).mp ⟨s', hrun⟩)] at hrun
  cases hrun
  obtain ⟨pos, hpos⟩ := Option.ne_none_iff_exists'.mp (freeSlot_of_card h.inv hcard)
  have hpos' : freeSlot s.table.slots = some pos := hpos
  have hnew : NewFd.lowest.choose s.table.opened ∉ s.table.trace.clients :=
    fun hmem => NewFd.lowest.notMem s.table.opened (s.table.clients_subset_opened hmem)
  have hpass : s.table.pass (s.ready (clientAsks others)) (clientAsks others).answers =
      s.table.accept .lowest := by
    rw [SlotTable.pass_of_single (i := 0) fun i => by simp [ready_clientAsks h],
      SlotTable.visit, if_pos (by simp [ready_clientAsks h]), if_pos rfl]
    rfl
  change (s.table.pass _ _).trace.clients.card = _
  rw [hpass, SlotTable.accept, hpos', Trace.clients_accept,
    Finset.card_insert_of_notMem hnew]
  rfl

theorem clients_loop {n : Nat} (hn : n < N) {s : SelectServer N}
    (hrun : (loop (List.replicate n (clientAsks others))).run (startLowest N others) =
      .done () s) : s.trace.clients.card = n := by
  induction n generalizing s with
  | zero =>
      cases hrun
      simp [startLowest, initial, Trace.clients, ledger]
  | succ n ih =>
      rw [List.replicate_succ'] at hrun
      obtain ⟨t, ht, hlast⟩ := Proc.forEach_concat_eq_done.mp hrun
      have hcard := ih (by omega) ht
      have hkept := ((wellNumbered_startLowest others).loop ht).1
      rw [clients_loopOnce hkept (by omega) hlast, hcard]

/-- With `0`, `1` and `2` open and 1020 clients connected, the next client finds a
slot, and its number does not fit in the set. -/
theorem full_set_overrun :
    ¬ (startLowest 1024 {0, 1, 2}).StaysInRange (List.replicate 1021 (clientAsks {0, 1, 2})) := by
  intro h
  have hstart := wellNumbered_startLowest (N := 1024) {0, 1, 2}
  have hpre : List.replicate 1020 (clientAsks {0, 1, 2}) ++ [clientAsks {0, 1, 2}] <+:
      List.replicate 1021 (clientAsks (N := 1024) {0, 1, 2}) := by
    rw [← List.replicate_succ']
  obtain ⟨s, hrun, -⟩ := h _ _ hpre
  have hkept := (hstart.loop hrun).1
  have hcard := clients_loop (by omega) hrun
  have hleft := ((hkept.fits_iff rfl).mp (h.fits hstart.inv hpre hrun)).2
  have hlt := hleft.client (by simp [ready_clientAsks hkept])
    (freeSlot_of_card hkept.inv (by omega))
  have hused : usedBy 1024 {0, 1, 2} = 3 := by decide
  omega

end SelectServer

end LinuxAdvance.Echo
