import LinuxAdvance.Echo.PollServer
import LinuxAdvance.Echo.SelectServer

/-!
# What is in the slots

The invariant of the slot table in the words of its readers, over every run of
either server and at every moment of a pass.  The poll server keeps it always; the
select server while the descriptors it stores are in the range of an `fd_set`.
-/

namespace LinuxAdvance.Echo

open LinuxAdvance.Foundation
open LinuxAdvance.Cxx
open LinuxAdvance.System

variable {N : Nat} [NeZero N]

/-- The clients of a trace are the descriptors accepted and not closed since. -/
structure SlotTable.Ok (t : SlotTable N) : Prop where
  listener : t.slots 0 = some t.listensock
  client : ∀ i fd, i ≠ 0 → t.slots i = some fd → fd ∈ t.trace.clients
  distinct : ∀ i j fd, t.slots i = some fd → t.slots j = some fd → i = j
  placed : ∀ fd, fd ∈ t.trace.clients → ∃! i, t.slots i = some fd
  sound : t.trace.Sound

theorem SlotTable.Inv.ok {t : SlotTable N} (h : t.Inv) : t.Ok where
  listener := h.listener
  client := by
    intro i fd hi hfd
    have hmem := h.holds.mem hfd
    rw [Finset.mem_insert] at hmem
    refine hmem.resolve_left ?_
    rintro rfl
    exact hi (h.holds.apart hfd h.listener)
  distinct := fun _ _ _ => h.holds.apart
  placed := fun _ hfd => h.holds.existsUnique (Finset.mem_insert_of_mem hfd)
  sound := h.sound

theorem SlotTable.accept_full {t : SlotTable N} (hfull : ∀ i, t.slots i ≠ none)
    (choice : NewFd) :
    t.accept choice = { t with trace := t.trace.turnAway (choice.choose t.opened) } := by
  have hfree : freeSlot t.slots = none := freeSlot_eq_none_iff.mpr fun i _ => hfull i
  simp [accept, hfree, Trace.turnAway]

theorem SlotTable.take_finRange (N : Nat) [NeZero N] (k : Nat) :
    (List.finRange N).take k = [] ∨
      ∃ is, (List.finRange N).take k = 0 :: is ∧ 0 ∉ is ∧ is.Nodup := by
  obtain ⟨rest, hrange, hzero, hnodup⟩ := finRange_eq_cons N
  cases k with
  | zero => exact .inl rfl
  | succ k =>
      refine .inr ⟨rest.take k, by rw [hrange, List.take_succ_cons], ?_, ?_⟩
      · exact fun hmem => hzero (List.mem_of_mem_take hmem)
      · exact hnodup.sublist (List.take_sublist k rest)

theorem prefix_concat_cases {α : Type} {before pre : List α} {a b : α}
    (h : pre ++ [a] <+: before ++ [b]) : pre ++ [a] <+: before ∨ pre = before ∧ a = b := by
  rcases List.prefix_concat_iff.mp h with heq | hpre
  · obtain ⟨hbefore, hone⟩ := List.append_inj' heq rfl
    exact .inr ⟨hbefore, List.singleton_inj.mp hone⟩
  · exact .inl hpre

namespace SelectServer

structure Iterates (s : SelectServer N) (round : SelectRound N) : Prop where
  throughout : ∀ k, ∃ m, (iteration ((List.finRange N).take k) round).run s = .done () m ∧
    m.table.Ok
  serviced : ∃ s', (loopOnce round).run s = .done () s' ∧
    s'.trace.serviced = s.trace.serviced ++
      (List.finRange N).filter fun i => decide (i ≠ 0) && s.ready round i
  full : (∀ i, s.fdArray i ≠ none) → ∀ choice : NewFd,
    (acceptClient choice).run s = .done ()
      { s with trace := s.trace.turnAway (choice.choose s.table.opened) }

def Keeps (start : SelectServer N) (rounds : List (SelectRound N)) : Prop :=
  ∀ pre round, pre ++ [round] <+: rounds →
    ∃ s, (loop pre).run start = .done () s ∧ s.Iterates round

def AlwaysFits (start : SelectServer N) (rounds : List (SelectRound N)) : Prop :=
  ∀ pre round s, pre ++ [round] <+: rounds → (loop pre).run start = .done () s →
    s.Fits round

theorem alwaysFits_nil (start : SelectServer N) : start.AlwaysFits [] := by
  intro pre round _ hpre
  simp at hpre

theorem alwaysFits_concat {start : SelectServer N} {rounds : List (SelectRound N)}
    {round : SelectRound N} : start.AlwaysFits (rounds ++ [round]) ↔
      start.AlwaysFits rounds ∧
        ∀ s, (loop rounds).run start = .done () s → s.Fits round := by
  constructor
  · intro h
    refine ⟨fun pre last s hpre => ?_, fun s hrun => h rounds round s (List.prefix_refl _) hrun⟩
    exact h pre last s (hpre.trans (List.prefix_append _ _))
  · rintro ⟨hbefore, hlast⟩ pre last s hpre hrun
    rcases prefix_concat_cases hpre with hpre | ⟨rfl, rfl⟩
    · exact hbefore pre last s hpre hrun
    · exact hlast s hrun

theorem inv_initial (listensock : Fd) (others : Finset Fd) :
    (initial N listensock others).table.Inv := SlotTable.inv_start listensock others

theorem inv_of_loop {start s : SelectServer N} (h : start.table.Inv)
    {rounds : List (SelectRound N)} (hrun : (loop rounds).run start = .done () s) :
    s.table.Inv := by
  induction rounds using List.reverseRecOn generalizing s with
  | nil =>
      cases hrun
      exact h
  | append_singleton rounds round ih =>
      obtain ⟨t, ht, hround⟩ := Proc.forEach_concat_eq_done.mp hrun
      have hfits := (loopOnce_done_iff (ih ht)).mp ⟨s, hround⟩
      rw [run_loopOnce (ih ht) hfits] at hround
      cases hround
      exact (ih ht).pass

omit [NeZero N] in
theorem ready_slot {s : SelectServer N} {round : SelectRound N} {i : Fin N}
    (h : s.ready round i = true) : s.table.slots i ≠ none := by
  unfold ready at h
  split at h
  · next hfd => simp [table, hfd]
  · simp at h

theorem run_iteration_nil {s : SelectServer N} {round : SelectRound N} (hfits : s.Fits round) :
    (iteration [] round).run s = .done () s := by
  cases hround : round.readable with
  | none => exact run_iteration_failed hfits.stored hround []
  | some readable =>
      obtain ⟨rfds, -, -, hrun⟩ := run_iteration_selected hfits.stored hround []
      rw [hrun]
      split <;> rfl

theorem iterates_of_fits {s : SelectServer N} (h : s.table.Inv) {round : SelectRound N}
    (hfits : s.Fits round) : s.Iterates round where
  throughout := by
    intro k
    rcases SlotTable.take_finRange N k with hnil | ⟨is, hcons, hzero, hnodup⟩
    · rw [hnil]
      exact ⟨s, run_iteration_nil hfits, h.ok⟩
    · rw [hcons]
      exact ⟨_, run_iteration h hfits hnodup hzero, (h.foldl_visit (0 :: is)).ok⟩
  serviced := ⟨_, run_loopOnce h hfits, SlotTable.serviced_pass fun _ => ready_slot⟩
  full := by
    intro hfull choice
    rw [run_acceptClient, SlotTable.accept_full hfull]
    rfl

theorem keeps_iff {start : SelectServer N} (h : start.table.Inv)
    {rounds : List (SelectRound N)} : start.Keeps rounds ↔ start.AlwaysFits rounds := by
  constructor
  · intro hkeeps pre round s hpre hrun
    obtain ⟨s', hrun', hiterates⟩ := hkeeps pre round hpre
    rw [hrun] at hrun'
    cases hrun'
    obtain ⟨s'', hround, -⟩ := hiterates.serviced
    exact (loopOnce_done_iff (inv_of_loop h hrun)).mp ⟨s'', hround⟩
  · intro hfits pre round hpre
    have hreach : ∀ pre, pre <+: rounds → ∃ s, (loop pre).run start = .done () s := by
      intro pre
      induction pre using List.reverseRecOn with
      | nil => exact fun _ => ⟨start, rfl⟩
      | append_singleton pre round ih =>
          intro hpre
          obtain ⟨s, hs⟩ := ih ((List.prefix_append _ _).trans hpre)
          have hnext := run_loopOnce (inv_of_loop h hs) (hfits pre round s hpre hs)
          exact ⟨_, Proc.forEach_concat_eq_done.mpr ⟨s, hs, hnext⟩⟩
    obtain ⟨s, hs⟩ := hreach pre ((List.prefix_append _ _).trans hpre)
    exact ⟨s, hs, iterates_of_fits (inv_of_loop h hs) (hfits pre round s hpre hs)⟩

end SelectServer

namespace PollServer

structure Iterates (p : PollServer N) (round : PollRound N) : Prop where
  throughout : ∀ k, ∃ m, (iteration ((List.finRange N).take k) round).run p = .done () m ∧
    m.table.Ok ∧ ∀ i, (m.fds i).events = if (m.fds i).fd.isSome then pollin else 0
  serviced : ∃ p', (loopOnce round).run p = .done () p' ∧
    p'.trace.serviced = p.trace.serviced ++
      (List.finRange N).filter fun i => decide (i ≠ 0) && p.ready round i
  full : (∀ i, (p.fds i).fd ≠ none) → ∀ choice : NewFd,
    (acceptClient choice).run p = .done ()
      { p with trace := p.trace.turnAway (choice.choose p.table.opened) }

def Keeps (start : PollServer N) (rounds : List (PollRound N)) : Prop :=
  ∀ pre round, pre ++ [round] <+: rounds →
    ∃ p, (loop pre).run start = .done () p ∧ p.Iterates round

theorem exists_loop {start : PollServer N} (h : start.Inv) (rounds : List (PollRound N)) :
    ∃ p, (loop rounds).run start = .done () p ∧ p.Inv := by
  induction rounds using List.reverseRecOn with
  | nil => exact ⟨start, rfl, h⟩
  | append_singleton rounds round ih =>
      obtain ⟨p, hp, hinv⟩ := ih
      obtain ⟨q, hq, -, hqinv⟩ := run_loopOnce hinv round
      exact ⟨q, Proc.forEach_concat_eq_done.mpr ⟨p, hp, hq⟩, hqinv⟩

omit [NeZero N] in
theorem ready_slot {p : PollServer N} {round : PollRound N} {i : Fin N}
    (h : p.ready round i = true) : p.table.slots i ≠ none := by
  unfold ready at h
  split at h
  · simp at h
  · simp only [look, polled, Bool.and_eq_true] at h
    exact Option.isSome_iff_ne_none.mp h.1

theorem iterates {p : PollServer N} (h : p.Inv) (round : PollRound N) : p.Iterates round where
  throughout := by
    intro k
    obtain ⟨m, hm, -, hinv⟩ :=
      run_iteration h round ((List.nodup_finRange N).sublist (List.take_sublist k _))
    exact ⟨m, hm, hinv.table.ok, hinv.events⟩
  serviced := by
    obtain ⟨p', hp', htable, -⟩ := run_loopOnce h round
    refine ⟨p', hp', ?_⟩
    change p'.table.trace.serviced = _
    rw [htable]
    exact SlotTable.serviced_pass fun _ => ready_slot
  full := by
    intro hfull choice
    have hfree : freeSlot p.table.slots = none :=
      SlotTable.freeSlot_eq_none_iff.mpr fun i _ => hfull i
    simp [acceptClient, hfree, log, Trace.turnAway]

theorem keeps {start : PollServer N} (h : start.Inv) (rounds : List (PollRound N)) :
    start.Keeps rounds := by
  intro pre round _
  obtain ⟨p, hp, hinv⟩ := exists_loop h pre
  exact ⟨p, hp, iterates hinv round⟩

end PollServer

theorem slot_tables (listensock : Fd) (others : Finset Fd) (selects : List (SelectRound N))
    (polls : List (PollRound N)) :
    ((SelectServer.initial N listensock others).Keeps selects ↔
      (SelectServer.initial N listensock others).AlwaysFits selects) ∧
    (PollServer.initial N listensock others).Keeps polls :=
  ⟨SelectServer.keeps_iff (SelectServer.inv_initial listensock others),
    PollServer.keeps (PollServer.inv_initial listensock others).2 polls⟩

/-! ## Iterations in which one descriptor can be read -/

/-- One descriptor that can be read, the slot it is in, and what `recv` brings. -/
structure Stir (N : Nat) where
  slot : Fin N
  fd : Fd
  answer : RecvResult

namespace Stir

def answers (e : Stir N) : Answers N := ⟨.lowest, fun _ => e.answer⟩

def select (e : Stir N) : SelectRound N := ⟨some fun fd => decide (fd = e.fd), e.answers⟩

def poll (e : Stir N) : PollRound N :=
  ⟨some fun i => if i = e.slot then pollin else 0, e.answers⟩

structure Takes (e : Stir N) (t u : SlotTable N) : Prop where
  slot : t.slots e.slot = some e.fd
  stored : SelectServer.InRange t.slots
  room : e.slot = 0 → NewFd.lowest.choose t.opened < N
  next : (if e.slot = 0 then t.accept .lowest else t.service e.slot e.answer) = u

variable {e : Stir N} {t u : SlotTable N}

theorem ready_select (ht : t.Inv) (hslot : t.slots e.slot = some e.fd) (j : Fin N) :
    (SelectServer.ofTable t).ready e.select j = true ↔ j = e.slot := by
  have hready : (SelectServer.ofTable t).ready e.select j = true ↔ t.slots j = some e.fd := by
    cases hj : t.slots j with
    | none => simp [SelectServer.ready, SelectServer.ofTable, select, hj]
    | some fd => simp [SelectServer.ready, SelectServer.ofTable, select, hj]
  rw [hready]
  exact ⟨fun hj => ht.holds.apart hj hslot, fun hj => hj ▸ hslot⟩

theorem ready_poll {p : PollServer N} (hp : p.Inv) (hslot : p.table.slots e.slot = some e.fd)
    (j : Fin N) : p.ready e.poll j = true ↔ j = e.slot := by
  have hfd : (p.fds e.slot).fd = some e.fd := hslot
  have hevents := hp.events e.slot
  rw [hfd] at hevents
  simp only [PollServer.ready, poll, PollServer.look, PollServer.polled]
  by_cases hj : j = e.slot
  · subst hj
    simp [hfd, hevents, pollin, pollAlways]
  · simp [hj]

theorem visit_of_takes (h : e.Takes t u) {ready : Fin N → Bool}
    (hready : ∀ j, ready j = true ↔ j = e.slot) : t.pass ready e.answers = u := by
  rw [SlotTable.pass_of_single hready, SlotTable.visit, if_pos ((hready _).mpr rfl)]
  exact h.next

theorem Takes.fits (h : e.Takes t u) (ht : t.Inv) : (SelectServer.ofTable t).Fits e.select where
  stored := h.stored
  accepted := fun hready _ => h.room ((ready_select ht h.slot 0).mp hready).symm

theorem Takes.run_select (h : e.Takes t u) (ht : t.Inv) :
    (SelectServer.loopOnce e.select).run (SelectServer.ofTable t) =
      .done () (SelectServer.ofTable u) := by
  rw [SelectServer.run_loopOnce (by exact ht) (h.fits ht)]
  exact congrArg _ (congrArg _ (visit_of_takes h (ready_select ht h.slot)))

theorem Takes.run_poll {p : PollServer N} (hp : p.Inv) (h : e.Takes p.table u) :
    ∃ q, (PollServer.loopOnce e.poll).run p = .done () q ∧ q.table = u ∧ q.Inv := by
  obtain ⟨q, hq, htable, hinv⟩ := PollServer.run_loopOnce hp e.poll
  exact ⟨q, hq, htable.trans (visit_of_takes h (ready_poll hp h.slot)), hinv⟩

theorem Takes.inv (h : e.Takes t u) (ht : t.Inv) : u.Inv := by
  rw [← h.next]
  split
  · exact ht.accept _
  · next hslot => exact ht.service hslot _

end Stir

/-- Iterations with one such descriptor each, from an empty table. -/
inductive Stirs (listensock : Fd) (others : Finset Fd) : List (Stir N) → SlotTable N → Prop
  | nobody : Stirs listensock others [] (.start N listensock others)
  | stir {es : List (Stir N)} {t u : SlotTable N} {e : Stir N} (hbefore : Stirs listensock others es t)
      (htakes : e.Takes t u) : Stirs listensock others (es ++ [e]) u

namespace Stirs

variable {listensock : Fd} {others : Finset Fd} {es : List (Stir N)} {t : SlotTable N}

theorem inv (h : Stirs listensock others es t) : t.Inv := by
  induction h with
  | nobody => exact SlotTable.inv_start listensock others
  | stir _ htakes ih => exact htakes.inv ih

theorem run_select (h : Stirs listensock others es t) :
    (SelectServer.loop (es.map Stir.select)).run (.initial N listensock others) =
      .done () (SelectServer.ofTable t) := by
  induction h with
  | nobody => rfl
  | stir hbefore htakes ih =>
      rw [List.map_append]
      exact Proc.forEach_concat_eq_done.mpr ⟨_, ih, htakes.run_select hbefore.inv⟩

theorem run_poll (h : Stirs listensock others es t) :
    ∃ p, (PollServer.loop (es.map Stir.poll)).run (.initial N listensock others) = .done () p ∧
      p.table = t ∧ p.Inv := by
  induction h with
  | nobody =>
      obtain ⟨htable, hinv⟩ := PollServer.inv_initial (N := N) listensock others
      exact ⟨_, rfl, htable, hinv⟩
  | stir _ htakes ih =>
      obtain ⟨p, hp, rfl, hinv⟩ := ih
      obtain ⟨q, hq, hnext⟩ := htakes.run_poll hinv
      refine ⟨q, ?_, hnext⟩
      rw [List.map_append]
      exact Proc.forEach_concat_eq_done.mpr ⟨p, hp, hq⟩

theorem alwaysFits (h : Stirs listensock others es t) :
    (SelectServer.initial N listensock others).AlwaysFits (es.map Stir.select) := by
  induction h with
  | nobody => exact SelectServer.alwaysFits_nil _
  | stir hbefore htakes ih =>
      rw [List.map_append]
      refine SelectServer.alwaysFits_concat.mpr ⟨ih, fun s hs => ?_⟩
      rw [hbefore.run_select] at hs
      cases hs
      exact htakes.fits hbefore.inv

end Stirs

/-- The listener is 3, and the second slot is that of the only client. -/
def hosting (client : Option Fd) (trace : Trace 1024) : SlotTable 1024 where
  slots := Function.update (Function.update (fun _ => none) 0 (some 3)) 1 client
  listensock := 3
  others := {0, 1, 2}
  trace

theorem inRange_hosting {client : Option Fd} (hclient : ∀ fd, client = some fd → fd < 1024)
    (trace : Trace 1024) : SelectServer.InRange (hosting client trace).slots := by
  intro i fd hi
  by_cases hone : i = 1
  · subst hone
    exact hclient fd (by simpa [hosting] using hi)
  · by_cases hzero : i = 0
    · simp [hosting, hzero] at hi
      simp [← hi]
    · simp [hosting, hzero, hone] at hi

theorem clients_hosting_none {trace : Trace 1024} (h : (hosting none trace).Inv) :
    trace.clients = ∅ := by
  refine Finset.eq_empty_of_forall_notMem fun fd hfd => ?_
  obtain ⟨i, hi⟩ := (h.holds.mem_iff fd).mp (Finset.mem_insert_of_mem hfd)
  by_cases hone : i = 1
  · simp [hosting, hone] at hi
  · by_cases hzero : i = 0
    · simp [hosting, hzero] at hi
      subst hi
      exact h.listener_notMem hfd
    · simp [hosting, hzero, hone] at hi

theorem lowest_eq_four : NewFd.lowest.choose (insert 3 ({0, 1, 2} ∪ ∅)) = 4 := by
  refine (Nat.find_eq_iff _).mpr ⟨by decide, ?_⟩
  intro n hn
  interval_cases n <;> decide

theorem takes_comes {trace : Trace 1024} (h : (hosting none trace).Inv) (answer : RecvResult) :
    (⟨0, 3, answer⟩ : Stir 1024).Takes (hosting none trace)
      (hosting (some 4) (trace.log (.accept 4))) := by
  have hchoose : NewFd.lowest.choose (hosting none trace).opened = 4 := by
    rw [SlotTable.opened, show (hosting none trace).trace.clients = ∅ from clients_hosting_none h]
    exact lowest_eq_four
  have hfree : freeSlot (hosting none trace).slots = some 1 :=
    SlotTable.freeSlot_second (n := 1022) (by simp [hosting])
  refine ⟨h.listener, inRange_hosting (by simp) trace, fun _ => ?_, ?_⟩
  · rw [hchoose]
    decide
  · rw [if_pos rfl, SlotTable.accept, hchoose, hfree]
    simp [hosting]

theorem takes_speaks (trace : Trace 1024) (chunk : Chunk) :
    (⟨1, 4, .data chunk⟩ : Stir 1024).Takes (hosting (some 4) trace)
      (hosting (some 4) (((trace.service 1).log (.recv 4)).log (.send 4 (echo chunk)))) :=
  ⟨rfl, inRange_hosting (by simp) trace, fun hzero => absurd hzero (by simp), rfl⟩

theorem takes_leaves (trace : Trace 1024) :
    (⟨1, 4, .eof⟩ : Stir 1024).Takes (hosting (some 4) trace)
      (hosting none (((trace.service 1).log (.recv 4)).log (.close 4))) := by
  refine ⟨rfl, inRange_hosting (by simp) trace, fun hzero => absurd hzero (by simp), ?_⟩
  rw [if_neg (by simp)]
  simp [hosting, SlotTable.service]

def hello : Chunk := ⟨text "x", by decide, by decide⟩

/-- A client comes, speaks and goes, and the next one gets its slot and its number. -/
def visitors : List (Stir 1024) := [⟨0, 3, .eof⟩, ⟨1, 4, .data hello⟩, ⟨1, 4, .eof⟩, ⟨0, 3, .eof⟩]

theorem stirs_visitors : ∃ trace, Stirs 3 {0, 1, 2} visitors (hosting (some 4) trace) ∧
    trace.calls = [.accept 4, .recv 4, .send 4 (echo hello), .recv 4, .close 4, .accept 4] ∧ trace.serviced = [1, 1] := by
  have hstart : hosting none {} = .start 1024 3 {0, 1, 2} := by
    simp only [hosting, SlotTable.start, SlotTable.mk.injEq, and_true]
    exact Function.update_eq_self (1 : Fin 1024) _
  have h₀ : Stirs 3 {0, 1, 2} [] (hosting none {}) := hstart ▸ .nobody
  have h₁ := h₀.stir (takes_comes h₀.inv .eof)
  have h₂ := h₁.stir (takes_speaks _ hello)
  have h₃ := h₂.stir (takes_leaves _)
  exact ⟨_, h₃.stir (takes_comes h₃.inv .eof), rfl, rfl⟩

theorem slot_tables_visitors :
    (SelectServer.initial 1024 3 {0, 1, 2}).Keeps (visitors.map Stir.select) ∧
      (PollServer.initial 1024 3 {0, 1, 2}).Keeps (visitors.map Stir.poll) ∧
      ∃ s, (SelectServer.loop (visitors.map Stir.select)).run (.initial 1024 3 {0, 1, 2}) =
          .done () s ∧
        s.fdArray 1 = some 4 ∧ s.trace.serviced = [1, 1] ∧
        s.trace.calls = [.accept 4, .recv 4, .send 4 (echo hello), .recv 4, .close 4,
          .accept 4] := by
  obtain ⟨trace, hstirs, hcalls, hserviced⟩ := stirs_visitors
  have htables := slot_tables (N := 1024) 3 {0, 1, 2} (visitors.map Stir.select)
    (visitors.map Stir.poll)
  exact ⟨htables.1.mpr hstirs.alwaysFits, htables.2, _, hstirs.run_select, rfl, hserviced,
    hcalls⟩

def someRound (N : Nat) : SelectRound N :=
  ⟨some fun _ => true, .above, fun _ => .data ⟨text "x", by decide, by decide⟩⟩

/-- The process has the descriptors below 1024 open: the first client's does not
fit in an `fd_set`. -/
theorem fd_set_overrun :
    ¬ ∀ (listensock : Fd) (others : Finset Fd) (selects : List (SelectRound 1024))
      (polls : List (PollRound 1024)),
      (SelectServer.initial 1024 listensock others).Keeps selects ∧
        (PollServer.initial 1024 listensock others).Keeps polls := by
  intro h
  let start := SelectServer.initial 1024 3 (Finset.range 1024)
  obtain ⟨s, hrun, hiterates⟩ :=
    (h 3 (Finset.range 1024) [someRound 1024] []).1 [] (someRound 1024) (List.prefix_refl _)
  cases hrun
  obtain ⟨s', hs', -⟩ := hiterates.serviced
  have hfits : start.Fits (someRound 1024) :=
    (SelectServer.loopOnce_done_iff (SelectServer.inv_initial _ _)).mp ⟨s', hs'⟩
  have hfree : freeSlot start.fdArray ≠ none := by
    intro hnone
    exact SlotTable.freeSlot_eq_none_iff.mp hnone 1 (by decide)
      (by simp [start, SelectServer.initial])
  have hlt : NewFd.above.choose start.table.opened < 1024 :=
    hfits.accepted (by simp [SelectServer.ready, someRound, start, SelectServer.initial]) hfree
  have hmem : 1023 ∈ start.table.opened := by
    simp [SlotTable.opened, SelectServer.table, start, SelectServer.initial]
  have hle : 1023 ≤ start.table.opened.sup id := Finset.le_sup (f := id) hmem
  exact absurd hlt (Nat.not_lt.mpr (Nat.succ_le_succ hle))

end LinuxAdvance.Echo
