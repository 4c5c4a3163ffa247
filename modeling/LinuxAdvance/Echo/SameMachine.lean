import LinuxAdvance.Echo.Occupancy

/-!
# Two servers, one machine

Both servers carry out the passes of the slot table.  When they are told the same
they do the same, iteration by iteration: same slots, same system calls.
-/

namespace LinuxAdvance.Echo

open LinuxAdvance.Foundation
open LinuxAdvance.System

variable {N : Nat} [NeZero N]

/-- What an iteration of each server meets: the same answers of `accept` and
`recv`, and readiness in the form each is told it. -/
structure JointRound (N : Nat) where
  readable : Option (Fd → Bool)
  condition : Option (Fin N → Mask)
  answers : Answers N

namespace JointRound

def toSelect (round : JointRound N) : SelectRound N := ⟨round.readable, round.answers⟩

def toPoll (round : JointRound N) : PollRound N := ⟨round.condition, round.answers⟩

/-- A descriptor is in the result set of `select` exactly when its `pollfd` has
`POLLIN` in `revents`. -/
def Linked (round : JointRound N) (s : SelectServer N) (p : PollServer N) : Prop :=
  ∀ i, s.ready round.toSelect i = p.ready round.toPoll i

end JointRound

structure Same (s : SelectServer N) (p : PollServer N) : Prop where
  slots : ∀ i, s.fdArray i = (p.fds i).fd
  calls : s.trace.calls = p.trace.calls

/-- Both servers from the same listener, and whether they meet what they are
assumed to meet up to each iteration. -/
structure Schedule (listensock : Fd) (others : Finset Fd) (rounds : List (JointRound N)) :
    Prop where
  fits : ∀ pre round s, pre ++ [round] <+: rounds →
    (SelectServer.loop (pre.map JointRound.toSelect)).run (.initial N listensock others) =
      .done () s → s.Fits round.toSelect
  linked : ∀ pre round s p, pre ++ [round] <+: rounds →
    (SelectServer.loop (pre.map JointRound.toSelect)).run (.initial N listensock others) =
      .done () s →
    (PollServer.loop (pre.map JointRound.toPoll)).run (.initial N listensock others) =
      .done () p → round.Linked s p

omit [NeZero N] in
theorem same_of_tables {s : SelectServer N} {p : PollServer N} (h : s.table = p.table) :
    Same s p where
  slots := fun i => congrFun (congrArg SlotTable.slots h) i
  calls := congrArg (fun t => t.trace.calls) h

theorem same_pass {s : SelectServer N} {p : PollServer N} (hs : s.table.Inv) (hp : p.Inv)
    (hsame : s.table = p.table) {round : JointRound N} (hfits : s.Fits round.toSelect)
    (hlinked : round.Linked s p) :
    ∃ s' p', (SelectServer.loopOnce round.toSelect).run s = .done () s' ∧
      (PollServer.loopOnce round.toPoll).run p = .done () p' ∧ s'.table.Inv ∧ p'.Inv ∧
      s'.table = p'.table := by
  obtain ⟨p', hp', htable, hinv⟩ := PollServer.run_loopOnce hp round.toPoll
  refine ⟨_, p', SelectServer.run_loopOnce hs hfits, hp', hs.pass, hinv, ?_⟩
  rw [htable, SelectServer.table_ofTable, hsame, funext hlinked]
  rfl

theorem same_machine {listensock : Fd} {others : Finset Fd} {rounds : List (JointRound N)}
    (h : Schedule listensock others rounds) {pre : List (JointRound N)}
    (hpre : pre <+: rounds) :
    ∃ s p,
      (SelectServer.loop (pre.map JointRound.toSelect)).run
        (.initial N listensock others) = .done () s ∧
      (PollServer.loop (pre.map JointRound.toPoll)).run
        (.initial N listensock others) = .done () p ∧
      Same s p := by
  suffices hall : ∃ s p,
      (SelectServer.loop (pre.map JointRound.toSelect)).run
        (.initial N listensock others) = .done () s ∧
      (PollServer.loop (pre.map JointRound.toPoll)).run
        (.initial N listensock others) = .done () p ∧
      s.table.Inv ∧ p.Inv ∧ s.table = p.table by
    obtain ⟨s, p, hs, hp, -, -, htables⟩ := hall
    exact ⟨s, p, hs, hp, same_of_tables htables⟩
  induction pre using List.reverseRecOn with
  | nil =>
      obtain ⟨htable, hinv⟩ := PollServer.inv_initial (N := N) listensock others
      exact ⟨_, _, rfl, rfl, SelectServer.inv_initial listensock others, hinv, htable.symm⟩
  | append_singleton pre round ih =>
      obtain ⟨s, p, hs, hp, hsinv, hpinv, htables⟩ :=
        ih ((List.prefix_append _ _).trans hpre)
      obtain ⟨s', p', hs', hp', hinv⟩ := same_pass hsinv hpinv htables
        (h.fits pre round s hpre hs) (h.linked pre round s p hpre hs hp)
      refine ⟨s', p', ?_, ?_, hinv⟩
      · rw [List.map_append]
        exact Proc.forEach_concat_eq_done.mpr ⟨s, hs, hs'⟩
      · rw [List.map_append]
        exact Proc.forEach_concat_eq_done.mpr ⟨p, hp, hp'⟩

/-! ## Iterations in which one descriptor can be read -/

theorem schedule_nil (listensock : Fd) (others : Finset Fd) :
    Schedule (N := N) listensock others [] := by
  constructor
  · intro pre round s hpre
    simp at hpre
  · intro pre round s p hpre
    simp at hpre

theorem Schedule.concat {listensock : Fd} {others : Finset Fd} {rounds : List (JointRound N)}
    {round : JointRound N} (h : Schedule listensock others rounds)
    (hfits : ∀ s, (SelectServer.loop (rounds.map JointRound.toSelect)).run
      (.initial N listensock others) = .done () s → s.Fits round.toSelect)
    (hlinked : ∀ s p,
      (SelectServer.loop (rounds.map JointRound.toSelect)).run (.initial N listensock others) =
        .done () s →
      (PollServer.loop (rounds.map JointRound.toPoll)).run (.initial N listensock others) =
        .done () p → round.Linked s p) :
    Schedule listensock others (rounds ++ [round]) := by
  constructor
  · intro pre last s hpre hs
    rcases prefix_concat_cases hpre with hpre | ⟨rfl, rfl⟩
    · exact h.fits pre last s hpre hs
    · exact hfits s hs
  · intro pre last s p hpre hs hp
    rcases prefix_concat_cases hpre with hpre | ⟨rfl, rfl⟩
    · exact h.linked pre last s p hpre hs hp
    · exact hlinked s p hs hp

def Stir.joint (e : Stir N) : JointRound N := ⟨e.select.readable, e.poll.condition, e.answers⟩

theorem Stirs.schedule {listensock : Fd} {others : Finset Fd} {es : List (Stir N)}
    {t : SlotTable N} (h : Stirs listensock others es t) :
    Schedule listensock others (es.map Stir.joint) := by
  have hselect : ∀ es : List (Stir N),
      (es.map Stir.joint).map JointRound.toSelect = es.map Stir.select :=
    fun es => List.map_map
  have hpoll : ∀ es : List (Stir N),
      (es.map Stir.joint).map JointRound.toPoll = es.map Stir.poll :=
    fun es => List.map_map
  induction h with
  | nobody => exact schedule_nil listensock others
  | stir hbefore htakes ih =>
      rw [List.map_append]
      refine ih.concat (fun s hs => ?_) fun s p hs hp => ?_
      · rw [hselect, hbefore.run_select] at hs
        cases hs
        exact htakes.fits hbefore.inv
      · obtain ⟨q, hq, htable, hinv⟩ := hbefore.run_poll
        rw [hselect, hbefore.run_select] at hs
        rw [hpoll, hq] at hp
        cases hs
        cases hp
        intro i
        rw [Bool.eq_iff_iff]
        exact (Stir.ready_select hbefore.inv htakes.slot i).trans
          (Stir.ready_poll hinv (htable ▸ htakes.slot) i).symm

theorem same_machine_visitors :
    ∃ s p,
      (SelectServer.loop ((visitors.map Stir.joint).map JointRound.toSelect)).run
        (.initial 1024 3 {0, 1, 2}) = .done () s ∧
      (PollServer.loop ((visitors.map Stir.joint).map JointRound.toPoll)).run
        (.initial 1024 3 {0, 1, 2}) = .done () p ∧
      Same s p ∧ (p.fds 1).fd = some 4 ∧
      p.trace.calls = [.accept 4, .recv 4, .send 4 (echo hello), .recv 4, .close 4,
        .accept 4] := by
  obtain ⟨trace, hstirs, hcalls, -⟩ := stirs_visitors
  obtain ⟨s, p, hs, hp, hsame⟩ := same_machine hstirs.schedule (List.prefix_refl _)
  have hrun := hstirs.run_select
  rw [show visitors.map Stir.select = (visitors.map Stir.joint).map JointRound.toSelect from rfl,
    hs] at hrun
  cases hrun
  exact ⟨_, p, hs, hp, hsame, (hsame.slots 1).symm, hsame.calls ▸ hcalls⟩

end LinuxAdvance.Echo
