import LinuxAdvance.Tcp.Service

/-!
# The echo stream

What the client has printed, what is on its way back, what is being written and
what is on its way up are, in this order, bytes the client has sent; nothing is
invented, repeated or reordered.  When no byte is a NUL and every write takes all,
nothing is lost either, and the client waits for good exactly when it has printed
all it has sent.
-/

namespace LinuxAdvance.Tcp

open LinuxAdvance.Foundation
open LinuxAdvance.Cxx
open LinuxAdvance.Command

namespace Talk

variable {s t : Talk} {e : TalkEvent Unit}

/-- The bytes that have left the client, oldest first. -/
def travelling (s : Talk) : Bytes :=
  s.shown.flatten ++ s.down ++ s.service.pending ++ s.up

theorem travelling_recv (s : Talk) (n : Nat) :
    (s.recv n).travelling = s.shown.flatten ++ ofCString (s.down.take n) ++ s.down.drop n ++
      s.service.pending ++ s.up := by
  simp [travelling, recv]

theorem travelling_read (s : Talk) (n : Nat) :
    (s.read (echoAnswer ()) n).travelling =
      s.shown.flatten ++ s.down ++ ofCString (s.up.take n) ++ s.up.drop n := by
  simp [travelling, read, Phase.pending, echoAnswer]

theorem travelling_write {response : Bytes} (n : Nat) :
    (s.write response n).travelling =
      s.shown.flatten ++ s.down ++ response.take n ++ s.up := by
  simp [travelling, write, Phase.pending]

/-! ## Nothing invented -/

theorem travelling_sublist_of_step (s : Talk) (e : TalkEvent Unit) (t : Talk)
    (h : s.step echoAnswer e = some t) (hs : s.travelling.Sublist s.sent) :
    t.travelling.Sublist t.sent := by
  cases takes_of_step h with
  | enter _ =>
      simp only [travelling, enter, ← List.append_assoc]
      exact hs.append_right _
  | @recv n _ _ _ =>
      refine List.Sublist.trans ?_ hs
      rw [travelling_recv, travelling]
      refine (List.Sublist.append_right ?_ _).append_right _
      rw [List.append_assoc]
      refine List.Sublist.append_left ?_ _
      conv => rhs; rw [← List.take_append_drop n s.down]
      exact (prefix_ofCString _).sublist.append_right _
  | recvFails _ => exact hs
  | hangUp => exact hs
  | @read n outside hreading _ _ _ =>
      refine List.Sublist.trans ?_ hs
      have hpending : s.service.pending = [] := by rw [hreading]; rfl
      rw [travelling_read, travelling, hpending, List.append_nil, List.append_assoc]
      refine List.Sublist.append_left ?_ _
      conv => rhs; rw [← List.take_append_drop n s.up]
      exact (prefix_ofCString _).sublist.append_right _
  | @write n response hwriting _ =>
      refine List.Sublist.trans ?_ hs
      rw [travelling_write, travelling, hwriting, Phase.pending]
      exact ((List.take_sublist n response).append_left _).append_right _
  | eof hreading _ =>
      rw [travelling, hreading] at hs
      exact hs

/-! ## Nothing lost -/

/-- A line without a NUL, or a write that takes the whole response. -/
def Whole (s : Talk) : TalkEvent Unit → Prop
  | .enter line => (0 : UInt8) ∉ line
  | .write n => s.service.pending.length ≤ n
  | _ => True

def WholeRun : Talk → List (TalkEvent Unit) → Prop
  | _, [] => True
  | s, e :: es => s.Whole e ∧ ∀ t, s.step echoAnswer e = some t → WholeRun t es

structure Kept (s : Talk) : Prop where
  conserved : s.travelling = s.sent
  nul : (0 : UInt8) ∉ s.sent

theorem Kept.notMem (h : Kept s) {part : Bytes} (hpart : part ⊆ s.travelling) :
    (0 : UInt8) ∉ part := fun hmem => h.nul (h.conserved ▸ hpart hmem)

theorem Kept.step (h : Kept s) (hwhole : s.Whole e) (hstep : s.step echoAnswer e = some t) :
    Kept t := by
  cases takes_of_step hstep with
  | @enter line _ =>
      refine ⟨?_, ?_⟩
      · have hconserved := h.conserved
        simp only [travelling] at hconserved
        simp only [travelling, enter, ← List.append_assoc, hconserved]
      · have hline : (0 : UInt8) ∉ line := hwhole
        simp [enter, h.nul, hline]
  | @recv n _ _ _ =>
      have hnul : (0 : UInt8) ∉ s.down.take n := h.notMem fun b hb => by
        simp [travelling, List.mem_of_mem_take hb]
      refine ⟨?_, h.nul⟩
      rw [travelling_recv, ofCString_of_notMem hnul, List.append_assoc s.shown.flatten,
        List.take_append_drop]
      exact h.conserved
  | recvFails _ => exact ⟨h.conserved, h.nul⟩
  | hangUp => exact ⟨h.conserved, h.nul⟩
  | @read n outside hreading _ _ _ =>
      have hnul : (0 : UInt8) ∉ s.up.take n := h.notMem fun b hb => by
        simp [travelling, List.mem_of_mem_take hb]
      refine ⟨?_, h.nul⟩
      rw [travelling_read, ofCString_of_notMem hnul, List.append_assoc _ (s.up.take n),
        List.take_append_drop]
      have hconserved := h.conserved
      rw [travelling, hreading] at hconserved
      change _ = s.sent
      simpa [Phase.pending] using hconserved
  | @write n response hwriting _ =>
      have hall : response.length ≤ n := by
        have hpending : s.service.pending.length ≤ n := hwhole
        rwa [hwriting] at hpending
      refine ⟨?_, h.nul⟩
      rw [travelling_write, List.take_of_length_le hall]
      have hconserved := h.conserved
      rwa [travelling, hwriting] at hconserved
  | eof hreading _ =>
      refine ⟨?_, h.nul⟩
      have hconserved := h.conserved
      rwa [travelling, hreading] at hconserved

theorem kept_of_run {es : List (TalkEvent Unit)} (hs : Kept s) (hwhole : WholeRun s es)
    (h : Transition.run (step echoAnswer) s es = some t) : Kept t := by
  induction es generalizing s with
  | nil =>
      simp at h
      exact h ▸ hs
  | cons e es ih =>
      simp only [Transition.run_cons, Option.bind_eq_some_iff] at h
      obtain ⟨u, hstep, h⟩ := h
      exact ih (hs.step hwhole.1 hstep) (hwhole.2 u hstep) h

theorem travelling_sublist_of_run {es : List (TalkEvent Unit)}
    (h : Transition.run (step echoAnswer) {} es = some s) : s.travelling.Sublist s.sent :=
  Transition.keeps travelling_sublist_of_step h (List.Sublist.refl [])

theorem echoes_in_order {es : List (TalkEvent Unit)}
    (h : Transition.run (step echoAnswer) {} es = some s) :
    s.travelling.Sublist s.sent ∧ (WholeRun {} es → s.travelling = s.sent) := by
  refine ⟨travelling_sublist_of_run h, fun hwhole => ?_⟩
  exact (kept_of_run ⟨rfl, by simp⟩ hwhole h).conserved

/-- Two reads for one line, and a line that is sent before all of the first has
come back. -/
theorem echoes_in_order_cut :
    ∃ s, Transition.run (step echoAnswer) {}
        [.enter (text "abc"), .read 2 (), .write 2, .recv 1, .enter (text "de"), .read 3 ()] = some s ∧
      s.shown = [text "a"] ∧ s.travelling = s.sent ∧ s.travelling.Sublist s.sent := by
  have hrun : Transition.run (step echoAnswer) {}
      [.enter (text "abc"), .read 2 (), .write 2, .recv 1, .enter (text "de"), .read 3 ()] = some _ :=
    rfl
  exact ⟨_, hrun, rfl, rfl, (echoes_in_order hrun).1⟩

/-! ## Waiting for nothing -/

def Answerable (s : Talk) : Prop :=
  ∃ fs t, (∀ e ∈ fs, e ≠ .recvFails) ∧ Transition.run (step echoAnswer) s fs = some t ∧
    t.shown ≠ s.shown

theorem answerable_of_step (he : e ≠ .recvFails) (hstep : s.step echoAnswer e = some t)
    (hshown : t.shown = s.shown) (ht : Answerable t) : Answerable s := by
  obtain ⟨fs, u, hfs, hrun, hnew⟩ := ht
  refine ⟨e :: fs, u, by simpa [he] using hfs, by simp [hstep, hrun], ?_⟩
  rwa [hshown] at hnew

theorem answerable_of_down (hgone : s.gone = false) (hwaits : s.waits = true)
    (hdown : s.down ≠ []) : Answerable s := by
  have hpos := List.length_pos_iff.mpr hdown
  have hstep : s.step echoAnswer (.recv 1) = some (s.recv 1) := by
    rw [step, if_pos ⟨hgone, hwaits, Nat.one_pos, hpos, by decide⟩]
  refine ⟨[.recv 1], s.recv 1, by simp, by simp [hstep], ?_⟩
  simp [recv]

theorem answerable_of_pending (hgone : s.gone = false) (hwaits : s.waits = true)
    (hpending : s.service.pending ≠ []) : Answerable s := by
  cases hservice : s.service with
  | reading => simp [hservice, Phase.pending] at hpending
  | ended => simp [hservice, Phase.pending] at hpending
  | writing response =>
      have hresponse : response ≠ [] := by simpa [hservice, Phase.pending] using hpending
      have hstep : s.step echoAnswer (.write response.length) =
          some (s.write response response.length) := by
        simp [step, hservice]
      refine answerable_of_step (by simp) hstep rfl (answerable_of_down hgone hwaits ?_)
      simp [write, hresponse]

theorem answerable_of_up (hgone : s.gone = false) (hwaits : s.waits = true)
    (hreading : s.service = .reading) {b : UInt8} {rest : Bytes} (hup : s.up = b :: rest)
    (hb : b ≠ 0) : Answerable s := by
  have hstep : s.step echoAnswer (.read 1 ()) = some (s.read (echoAnswer ()) 1) := by
    exact step_read_eq_some.mpr ⟨⟨hreading, Nat.one_pos, by simp [hup], by decide⟩, rfl⟩
  refine answerable_of_step (by simp) hstep rfl (answerable_of_pending hgone hwaits ?_)
  simp [read, hup, Phase.pending, echoAnswer, ofCString, hb]

theorem gone_of_step (s : Talk) (e : TalkEvent Unit) (t : Talk) (h : s.step echoAnswer e = some t)
    (hs : s.service = .ended → s.gone = true) : t.service = .ended → t.gone = true := by
  cases takes_of_step h with
  | enter _ | recv _ _ _ | recvFails _ => exact hs
  | hangUp => exact fun _ => rfl
  | read _ _ _ _ | write _ _ => exact fun hended => by cases hended
  | eof _ hgone => exact fun _ => hgone

structure Quiet (s : Talk) : Prop where
  waits : s.waits = true
  down : s.down = []
  pending : s.service.pending = []
  up : s.up = []

theorem Quiet.step (h : Quiet s) (he : e ≠ .recvFails) (hstep : s.step echoAnswer e = some t) :
    Quiet t ∧ t.shown = s.shown := by
  cases takes_of_step hstep with
  | enter hprompt => simp [h.waits] at hprompt
  | recv _ hpos hle =>
      rw [h.down, List.length_nil] at hle
      omega
  | recvFails _ => exact absurd rfl he
  | hangUp => exact ⟨⟨h.waits, h.down, h.pending, h.up⟩, rfl⟩
  | read _ hpos hle _ =>
      rw [h.up, List.length_nil] at hle
      omega
  | @write n response hwriting _ =>
      have hresponse : response = [] := by simpa [hwriting, Phase.pending] using h.pending
      exact ⟨⟨h.waits, by simp [write, h.down, hresponse], rfl, h.up⟩, rfl⟩
  | eof _ _ => exact ⟨⟨h.waits, h.down, rfl, h.up⟩, rfl⟩

theorem Quiet.run {fs : List (TalkEvent Unit)} (h : Quiet s) (hfs : ∀ e ∈ fs, e ≠ .recvFails)
    (hrun : Transition.run (Talk.step echoAnswer) s fs = some t) : t.shown = s.shown := by
  induction fs generalizing s with
  | nil =>
      simp at hrun
      rw [hrun]
  | cons e fs ih =>
      simp only [Transition.run_cons, Option.bind_eq_some_iff] at hrun
      obtain ⟨u, hstep, hrun⟩ := hrun
      simp only [List.forall_mem_cons] at hfs
      obtain ⟨hquiet, hshown⟩ := h.step hfs.1 hstep
      rw [ih hquiet hfs.2 hrun, hshown]

theorem Kept.quiet_iff (h : Kept s) (hwaits : s.waits = true) :
    Quiet s ↔ s.shown.flatten = s.sent := by
  have hconserved := h.conserved
  simp only [travelling, List.append_assoc] at hconserved
  constructor
  · rintro ⟨-, hdown, hpending, hup⟩
    simpa [hdown, hpending, hup] using hconserved
  · intro hshown
    rw [← hshown] at hconserved
    have hrest := List.append_right_eq_self.mp hconserved
    simp only [List.append_eq_nil_iff] at hrest
    exact ⟨hwaits, hrest.1, hrest.2.1, hrest.2.2⟩

theorem Kept.answerable (h : Kept s) (hgone : s.gone = false) (hwaits : s.waits = true)
    (hended : s.service ≠ .ended) (hnot : ¬ Quiet s) : Answerable s := by
  by_cases hdown : s.down = []
  · by_cases hpending : s.service.pending = []
    · obtain ⟨b, rest, hup⟩ : ∃ b rest, s.up = b :: rest :=
        List.exists_cons_of_ne_nil fun hup => hnot ⟨hwaits, hdown, hpending, hup⟩
      have hb : b ≠ 0 := by
        rintro rfl
        have hpart : s.up ⊆ s.travelling := fun b hb => by simp [travelling, hb]
        exact h.notMem hpart (by simp [hup])
      cases hservice : s.service with
      | reading => exact answerable_of_up hgone hwaits hservice hup hb
      | ended => exact absurd hservice hended
      | writing response =>
          have hstep : s.step echoAnswer (.write 0) = some (s.write response 0) := by
            simp [Talk.step, hservice]
          exact answerable_of_step (by simp) hstep rfl
            (answerable_of_up (s := s.write response 0) hgone hwaits rfl hup hb)
    · exact answerable_of_pending hgone hwaits hpending
  · exact answerable_of_down hgone hwaits hdown

theorem waits_forever_iff {es : List (TalkEvent Unit)} (hwhole : WholeRun {} es)
    (h : Transition.run (step echoAnswer) {} es = some s) (hwaits : s.waits = true)
    (hgone : s.gone = false) :
    (∀ fs t, (∀ e ∈ fs, e ≠ .recvFails) → Transition.run (step echoAnswer) s fs = some t →
      t.shown = s.shown) ↔ s.shown.flatten = s.sent := by
  have hkept : Kept s := kept_of_run ⟨rfl, by simp⟩ hwhole h
  have hended : s.service = .ended → s.gone = true :=
    Transition.keeps gone_of_step h (fun hended => by cases hended)
  rw [← hkept.quiet_iff hwaits]
  constructor
  · intro hforever
    by_contra hnot
    obtain ⟨fs, t, hfs, hrun, hnew⟩ := hkept.answerable hgone hwaits
      (fun hservice => by simp [hended hservice] at hgone) hnot
    exact hnew (hforever fs t hfs hrun)
  · exact fun hquiet fs t hfs hrun => hquiet.run hfs hrun

theorem waits_forever_iff_empty :
    ∃ s, Transition.run (step echoAnswer) {} [.enter []] = some s ∧ s.shown.flatten = s.sent ∧
      ∀ fs t, (∀ e ∈ fs, e ≠ .recvFails) → Transition.run (step echoAnswer) s fs = some t →
        t.shown = s.shown := by
  have hrun : Transition.run (step echoAnswer) {} [.enter []] = some _ := rfl
  have hwhole : WholeRun {} [.enter []] := ⟨by simp [Whole], fun _ _ => trivial⟩
  exact ⟨_, hrun, rfl, (waits_forever_iff hwhole hrun rfl rfl).mpr rfl⟩

end Talk

end LinuxAdvance.Tcp
