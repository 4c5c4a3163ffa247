import LinuxAdvance.Pool.Threadpool

/-!
# No task is lost and no worker oversleeps

The invariant of the pool, read as what its users rely on.
-/

namespace LinuxAdvance.Pool

open LinuxAdvance.Foundation

variable {n : Nat} {T : Type}

namespace Threadpool

/-! ## Where a task is -/

inductive Place (n : Nat) where
  | queued (k : Nat)
  | inHand (i : Fin n)
  | executed (k : Nat)

def At (p : Threadpool n T) (t : T) : Place n → Prop
  | .queued k => p.taskQueue[k]? = some t
  | .inHand i => p.workers i = .running t
  | .executed k => p.executed[k]? = some t

theorem Inv.conserved {p : Threadpool n T} (h : Inv p) :
    (p.accepted : Multiset T) = p.taskQueue + p.hands + p.executed := by
  rw [h.fifo, ← Multiset.coe_add, h.kept, add_comm _ (p.taskQueue : Multiset T), add_assoc]

theorem Inv.place_unique {p : Threadpool n T} (h : Inv p) (hnodup : p.accepted.Nodup)
    {t : T} (ht : t ∈ p.accepted) : ∃! place, p.At t place := by
  have hall : (p.taskQueue + p.hands + p.executed : Multiset T).Nodup := by
    rw [← h.conserved]
    simpa using hnodup
  obtain ⟨hleft, hexecuted, hapart⟩ := Multiset.nodup_add.mp hall
  obtain ⟨hqueue, hhands, hapart'⟩ := Multiset.nodup_add.mp hleft
  rw [Multiset.disjoint_left] at hapart hapart'
  simp only [Multiset.mem_add, Multiset.mem_coe, mem_hands] at hapart hapart'
  rw [Multiset.coe_nodup] at hqueue hexecuted
  have hsomewhere : t ∈ (p.taskQueue + p.hands + p.executed : Multiset T) := by
    rw [← h.conserved]
    simpa using ht
  simp only [Multiset.mem_add, Multiset.mem_coe, mem_hands] at hsomewhere
  rcases hsomewhere with (hmem | ⟨i, hi⟩) | hmem
  · obtain ⟨k, hk⟩ := List.mem_iff_getElem?.mp hmem
    refine ⟨.queued k, hk, fun place hplace => ?_⟩
    cases place with
    | queued l =>
        have hl : l < p.taskQueue.length := (List.getElem?_eq_some_iff.mp hplace).1
        rw [(List.getElem?_inj hl hqueue).mp (hplace.trans hk.symm)]
    | inHand i => exact absurd ⟨i, hplace⟩ (hapart' hmem)
    | executed l => exact absurd (List.mem_of_getElem? hplace) (hapart (.inl hmem))
  · refine ⟨.inHand i, hi, fun place hplace => ?_⟩
    cases place with
    | queued l => exact absurd ⟨i, hi⟩ (hapart' (List.mem_of_getElem? hplace))
    | inHand j =>
        rw [Crew.share_unique hhands (Phase.mem_hand.mpr hplace) (Phase.mem_hand.mpr hi)]
    | executed l =>
        exact absurd (List.mem_of_getElem? hplace) (hapart (.inr ⟨i, hi⟩))
  · obtain ⟨k, hk⟩ := List.mem_iff_getElem?.mp hmem
    refine ⟨.executed k, hk, fun place hplace => ?_⟩
    cases place with
    | queued l => exact absurd hmem (hapart (.inl (List.mem_of_getElem? hplace)))
    | inHand i => exact absurd hmem (hapart (.inr ⟨i, hplace⟩))
    | executed l =>
        have hl : l < p.executed.length := (List.getElem?_eq_some_iff.mp hplace).1
        rw [(List.getElem?_inj hl hexecuted).mp (hplace.trans hk.symm)]

theorem Inv.all_executed {p : Threadpool n T} (h : Inv p) (hn : 0 < n)
    (hexited : ∀ i, p.workers i = .exited) :
    p.taken = p.accepted ∧ p.executed.Perm p.accepted := by
  have hqueue : p.taskQueue = [] := (h.drained ⟨0, hn⟩ (hexited _)).2
  have hhands : p.hands = 0 := Crew.total_eq_zero fun i => by simp [hexited i, Phase.hand]
  have htaken : p.accepted = p.taken := by simpa [hqueue] using h.fifo
  have hkept := h.kept
  rw [hhands, zero_add, ← htaken] at hkept
  exact ⟨htaken.symm, (Multiset.coe_eq_coe.mp hkept).symm⟩

/-- What holds of a pool at every moment. -/
structure Sound (p : Threadpool n T) : Prop where
  fifo : p.accepted = p.taken ++ p.taskQueue
  conserved : (p.accepted : Multiset T) = p.taskQueue + p.hands + p.executed
  place_unique : p.accepted.Nodup → ∀ t ∈ p.accepted, ∃! place, p.At t place
  waitnum_eq : p.waitnum = p.waiting.card
  no_lost_wakeup : p.taskQueue ≠ [] →
    ∃ i, p.workers i ≠ .blocked ∧ p.workers i ≠ .exited
  exited_drained : ∀ i, p.workers i = .exited → p.isrunning = false ∧ p.taskQueue = []
  all_executed : (∀ i, p.workers i = .exited) →
    p.taken = p.accepted ∧ p.executed.Perm p.accepted

theorem Inv.sound {p : Threadpool n T} (h : Inv p) (hn : 0 < n) : Sound p where
  fifo := h.fifo
  conserved := h.conserved
  place_unique := fun hnodup _ => h.place_unique hnodup
  waitnum_eq := h.counted
  no_lost_wakeup := by
    intro hqueue
    obtain ⟨i, hi⟩ := h.awake hqueue
    refine ⟨i, ?_⟩
    constructor <;> intro hstuck <;> simp [hstuck, Phase.isStuck] at hi
  exited_drained := h.drained
  all_executed := h.all_executed hn

theorem sound_of_run (hn : 0 < n) {es : List (Event n T)} {p : Threadpool n T}
    (h : Transition.run step (initThreadPool n T) es = some p) :
    Sound p ∧ (p.isrunning = false → ∀ fs q, Transition.run step p fs = some q →
      ∀ i, q.workers i ≠ .blocked) := by
  constructor
  · exact (inv_of_run hn h).sound hn
  · intro hstopped fs q hq
    have hrun : Transition.run step (initThreadPool n T) (es ++ fs) = some q :=
      Transition.run_append_eq_some.mpr ⟨p, h, hq⟩
    exact (inv_of_run hn hrun).roused (stopped_of_run hq hstopped)

/-- One worker sleeps, is woken for a task, runs it, and exits after `Stop`. -/
theorem sound_of_run_one : ∃ p, Transition.run step (initThreadPool 1 Nat)
      [.lock 0, .enqueue 7 {0}, .relock 0, .finish 0, .stop, .lock 0] = some p ∧
    p.executed = [7] ∧ Sound p ∧
      (p.isrunning = false → ∀ fs q, Transition.run step p fs = some q →
        ∀ i, q.workers i ≠ .blocked) := by
  have hrun : Transition.run step (initThreadPool 1 Nat)
      [.lock 0, .enqueue 7 {0}, .relock 0, .finish 0, .stop, .lock 0] = some _ := rfl
  exact ⟨_, hrun, rfl, sound_of_run (by decide) hrun⟩

end Threadpool

end LinuxAdvance.Pool
