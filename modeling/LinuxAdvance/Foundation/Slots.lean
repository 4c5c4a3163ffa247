import Mathlib

/-!
# Tables of slots

`Holds slots held`: the slots that are not empty hold the members of `held`, each
in one slot.
-/

namespace LinuxAdvance.Foundation.Slots

variable {ι κ : Type}

structure Holds (slots : ι → Option κ) (held : Finset κ) : Prop where
  apart : ∀ {i j : ι} {k : κ}, slots i = some k → slots j = some k → i = j
  mem_iff : ∀ k, k ∈ held ↔ ∃ i, slots i = some k

namespace Holds

variable {slots : ι → Option κ} {held : Finset κ} {i : ι} {k : κ}

theorem mem (h : Holds slots held) (hi : slots i = some k) : k ∈ held :=
  (h.mem_iff k).mpr ⟨i, hi⟩

theorem existsUnique (h : Holds slots held) (hk : k ∈ held) : ∃! i, slots i = some k := by
  obtain ⟨i, hi⟩ := (h.mem_iff k).mp hk
  exact ⟨i, hi, fun j hj => h.apart hj hi⟩

/-- Full slots hold at least as many members as there are slots. -/
theorem card_le_of_full [Fintype ι] (h : Holds slots held) (hfull : ∀ i, slots i ≠ none) :
    Fintype.card ι ≤ held.card := by
  have hsome : ∀ i, ∃ k, slots i = some k := fun i => Option.ne_none_iff_exists'.mp (hfull i)
  choose content hcontent using hsome
  have hinj : Function.Injective content := by
    intro i j heq
    exact h.apart (hcontent i) (heq ▸ hcontent j)
  exact Finset.card_le_card_of_injOn content (fun i _ => h.mem (hcontent i)) hinj.injOn

variable [DecidableEq ι]

theorem single (i : ι) (k : κ) :
    Holds (Function.update (fun _ => none) i (some k)) {k} := by
  constructor
  · intro a b l ha hb
    by_cases hai : a = i <;> by_cases hbi : b = i <;> simp_all
  · intro l
    simp only [Finset.mem_singleton]
    constructor
    · rintro rfl
      exact ⟨i, by simp⟩
    · rintro ⟨j, hj⟩
      by_cases hji : j = i
      · simp [hji] at hj
        exact hj.symm
      · simp [hji] at hj

variable [DecidableEq κ]

theorem put (h : Holds slots held) (hi : slots i = none) (hk : k ∉ held) :
    Holds (Function.update slots i (some k)) (insert k held) := by
  have hnot : ∀ j, slots j ≠ some k := fun j hj => hk (h.mem hj)
  have hput : ∀ j l, Function.update slots i (some k) j = some l ↔
      (j = i ∧ l = k) ∨ slots j = some l := by
    intro j l
    by_cases hj : j = i
    · subst hj
      simp [hi, eq_comm]
    · simp [hj]
  constructor
  · intro a b l ha hb
    rw [hput] at ha hb
    rcases ha with ⟨ha, hl⟩ | ha <;> rcases hb with ⟨hb, hl'⟩ | hb
    · rw [ha, hb]
    · exact absurd (hl ▸ hb) (hnot b)
    · exact absurd (hl' ▸ ha) (hnot a)
    · exact h.apart ha hb
  · intro l
    simp only [hput, Finset.mem_insert, h.mem_iff]
    constructor
    · rintro (rfl | ⟨j, hj⟩)
      · exact ⟨i, .inl ⟨rfl, rfl⟩⟩
      · exact ⟨j, .inr hj⟩
    · rintro ⟨j, ⟨-, rfl⟩ | hj⟩
      · exact .inl rfl
      · exact .inr ⟨j, hj⟩

theorem clear (h : Holds slots held) (hi : slots i = some k) :
    Holds (Function.update slots i none) (held.erase k) := by
  have hclear : ∀ j l, Function.update slots i none j = some l ↔
      slots j = some l ∧ l ≠ k := by
    intro j l
    by_cases hj : j = i
    · subst hj
      simp [hi, eq_comm]
    · simp only [ne_eq, hj, not_false_eq_true, Function.update_of_ne, iff_self_and]
      rintro hl rfl
      exact hj (h.apart hl hi)
  constructor
  · intro a b l ha hb
    exact h.apart ((hclear a l).mp ha).1 ((hclear b l).mp hb).1
  · intro l
    simp only [hclear, Finset.mem_erase, h.mem_iff]
    constructor
    · rintro ⟨hl, j, hj⟩
      exact ⟨j, hj, hl⟩
    · rintro ⟨j, hj, hl⟩
      exact ⟨hl, j, hj⟩

end Holds

end LinuxAdvance.Foundation.Slots
