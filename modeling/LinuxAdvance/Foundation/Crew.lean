import Mathlib

/-!
# Totals over a crew

A crew is a finite family of workers, each in a phase.  `total f w` adds up what
`f` says about each worker's phase, in any commutative monoid: how many are
asleep, or what all of them hold in their hands.
-/

namespace LinuxAdvance.Foundation.Crew

variable {ι φ M : Type} [Fintype ι] [AddCommMonoid M]

def total (f : φ → M) (w : ι → φ) : M := ∑ i, f (w i)

theorem total_update [DecidableEq ι] (f : φ → M) (w : ι → φ) (i : ι) (p : φ) :
    total f (Function.update w i p) + f (w i) = total f w + f p := by
  have hrest : ∑ j ∈ Finset.univ.erase i, f (Function.update w i p j) =
      ∑ j ∈ Finset.univ.erase i, f (w j) := by
    apply Finset.sum_congr rfl
    intro j hj
    rw [Function.update_of_ne (Finset.ne_of_mem_erase hj)]
  have hi : i ∈ Finset.univ := Finset.mem_univ i
  unfold total
  rw [← Finset.add_sum_erase _ (fun j => f (w j)) hi,
    ← Finset.add_sum_erase _ (fun j => f (Function.update w i p j)) hi, hrest,
    Function.update_self]
  abel

theorem total_congr {f : φ → M} {v w : ι → φ} (h : ∀ i, f (v i) = f (w i)) :
    total f v = total f w :=
  Finset.sum_congr rfl fun i _ => h i

theorem total_eq_zero {f : φ → M} {w : ι → φ} (h : ∀ i, f (w i) = 0) : total f w = 0 :=
  Finset.sum_eq_zero fun i _ => h i

theorem mem_total {α : Type} {f : φ → Multiset α} {w : ι → φ} {a : α} :
    a ∈ total f w ↔ ∃ i, a ∈ f (w i) := by
  simp [total]

/-- Nothing is in two workers' shares when nothing is in the total twice. -/
theorem share_unique {α : Type} {f : φ → Multiset α} {w : ι → φ} {a : α}
    (hnodup : (total f w).Nodup) {i j : ι} (hi : a ∈ f (w i)) (hj : a ∈ f (w j)) :
    i = j := by
  classical
  by_contra hne
  have hj' : j ∈ Finset.univ.erase i := by simp [Ne.symm hne]
  have hle : f (w i) + f (w j) ≤ total f w := by
    unfold total
    rw [← Finset.add_sum_erase _ (fun k => f (w k)) (Finset.mem_univ i)]
    gcongr
    exact Finset.single_le_sum (f := fun k => f (w k)) (fun k _ => Multiset.zero_le _) hj'
  have hdisjoint := (Multiset.nodup_add.mp (Multiset.nodup_of_le hle hnodup)).2.2
  exact Multiset.disjoint_left.mp hdisjoint hi hj

end LinuxAdvance.Foundation.Crew
