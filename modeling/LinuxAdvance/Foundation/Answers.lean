import LinuxAdvance.Foundation.Proc

/-!
# Programs that are given the answers of their environment

A program over a list of answers waits when they are used up.  Which answer was
the last one it took can be read off its runs: with the answers before it the
program still waits, and with it no longer.
-/

namespace LinuxAdvance.Foundation

namespace Proc

variable {ε σ α ι : Type} {p : List ι → Proc ε σ α} {s : σ}

def LastAnswer (p : List ι → Proc ε σ α) (s : σ) (answers : List ι) (a : ι) : Prop :=
  ∃ pre rest, answers = pre ++ a :: rest ∧ ((p pre).run s).IsBlocked ∧
    ¬ ((p (pre ++ [a])).run s).IsBlocked

theorem LastAnswer.here {a : ι} {answers : List ι} (hwaits : ((p []).run s).IsBlocked)
    (hends : ¬ ((p [a]).run s).IsBlocked) : LastAnswer p s (a :: answers) a :=
  ⟨[], answers, rfl, hwaits, hends⟩

/-- A first answer after which the program goes on as another one does. -/
theorem LastAnswer.later {q : List ι → Proc ε σ α} {t : σ} {a b : ι} {answers : List ι}
    (hstep : ∀ more, (p (b :: more)).run s = (q more).run t)
    (h : LastAnswer q t answers a) : LastAnswer p s (b :: answers) a := by
  obtain ⟨pre, rest, rfl, hwaits, hends⟩ := h
  refine ⟨b :: pre, rest, rfl, ?_, ?_⟩
  · rw [hstep]
    exact hwaits
  · rw [List.cons_append, hstep]
    exact hends

theorem LastAnswer.unique
    (hmono : ∀ answers more, ¬ ((p answers).run s).IsBlocked →
      ¬ ((p (answers ++ more)).run s).IsBlocked)
    {a b : ι} {answers : List ι} (ha : LastAnswer p s answers a)
    (hb : LastAnswer p s answers b) : a = b := by
  obtain ⟨pre, rest, rfl, hwaits, hends⟩ := ha
  obtain ⟨pre', rest', heq, hwaits', hends'⟩ := hb
  -- a program that had ended within the other's answers would not wait
  have within : ∀ {x y : ι} {xs ys us vs : List ι}, xs ++ x :: us = ys ++ y :: vs →
      ¬ ((p (xs ++ [x])).run s).IsBlocked → ((p ys).run s).IsBlocked →
      ys.length ≤ xs.length := by
    intro x y xs ys us vs heq hends hwaits
    by_contra hlt
    have hpre : xs ++ [x] <+: ys := by
      refine List.prefix_of_prefix_length_le ?_ (List.prefix_append ys (y :: vs)) ?_
      · rw [← heq]
        exact ⟨us, by simp⟩
      · simp only [List.length_append, List.length_singleton]
        omega
    obtain ⟨more, rfl⟩ := hpre
    exact hmono _ more hends hwaits
  have hlen : pre.length = pre'.length :=
    Nat.le_antisymm (within heq.symm hends' hwaits) (within heq hends hwaits')
  exact (List.cons.inj (List.append_inj heq hlen).2).1

end Proc

end LinuxAdvance.Foundation
