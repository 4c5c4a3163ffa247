import LinuxAdvance.Foundation.Search

/-!
# Lines and fields

`cut? pat s` is what stands in `s` before and after the first `pat`.  A block is
a list of lines, each ended by `pat`, up to the first one that is empty.
-/

namespace LinuxAdvance.Foundation

section Search

variable {α : Type} [DecidableEq α]

theorem findSub?_eq_none_iff {pat s : List α} : findSub? pat s = none ↔ ¬ pat <:+: s := by
  induction s with
  | nil =>
      rw [findSub?, List.infix_nil]
      split <;> simp_all
  | cons c s ih =>
      rw [findSub?, List.infix_cons_iff]
      split
      · next hhere => simp [hhere]
      · next hhere => simp [hhere, ih]

theorem findSub?_le_of_prefix {pat s : List α} {i j : Nat} (h : findSub? pat s = some i)
    (hj : pat <+: s.drop j) : i ≤ j := by
  induction s generalizing i j with
  | nil =>
      rw [findSub?] at h
      split at h
      · cases h
        exact Nat.zero_le j
      · cases h
  | cons c s ih =>
      rw [findSub?] at h
      split at h
      · cases h
        exact Nat.zero_le j
      · next hhere =>
          obtain ⟨k, hk, rfl⟩ := Option.map_eq_some_iff.mp h
          cases j with
          | zero => exact absurd hj hhere
          | succ j => exact Nat.succ_le_succ (ih hk hj)

/-! ## A pattern of two different symbols -/

omit [DecidableEq α] in
theorem pair_infix_append_iff {c d : α} {s t : List α} :
    [c, d] <:+: s ++ t ↔
      [c, d] <:+: s ∨ [c, d] <:+: t ∨ (s.getLast? = some c ∧ t.head? = some d) := by
  rw [List.infix_append_iff_ne_nil]
  refine or_congr_right (or_congr_right ?_)
  constructor
  · rintro ⟨l, l', hl, hl', hsplit, hs, ht⟩
    obtain ⟨rfl, rfl⟩ : l = [c] ∧ l' = [d] := by
      match l, l' with
      | [], _ => exact absurd rfl hl
      | [_], [] => exact absurd rfl hl'
      | [_], _ :: _ => simpa [eq_comm] using hsplit
      | _ :: _ :: _, [] => exact absurd rfl hl'
      | _ :: _ :: _, _ :: _ => simp at hsplit
    obtain ⟨pre, rfl⟩ := hs
    obtain ⟨post, rfl⟩ := ht
    exact ⟨List.getLast?_concat, rfl⟩
  · rintro ⟨hlast, hhead⟩
    obtain ⟨pre, rfl⟩ := List.getLast?_eq_some_iff.mp hlast
    obtain ⟨post, rfl⟩ := List.head?_eq_some_iff.mp hhead
    exact ⟨[c], [d], by simp, by simp, rfl, ⟨pre, rfl⟩, ⟨post, rfl⟩⟩

/-- Two different symbols cannot overlap the end of what stands before them. -/
theorem findSub?_pair {c d : α} (hcd : c ≠ d) {pre : List α} (hpre : ¬ [c, d] <:+: pre)
    (post : List α) : findSub? [c, d] (pre ++ [c, d] ++ post) = some pre.length := by
  induction pre with
  | nil => simp [findSub?]
  | cons e pre ih =>
      rw [List.infix_cons_iff, not_or] at hpre
      have hhere : ¬ [c, d] <+: e :: (pre ++ [c, d] ++ post) := by
        rw [List.cons_prefix_cons]
        rintro ⟨rfl, hnext⟩
        cases pre with
        | nil => exact hcd (by simpa [eq_comm] using hnext)
        | cons f pre =>
            rw [List.cons_append, List.cons_append, List.cons_prefix_cons] at hnext
            exact hpre.1 (by simp [hnext.1])
      rw [List.cons_append, List.cons_append, findSub?, if_neg hhere, ih hpre.2]
      rfl

end Search

section Cut

variable {α : Type} [DecidableEq α]

def cut? (pat s : List α) : Option (List α × List α) :=
  (findSub? pat s).map fun i => (s.take i, s.drop (i + pat.length))

theorem cut?_eq_none_iff {pat s : List α} : cut? pat s = none ↔ ¬ pat <:+: s := by
  rw [cut?, Option.map_eq_none_iff, findSub?_eq_none_iff]

theorem isSome_cut?_iff {pat s : List α} : (cut? pat s).isSome ↔ pat <:+: s := by
  rw [Option.isSome_iff_ne_none, ne_eq, cut?_eq_none_iff, not_not]

theorem append_of_cut? {pat s pre post : List α} (h : cut? pat s = some (pre, post)) :
    s = pre ++ pat ++ post := by
  obtain ⟨i, hi, hcut⟩ := Option.map_eq_some_iff.mp h
  obtain ⟨rfl, rfl⟩ := Prod.mk.inj hcut
  obtain ⟨rest, hrest⟩ := prefix_of_findSub? hi
  rw [← List.drop_drop, ← hrest, List.drop_left, List.append_assoc, hrest,
    List.take_append_drop]

/-- What stands before the first `pat` has none of its own at its front. -/
theorem eq_nil_of_prefix_of_cut? {pat s pre post : List α} (h : cut? pat s = some (pre, post))
    (hfront : pat <+: pre) : pre = [] := by
  obtain ⟨i, hi, hcut⟩ := Option.map_eq_some_iff.mp h
  obtain ⟨rfl, rfl⟩ := Prod.mk.inj hcut
  have hzero : i ≤ 0 := findSub?_le_of_prefix hi (hfront.trans (List.take_prefix i s))
  obtain rfl := Nat.le_zero.mp hzero
  exact List.take_zero

theorem cut?_pair {c d : α} (hcd : c ≠ d) {pre : List α} (hpre : ¬ [c, d] <:+: pre)
    (post : List α) : cut? [c, d] (pre ++ [c, d] ++ post) = some (pre, post) := by
  rw [cut?, findSub?_pair hcd hpre]
  simp

theorem length_lt_of_cut? {pat s line rest : List α} (h : cut? pat s = some (line, rest))
    (hline : line ≠ []) : rest.length < s.length := by
  have hpos := List.length_pos_iff.mpr hline
  rw [append_of_cut? h]
  simp only [List.length_append]
  omega

/-! ## Blocks of lines -/

/-- The lines before the empty one, and what follows it if there is one. -/
def block (pat s : List α) : List (List α) × Option (List α) :=
  match hcut : cut? pat s with
  | none => ([], none)
  | some (line, rest) =>
      if hline : line = [] then ([], some rest)
      else
        have := length_lt_of_cut? hcut hline
        (line :: (block pat rest).1, (block pat rest).2)
termination_by s.length

theorem block_of_none {pat s : List α} (h : cut? pat s = none) : block pat s = ([], none) := by
  rw [block]
  split
  · rfl
  · simp_all

theorem block_of_blank {pat s rest : List α} (h : cut? pat s = some ([], rest)) :
    block pat s = ([], some rest) := by
  rw [block]
  split
  · simp_all
  · next line rest' h' =>
      obtain ⟨rfl, rfl⟩ := Prod.mk.inj (Option.some.inj (h.symm.trans h'))
      rw [dif_pos rfl]

theorem block_of_line {pat s line rest : List α} (h : cut? pat s = some (line, rest))
    (hline : line ≠ []) : block pat s = (line :: (block pat rest).1, (block pat rest).2) := by
  rw [block]
  split
  · simp_all
  · next line' rest' h' =>
      obtain ⟨rfl, rfl⟩ := Prod.mk.inj (Option.some.inj (h.symm.trans h'))
      rw [dif_neg hline]

theorem block_lines {c d : α} (hcd : c ≠ d) {lines : List (List α)}
    (hlines : ∀ line ∈ lines, line ≠ [] ∧ ¬ [c, d] <:+: line) (rest : List α) :
    block [c, d] (lines.flatMap (· ++ [c, d]) ++ [c, d] ++ rest) = (lines, some rest) := by
  induction lines with
  | nil => exact block_of_blank (cut?_pair hcd (by simp) rest)
  | cons line lines ih =>
      simp only [List.forall_mem_cons] at hlines
      have hcut := cut?_pair hcd hlines.1.2 (lines.flatMap (· ++ [c, d]) ++ [c, d] ++ rest)
      rw [List.flatMap_cons, List.append_assoc, List.append_assoc, ← List.append_assoc _ [c, d],
        block_of_line hcut hlines.1.1, ih hlines.2]

end Cut

/-! ## Fields -/

section Fields

variable {κ υ : Type} [DecidableEq κ]

/-- The value of the last pair with the key. -/
def lastValue (k : κ) (pairs : List (κ × υ)) : Option υ := pairs.reverse.lookup k

@[simp] theorem lastValue_nil (k : κ) : lastValue k ([] : List (κ × υ)) = none := rfl

theorem lastValue_cons (k : κ) (e : κ × υ) (pairs : List (κ × υ)) :
    lastValue k (e :: pairs) =
      (lastValue k pairs).or (if k = e.1 then some e.2 else none) := by
  obtain ⟨k', v⟩ := e
  rw [lastValue, List.reverse_cons, List.lookup_append]
  by_cases hk : k = k'
  · subst hk
    simp [lastValue]
  · simp [lastValue, List.lookup, hk, beq_false_of_ne hk]

theorem mem_of_lastValue {k : κ} {v : υ} {pairs : List (κ × υ)}
    (h : lastValue k pairs = some v) : (k, v) ∈ pairs := by
  induction pairs with
  | nil => cases h
  | cons e pairs ih =>
      rw [lastValue_cons, Option.or_eq_some_iff] at h
      rcases h with hlater | ⟨-, hhere⟩
      · exact List.mem_cons_of_mem e (ih hlater)
      · split at hhere
        · next hk =>
            cases hhere
            exact hk ▸ List.mem_cons_self
        · cases hhere

theorem lastValue_eq_some_iff {k : κ} {v : υ} {pairs : List (κ × υ)}
    (hnodup : (pairs.map Prod.fst).Nodup) : lastValue k pairs = some v ↔ (k, v) ∈ pairs := by
  refine ⟨mem_of_lastValue, fun hmem => ?_⟩
  induction pairs with
  | nil => cases hmem
  | cons e pairs ih =>
      simp only [List.map_cons, List.nodup_cons] at hnodup
      rw [lastValue_cons, Option.or_eq_some_iff]
      rcases List.mem_cons.mp hmem with rfl | hmem
      · have hnone : lastValue k pairs = none := by
          rw [Option.eq_none_iff_forall_ne_some]
          intro w hw
          exact hnodup.1 (List.mem_map.mpr ⟨(k, w), mem_of_lastValue hw, rfl⟩)
        exact .inr ⟨hnone, if_pos rfl⟩
      · exact .inl (ih hnodup.2 hmem)

end Fields

end LinuxAdvance.Foundation
