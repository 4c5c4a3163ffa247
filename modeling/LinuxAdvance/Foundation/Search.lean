import Mathlib

/-!
# Searching a list for a sublist

`findSub? pat s` is the first position at which `pat` stands in `s`, and
`rfindSub? pat s` the last one.
-/

namespace LinuxAdvance.Foundation

variable {α : Type} [DecidableEq α]

def findSub? (pat : List α) : List α → Option Nat
  | [] => if pat = [] then some 0 else none
  | c :: s =>
      if pat <+: c :: s then some 0
      else (findSub? pat s).map (· + 1)

def rfindSub? (pat : List α) : List α → Option Nat
  | [] => if pat = [] then some 0 else none
  | c :: s =>
      match rfindSub? pat s with
      | some i => some (i + 1)
      | none => if pat <+: c :: s then some 0 else none

theorem findSub?_le {pat s : List α} {i : Nat} (h : findSub? pat s = some i) :
    i + pat.length ≤ s.length := by
  induction s generalizing i with
  | nil =>
      rw [findSub?] at h
      split at h
      · next hpat =>
          cases h
          simp [hpat]
      · cases h
  | cons c s ih =>
      rw [findSub?] at h
      split at h
      · next hpat =>
          cases h
          simpa using hpat.length_le
      · obtain ⟨j, hj, rfl⟩ := Option.map_eq_some_iff.mp h
        have := ih hj
        simp only [List.length_cons]
        omega

theorem prefix_of_findSub? {pat s : List α} {i : Nat} (h : findSub? pat s = some i) :
    pat <+: s.drop i := by
  induction s generalizing i with
  | nil =>
      rw [findSub?] at h
      split at h
      · next hpat =>
          cases h
          simp [hpat]
      · cases h
  | cons c s ih =>
      rw [findSub?] at h
      split at h
      · next hpat =>
          cases h
          simpa using hpat
      · obtain ⟨j, hj, rfl⟩ := Option.map_eq_some_iff.mp h
        simpa using ih hj

theorem findSub?_append {c : α} {cs pre : List α} (hc : c ∉ pre)
    (post : List α) :
    findSub? (c :: cs) (pre ++ (c :: cs) ++ post) = some pre.length := by
  induction pre with
  | nil => simp [findSub?]
  | cons d pre ih =>
      have hd : c ≠ d := fun h => hc (by simp [h])
      have hpre : c ∉ pre := fun h => hc (by simp [h])
      have hno : ¬ c :: cs <+: d :: (pre ++ (c :: cs) ++ post) := by
        rw [List.cons_prefix_cons]
        exact fun h => hd h.1
      simp only [List.cons_append, findSub?, if_neg hno, List.length_cons]
      rw [ih hpre]
      rfl

theorem findSub?_eq_none_of_notMem {c : α} {cs s : List α} (hc : c ∉ s) :
    findSub? (c :: cs) s = none := by
  induction s with
  | nil => simp [findSub?]
  | cons d s ih =>
      have hd : c ≠ d := fun h => hc (by simp [h])
      have hs : c ∉ s := fun h => hc (by simp [h])
      simp [findSub?, hd, ih hs]

theorem findSub?_eq_none_of_last {c d : α} {cs pre : List α} (hc : c ∉ pre) :
    findSub? (c :: d :: cs) (pre ++ [c]) = none := by
  induction pre with
  | nil => simp [findSub?]
  | cons e pre ih =>
      have he : c ≠ e := fun h => hc (by simp [h])
      have hpre : c ∉ pre := fun h => hc (by simp [h])
      simp [findSub?, he, ih hpre]

/-! ## A single symbol -/

theorem findSub?_append_cons {c : α} {pre : List α} (hc : c ∉ pre) (post : List α) :
    findSub? [c] (pre ++ c :: post) = some pre.length := by
  rw [List.append_cons]
  exact findSub?_append hc post

theorem findSub?_singleton_iff {c : α} {s : List α} {i : Nat} :
    findSub? [c] s = some i ↔ ∃ pre post, s = pre ++ c :: post ∧ c ∉ pre ∧ pre.length = i := by
  constructor
  · intro h
    have hmem : c ∈ s := by
      by_contra hc
      rw [findSub?_eq_none_of_notMem hc] at h
      cases h
    obtain ⟨pre, post, rfl, hc⟩ := List.eq_append_cons_of_mem hmem
    rw [findSub?_append_cons hc] at h
    exact ⟨pre, post, rfl, hc, Option.some.inj h⟩
  · rintro ⟨pre, post, rfl, hc, rfl⟩
    exact findSub?_append_cons hc post

theorem rfindSub?_eq_none_of_notMem {c : α} {s : List α} (hc : c ∉ s) :
    rfindSub? [c] s = none := by
  induction s with
  | nil => simp [rfindSub?]
  | cons d s ih =>
      have hd : c ≠ d := fun h => hc (by simp [h])
      have hs : c ∉ s := fun h => hc (by simp [h])
      simp [rfindSub?, hd, ih hs]

theorem rfindSub?_append {c : α} {post : List α} (hc : c ∉ post) (pre : List α) :
    rfindSub? [c] (pre ++ c :: post) = some pre.length := by
  induction pre with
  | nil => simp [rfindSub?, rfindSub?_eq_none_of_notMem hc]
  | cons d pre ih => simp [rfindSub?, ih]

theorem rfindSub?_singleton_iff {c : α} {s : List α} {i : Nat} :
    rfindSub? [c] s = some i ↔ ∃ pre post, s = pre ++ c :: post ∧ c ∉ post ∧ pre.length = i := by
  constructor
  · intro h
    have hmem : c ∈ s := by
      by_contra hc
      rw [rfindSub?_eq_none_of_notMem hc] at h
      cases h
    obtain ⟨back, front, hs, hc⟩ := List.eq_append_cons_of_mem (List.mem_reverse.mpr hmem)
    obtain rfl : s = front.reverse ++ c :: back.reverse := by
      rw [← List.reverse_reverse s, hs]
      simp
    have hback : c ∉ back.reverse := by simpa using hc
    rw [rfindSub?_append hback] at h
    exact ⟨_, _, rfl, hback, Option.some.inj h⟩
  · rintro ⟨pre, post, rfl, hc, rfl⟩
    exact rfindSub?_append hc pre

end LinuxAdvance.Foundation
