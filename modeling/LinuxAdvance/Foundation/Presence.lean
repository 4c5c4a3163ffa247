import Mathlib

/-!
# Who is present after a history of signals

Everybody is absent at first.  A signal makes its sender present, or absent when
it says goodbye.  A roster lists those present in the order in which each of them
came in last.
-/

namespace LinuxAdvance.Foundation

variable {δ ι : Type} [DecidableEq ι]

structure Presence (δ ι : Type) where
  who : δ → ι
  leaves : δ → Bool

namespace Presence

variable (P : Presence δ ι)

def latest (h : List δ) (a : ι) : Option δ := (h.filter fun d => P.who d = a).getLast?

def Online (h : List δ) (a : ι) : Prop := ∃ d, P.latest h a = some d ∧ P.leaves d = false

def Joins (h : List δ) (a : ι) (k : Nat) : Prop :=
  k < h.length ∧ ¬P.Online (h.take k) a ∧ P.Online (h.take (k + 1)) a

def LatestJoin (h : List δ) (a : ι) (k : Nat) : Prop :=
  P.Joins h a k ∧ ∀ l, k < l → ¬P.Joins h a l

structure Roster (h : List δ) (room : List ι) : Prop where
  nodup : room.Nodup
  mem_iff : ∀ a, a ∈ room ↔ P.Online h a
  order : room.Pairwise fun a b =>
    ∃ i j, P.LatestJoin h a i ∧ P.LatestJoin h b j ∧ i < j

/-- Present, and not the one who came in last. -/
def HasSuccessor (h : List δ) (a : ι) : Prop :=
  P.Online h a ∧
    ∃ b i j, P.Online h b ∧ P.LatestJoin h a i ∧ P.LatestJoin h b j ∧ i < j

variable {P} {h : List δ} {a b : ι} {d : δ}

/-! ## One more signal -/

theorem latest_concat (h : List δ) (d : δ) (a : ι) :
    P.latest (h ++ [d]) a = if P.who d = a then some d else P.latest h a := by
  simp only [latest, List.filter_append]
  by_cases hd : P.who d = a <;> simp [hd]

@[simp] theorem not_online_nil (a : ι) : ¬P.Online [] a := by
  simp [Online, latest]

@[simp] theorem online_concat_self :
    P.Online (h ++ [d]) (P.who d) ↔ P.leaves d = false := by
  simp [Online, latest_concat]

theorem online_concat_of_ne (hne : P.who d ≠ a) :
    P.Online (h ++ [d]) a ↔ P.Online h a := by
  simp [Online, latest_concat, hne]

theorem joins_concat {k : Nat} :
    P.Joins (h ++ [d]) a k ↔
      P.Joins h a k ∨ k = h.length ∧ ¬P.Online h a ∧ P.Online (h ++ [d]) a := by
  unfold Joins
  rcases Nat.lt_trichotomy k h.length with hlt | heq | hgt
  · rw [List.take_append_of_le_length (by omega), List.take_append_of_le_length (by omega)]
    simp [hlt, hlt.ne]
    omega
  · subst heq
    have htake : (h ++ [d]).take (h.length + 1) = h ++ [d] :=
      List.take_of_length_le (by simp)
    simp [htake]
  · simp
    omega

theorem latestJoin_concat_of_not_join (hno : P.Online (h ++ [d]) a → P.Online h a) {k : Nat} :
    P.LatestJoin (h ++ [d]) a k ↔ P.LatestJoin h a k := by
  have hjoins : ∀ l, P.Joins (h ++ [d]) a l ↔ P.Joins h a l := by
    intro l
    rw [joins_concat]
    constructor
    · rintro (hl | ⟨-, habsent, hpresent⟩)
      · exact hl
      · exact absurd (hno hpresent) habsent
    · exact .inl
  simp only [LatestJoin, hjoins]

theorem latestJoin_concat_of_join (habsent : ¬P.Online h a)
    (hpresent : P.Online (h ++ [d]) a) : P.LatestJoin (h ++ [d]) a h.length := by
  constructor
  · exact joins_concat.mpr (.inr ⟨rfl, habsent, hpresent⟩)
  · intro l hl hjoins
    have := hjoins.1
    simp at this
    omega

theorem LatestJoin.unique {i j : Nat} (hi : P.LatestJoin h a i) (hj : P.LatestJoin h a j) :
    i = j := by
  rcases Nat.lt_trichotomy i j with hlt | heq | hgt
  · exact absurd hj.1 (hi.2 j hlt)
  · exact heq
  · exact absurd hi.1 (hj.2 i hgt)

theorem exists_latestJoin (h : List δ) {a : ι} (ha : P.Online h a) :
    ∃ k, P.LatestJoin h a k := by
  induction h using List.reverseRecOn with
  | nil => simp at ha
  | append_singleton h d ih =>
      by_cases hbefore : P.Online h a
      · obtain ⟨k, hk⟩ := ih hbefore
        exact ⟨k, (latestJoin_concat_of_not_join fun _ => hbefore).mpr hk⟩
      · exact ⟨_, latestJoin_concat_of_join hbefore ha⟩

/-! ## The roster, signal by signal -/

namespace Roster

variable {room pre post : List ι}

theorem nil : P.Roster [] [] where
  nodup := by simp
  mem_iff := by simp
  order := by simp

theorem stay (hroom : P.Roster h room) (hmem : P.who d ∈ room)
    (hstays : P.leaves d = false) : P.Roster (h ++ [d]) room := by
  have honline : ∀ a, P.Online (h ++ [d]) a ↔ P.Online h a := by
    intro a
    by_cases ha : P.who d = a
    · subst ha
      simp [hstays, (hroom.mem_iff _).mp hmem]
    · exact online_concat_of_ne ha
  constructor
  · exact hroom.nodup
  · intro a
    rw [honline, hroom.mem_iff]
  · simpa only [latestJoin_concat_of_not_join (honline _).mp] using hroom.order

theorem join (hroom : P.Roster h room) (hnew : P.who d ∉ room)
    (hstays : P.leaves d = false) : P.Roster (h ++ [d]) (room ++ [P.who d]) := by
  have habsent : ¬P.Online h (P.who d) := fun hd => hnew ((hroom.mem_iff _).mpr hd)
  have hother : ∀ {a}, a ∈ room → P.who d ≠ a := fun ha hd => hnew (hd ▸ ha)
  have hlatest : ∀ {a}, a ∈ room → ∀ k,
      P.LatestJoin (h ++ [d]) a k ↔ P.LatestJoin h a k := fun ha k =>
    latestJoin_concat_of_not_join (online_concat_of_ne (hother ha)).mp
  constructor
  · simpa [List.nodup_append, hroom.nodup] using fun a ha hd => hother ha hd.symm
  · intro a
    by_cases ha : P.who d = a
    · subst ha
      simp [hstays]
    · rw [online_concat_of_ne ha]
      simp [hroom.mem_iff, Ne.symm ha]
  · rw [List.pairwise_append]
    refine ⟨?_, by simp, ?_⟩
    · apply hroom.order.imp_of_mem
      intro a b ha hb hab
      simpa only [hlatest ha, hlatest hb] using hab
    · intro a ha b hb
      obtain ⟨k, hk⟩ := exists_latestJoin h ((hroom.mem_iff a).mp ha)
      simp only [List.mem_singleton] at hb
      subst hb
      exact ⟨k, h.length, (hlatest ha k).mpr hk,
        latestJoin_concat_of_join habsent (by simpa using hstays), hk.1.1⟩

theorem leave (hroom : P.Roster h (pre ++ P.who d :: post)) (hleaves : P.leaves d = true) :
    P.Roster (h ++ [d]) (pre ++ post) := by
  have hsub : (pre ++ post).Sublist (pre ++ P.who d :: post) :=
    (List.sublist_cons_self _ _).append_left pre
  have hapart := hroom.nodup
  rw [List.nodup_middle, List.nodup_cons] at hapart
  have honline : ∀ {a}, P.who d ≠ a → (P.Online (h ++ [d]) a ↔ P.Online h a) :=
    online_concat_of_ne
  constructor
  · exact hapart.2
  · intro a
    by_cases ha : P.who d = a
    · subst ha
      simp only [hapart.1, false_iff, online_concat_self, hleaves]
      simp
    · rw [honline ha, ← hroom.mem_iff]
      simp [Ne.symm ha]
  · apply (hroom.order.sublist hsub).imp_of_mem
    intro a b ha hb hab
    have hne : ∀ {c}, c ∈ pre ++ post → P.who d ≠ c := fun hc hd => hapart.1 (hd ▸ hc)
    simpa only [latestJoin_concat_of_not_join (honline (hne ha)).mp,
      latestJoin_concat_of_not_join (honline (hne hb)).mp] using hab

theorem hasSuccessor_iff (hroom : P.Roster h (pre ++ a :: post)) :
    P.HasSuccessor h a ↔ post ≠ [] := by
  have horder := List.pairwise_append.mp hroom.order
  have hafter := List.pairwise_cons.mp horder.2.1
  constructor
  · rintro ⟨-, b, i, j, hb, hi, hj, hlt⟩ hpost
    subst hpost
    rw [← hroom.mem_iff] at hb
    simp only [List.mem_append, List.mem_singleton] at hb
    rcases hb with hb | hb
    · obtain ⟨j', i', hj', hi', hlt'⟩ := horder.2.2 b hb a (by simp)
      rw [hi'.unique hi, hj'.unique hj] at hlt'
      omega
    · subst hb
      rw [hi.unique hj] at hlt
      omega
  · intro hpost
    obtain ⟨b, post, rfl⟩ := List.exists_cons_of_ne_nil hpost
    obtain ⟨i, j, hi, hj, hlt⟩ := hafter.1 b (by simp)
    exact ⟨(hroom.mem_iff a).mp (by simp), b, i, j, (hroom.mem_iff b).mp (by simp), hi, hj,
      hlt⟩

end Roster

end Presence

end LinuxAdvance.Foundation
