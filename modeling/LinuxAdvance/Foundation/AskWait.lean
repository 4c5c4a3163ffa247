import Mathlib

/-!
# Ask and wait

Clients that ask over a network and wait for one answer before they ask again.
Messages have no number: what is waited for is whatever comes.  The network
delivers in any order and may lose messages; it may also copy them, and a client
may give up a wait, and both of these set questions and answers out of step.
-/

namespace LinuxAdvance.Foundation.AskWait

variable {ι α β : Type}

/-- What each client has asked and what each of its waits ended with; a wait that
was given up ended with `none`. -/
structure State (ι α β : Type) where
  asked : ι → List α
  got : ι → List (Option β)
  requests : Multiset (ι × α)
  replies : Multiset (ι × β)

namespace State

def start (ι α β : Type) : State ι α β where
  asked := fun _ => []
  got := fun _ => []
  requests := 0
  replies := 0

def Idle (s : State ι α β) (i : ι) : Prop := (s.got i).length = (s.asked i).length

def Waiting (s : State ι α β) (i : ι) : Prop := (s.got i).length < (s.asked i).length

end State

variable [DecidableEq ι]

def mine (i : ι) (messages : Multiset (ι × α)) : Multiset α :=
  (messages.filter fun m => m.1 = i).map Prod.snd

@[simp] theorem mine_zero (i : ι) : mine i (0 : Multiset (ι × α)) = 0 := rfl

@[simp] theorem mine_cons_self (i : ι) (a : α) (messages : Multiset (ι × α)) :
    mine i ((i, a) ::ₘ messages) = a ::ₘ mine i messages := by
  simp [mine]

theorem mine_cons_of_ne {i j : ι} (h : j ≠ i) (a : α) (messages : Multiset (ι × α)) :
    mine i ((j, a) ::ₘ messages) = mine i messages := by
  simp [mine, h]

theorem mem_mine {i : ι} {a : α} {messages : Multiset (ι × α)} :
    a ∈ mine i messages ↔ (i, a) ∈ messages := by
  simp [mine]

theorem mine_le {i : ι} {small large : Multiset (ι × α)} (h : small ≤ large) :
    mine i small ≤ mine i large :=
  Multiset.map_le_map (Multiset.filter_le_filter _ h)

/-! ## Steps -/

section Steps

variable (answers : α → β → Prop)

inductive Next (s : State ι α β) : State ι α β → Prop
  | ask {i : ι} (a : α) (hidle : s.Idle i) :
      Next s { s with
        asked := Function.update s.asked i (s.asked i ++ [a])
        requests := (i, a) ::ₘ s.requests }
  | serve {i : ι} {a : α} {b : β} {rest : Multiset (ι × α)}
      (hrequest : s.requests = (i, a) ::ₘ rest) (hanswer : answers a b) :
      Next s { s with requests := rest, replies := (i, b) ::ₘ s.replies }
  | take {i : ι} {b : β} {rest : Multiset (ι × β)} (hwaiting : s.Waiting i)
      (hreply : s.replies = (i, b) ::ₘ rest) :
      Next s { s with
        got := Function.update s.got i (s.got i ++ [some b])
        replies := rest }
  | loseRequest {rest : Multiset (ι × α)} (hle : rest ≤ s.requests) :
      Next s { s with requests := rest }
  | loseReply {rest : Multiset (ι × β)} (hle : rest ≤ s.replies) :
      Next s { s with replies := rest }

inductive Copies (s : State ι α β) : State ι α β → Prop
  | request {m : ι × α} (hm : m ∈ s.requests) :
      Copies s { s with requests := m ::ₘ s.requests }
  | reply {m : ι × β} (hm : m ∈ s.replies) :
      Copies s { s with replies := m ::ₘ s.replies }

inductive GivesUp (i : ι) (s : State ι α β) : State ι α β → Prop
  | mk (hwaiting : s.Waiting i) :
      GivesUp i s { s with got := Function.update s.got i (s.got i ++ [none]) }

end Steps

variable {answers : α → β → Prop} {s t : State ι α β} {i : ι}

/-! ## In step -/

def Answered (answers : α → β → Prop) (a : α) (r : Option β) : Prop :=
  ∃ b, r = some b ∧ answers a b

/-- Every wait ended with an answer to the question before it; the last question
may be open, and only then is a message of the client's on its way, one at most. -/
structure InStep (answers : α → β → Prop) (s : State ι α β) (i : ι) (past last : List α) :
    Prop where
  asked : s.asked i = past ++ last
  got : List.Forall₂ (Answered answers) past (s.got i)
  one : last.length ≤ 1
  travelling : (mine i s.requests).card + (mine i s.replies).card ≤ last.length
  requests : ∀ a ∈ mine i s.requests, last = [a]
  replies : ∀ b ∈ mine i s.replies, ∃ a, last = [a] ∧ answers a b

theorem inStep_start (answers : α → β → Prop) (i : ι) :
    InStep answers (State.start ι α β) i [] [] where
  asked := rfl
  got := .nil
  one := by simp
  travelling := by simp [State.start]
  requests := by simp [State.start]
  replies := by simp [State.start]

theorem InStep.length {past last : List α} (h : InStep answers s i past last) :
    (s.asked i).length = (s.got i).length + last.length := by
  rw [h.asked, List.length_append, h.got.length_eq]

theorem InStep.last_of_idle {past last : List α} (h : InStep answers s i past last)
    (hidle : s.Idle i) : last = [] := by
  have hlength := h.length
  have heq : (s.got i).length = (s.asked i).length := hidle
  exact List.eq_nil_of_length_eq_zero (by omega)

theorem InStep.lose {past last : List α} (h : InStep answers s i past last)
    (hasked : t.asked i = s.asked i) (hgot : t.got i = s.got i)
    (hrequests : mine i t.requests ≤ mine i s.requests)
    (hreplies : mine i t.replies ≤ mine i s.replies) : InStep answers t i past last where
  asked := hasked.trans h.asked
  got := hgot ▸ h.got
  one := h.one
  travelling := by
    have hle := Multiset.card_le_card hrequests
    have hle' := Multiset.card_le_card hreplies
    have := h.travelling
    omega
  requests := fun a ha => h.requests a (Multiset.mem_of_le hrequests ha)
  replies := fun b hb => h.replies b (Multiset.mem_of_le hreplies hb)

theorem InStep.ask {past last : List α} (h : InStep answers s i past last) (a : α)
    (hidle : s.Idle i) (hasked : t.asked i = s.asked i ++ [a]) (hgot : t.got i = s.got i)
    (hrequests : mine i t.requests = a ::ₘ mine i s.requests)
    (hreplies : mine i t.replies = mine i s.replies) : InStep answers t i past [a] := by
  obtain rfl := h.last_of_idle hidle
  have hnone : (mine i s.requests).card + (mine i s.replies).card = 0 := by
    simpa using h.travelling
  have hreq : mine i s.requests = 0 := Multiset.card_eq_zero.mp (by omega)
  have hrep : mine i s.replies = 0 := Multiset.card_eq_zero.mp (by omega)
  constructor
  · rw [hasked, h.asked, List.append_nil]
  · exact hgot ▸ h.got
  · simp
  · simp [hrequests, hreplies, hreq, hrep]
  · intro b hb
    rw [hrequests, hreq, Multiset.mem_cons] at hb
    rcases hb with rfl | hb
    · rfl
    · simp at hb
  · intro b hb
    rw [hreplies, hrep] at hb
    simp at hb

theorem InStep.serve {past last : List α} (h : InStep answers s i past last) {a : α} {b : β}
    (hanswer : answers a b) (hasked : t.asked i = s.asked i) (hgot : t.got i = s.got i)
    (hrequests : mine i s.requests = a ::ₘ mine i t.requests)
    (hreplies : mine i t.replies = b ::ₘ mine i s.replies) : InStep answers t i past last := by
  have hlast : last = [a] := h.requests a (by simp [hrequests])
  constructor
  · exact hasked.trans h.asked
  · exact hgot ▸ h.got
  · exact h.one
  · have htravelling := h.travelling
    rw [hrequests, Multiset.card_cons] at htravelling
    rw [hreplies, Multiset.card_cons]
    omega
  · exact fun c hc => h.requests c (by simp [hrequests, hc])
  · intro c hc
    rw [hreplies, Multiset.mem_cons] at hc
    rcases hc with rfl | hc
    · exact ⟨a, hlast, hanswer⟩
    · exact h.replies c hc

theorem InStep.take {past last : List α} (h : InStep answers s i past last) {b : β}
    (hasked : t.asked i = s.asked i) (hgot : t.got i = s.got i ++ [some b])
    (hrequests : mine i t.requests = mine i s.requests)
    (hreplies : mine i s.replies = b ::ₘ mine i t.replies) :
    ∃ a, last = [a] ∧ InStep answers t i (past ++ [a]) [] := by
  obtain ⟨a, rfl, hanswer⟩ := h.replies b (by simp [hreplies])
  have htravelling := h.travelling
  rw [hreplies, Multiset.card_cons, List.length_singleton] at htravelling
  have hreq : mine i s.requests = 0 := Multiset.card_eq_zero.mp (by omega)
  have hrep : mine i t.replies = 0 := Multiset.card_eq_zero.mp (by omega)
  refine ⟨a, rfl, ?_⟩
  constructor
  · rw [hasked, h.asked, List.append_nil]
  · rw [hgot]
    exact List.rel_append h.got (.cons ⟨b, rfl, hanswer⟩ .nil)
  · simp
  · simp [hrequests, hreq, hrep]
  · simp [hrequests, hreq]
  · simp [hrep]

theorem InStep.next {past last : List α} (h : InStep answers s i past last)
    (hnext : Next answers s t) : ∃ past last, InStep answers t i past last := by
  cases hnext with
  | @ask j a hidle =>
      by_cases hj : j = i
      · subst hj
        exact ⟨past, [a], h.ask a hidle (by simp) rfl (by simp) rfl⟩
      · refine ⟨past, last, h.lose ?_ rfl ?_ le_rfl⟩
        · simp [Ne.symm hj]
        · exact (mine_cons_of_ne hj a s.requests).le
  | @serve j a b rest hrequest hanswer =>
      by_cases hj : j = i
      · subst hj
        exact ⟨past, last, h.serve hanswer rfl rfl (by simp [hrequest]) (by simp)⟩
      · refine ⟨past, last, h.lose rfl rfl ?_ ?_⟩
        · rw [hrequest, mine_cons_of_ne hj]
        · exact (mine_cons_of_ne hj b s.replies).le
  | @take j b rest _ hreply =>
      by_cases hj : j = i
      · subst hj
        obtain ⟨a, -, htaken⟩ := h.take (b := b)
          (t := { s with
            got := Function.update s.got j (s.got j ++ [some b]), replies := rest })
          rfl (by simp) rfl (by simp [hreply])
        exact ⟨past ++ [a], [], htaken⟩
      · refine ⟨past, last, h.lose rfl ?_ le_rfl ?_⟩
        · simp [Ne.symm hj]
        · rw [hreply, mine_cons_of_ne hj]
  | loseRequest hle => exact ⟨past, last, h.lose rfl rfl (mine_le hle) le_rfl⟩
  | loseReply hle => exact ⟨past, last, h.lose rfl rfl le_rfl (mine_le hle)⟩

theorem exists_inStep_of_steps (hsteps : Relation.ReflTransGen (Next answers) s t)
    (h : ∃ past last, InStep answers s i past last) : ∃ past last, InStep answers t i past last := by
  induction hsteps with
  | refl => exact h
  | tail _ hnext ih =>
      obtain ⟨past, last, hin⟩ := ih
      exact hin.next hnext

/-! ## Whose answers they are -/

/-- Whatever the network does, a client gets answers to questions of its own. -/
structure Own (answers : α → β → Prop) (s : State ι α β) : Prop where
  requests : ∀ i a, (i, a) ∈ s.requests → a ∈ s.asked i
  replies : ∀ i b, (i, b) ∈ s.replies → ∃ a ∈ s.asked i, answers a b
  got : ∀ i b, some b ∈ s.got i → ∃ a ∈ s.asked i, answers a b

omit [DecidableEq ι] in
theorem own_start (answers : α → β → Prop) : Own answers (State.start ι α β) where
  requests := by simp [State.start]
  replies := by simp [State.start]
  got := by simp [State.start]

omit [DecidableEq ι] in
/-- More questions, and no message or answer that is not like one there was. -/
theorem Own.mono (h : Own answers s) (hasked : ∀ i a, a ∈ s.asked i → a ∈ t.asked i)
    (hrequests : ∀ i a, (i, a) ∈ t.requests → (i, a) ∈ s.requests ∨ a ∈ t.asked i)
    (hreplies : ∀ i b, (i, b) ∈ t.replies →
      (i, b) ∈ s.replies ∨ ∃ a, (i, a) ∈ s.requests ∧ answers a b)
    (hgot : ∀ i b, some b ∈ t.got i → some b ∈ s.got i ∨ (i, b) ∈ s.replies) :
    Own answers t where
  requests := fun i a ha => (hrequests i a ha).elim (fun hs => hasked i a (h.requests i a hs)) id
  replies := by
    intro i b hb
    rcases hreplies i b hb with hs | ⟨a, ha, hanswer⟩
    · obtain ⟨a, ha, hanswer⟩ := h.replies i b hs
      exact ⟨a, hasked i a ha, hanswer⟩
    · exact ⟨a, hasked i a (h.requests i a ha), hanswer⟩
  got := by
    intro i b hb
    rcases hgot i b hb with hs | hs
    · obtain ⟨a, ha, hanswer⟩ := h.got i b hs
      exact ⟨a, hasked i a ha, hanswer⟩
    · obtain ⟨a, ha, hanswer⟩ := h.replies i b hs
      exact ⟨a, hasked i a ha, hanswer⟩

theorem mem_update_append {γ : Type} {f : ι → List γ} {i j : ι} {c d : γ} :
    c ∈ Function.update f j (f j ++ [d]) i ↔ c ∈ f i ∨ i = j ∧ c = d := by
  by_cases hij : i = j
  · subst hij
    simp
  · simp [hij]

theorem Own.next (h : Own answers s) (hnext : Next answers s t) : Own answers t := by
  cases hnext with
  | @ask j a hidle =>
      refine h.mono (fun i c hc => mem_update_append.mpr (.inl hc)) ?_
        (fun i b hb => .inl hb) (fun i b hb => .inl hb)
      intro i c hc
      rw [Multiset.mem_cons] at hc
      rcases hc with heq | hc
      · obtain ⟨rfl, rfl⟩ := Prod.mk.inj heq
        exact .inr (mem_update_append.mpr (.inr ⟨rfl, rfl⟩))
      · exact .inl hc
  | @serve j a b rest hrequest hanswer =>
      refine h.mono (fun i c hc => hc) (fun i c hc => .inl ?_) ?_ (fun i b hb => .inl hb)
      · rw [hrequest]
        exact Multiset.mem_cons_of_mem hc
      · intro i c hc
        rw [Multiset.mem_cons] at hc
        rcases hc with heq | hc
        · obtain ⟨rfl, rfl⟩ := Prod.mk.inj heq
          exact .inr ⟨a, by simp [hrequest], hanswer⟩
        · exact .inl hc
  | @take j b rest _ hreply =>
      refine h.mono (fun i c hc => hc) (fun i c hc => .inl hc) (fun i c hc => .inl ?_) ?_
      · rw [hreply]
        exact Multiset.mem_cons_of_mem hc
      · intro i c hc
        rcases mem_update_append.mp hc with hc | ⟨rfl, heq⟩
        · exact .inl hc
        · obtain rfl := Option.some.inj heq
          exact .inr (by simp [hreply])
  | loseRequest hle =>
      exact h.mono (fun i c hc => hc) (fun i c hc => .inl (Multiset.mem_of_le hle hc))
        (fun i c hc => .inl hc) (fun i c hc => .inl hc)
  | loseReply hle =>
      exact h.mono (fun i c hc => hc) (fun i c hc => .inl hc)
        (fun i c hc => .inl (Multiset.mem_of_le hle hc)) (fun i c hc => .inl hc)

theorem Own.steps (h : Own answers s) (hsteps : Relation.ReflTransGen (Next answers) s t) :
    Own answers t := by
  induction hsteps with
  | refl => exact h
  | tail _ hnext ih => exact ih.next hnext

omit [DecidableEq ι] in
theorem Own.copies (h : Own answers s) (hcopies : Copies s t) : Own answers t := by
  cases hcopies with
  | request hm =>
      refine h.mono (fun i c hc => hc) (fun i c hc => .inl ?_) (fun i c hc => .inl hc)
        (fun i c hc => .inl hc)
      exact (Multiset.mem_cons.mp hc).elim (fun heq => heq ▸ hm) id
  | reply hm =>
      refine h.mono (fun i c hc => hc) (fun i c hc => .inl hc) (fun i c hc => .inl ?_)
        (fun i c hc => .inl hc)
      exact (Multiset.mem_cons.mp hc).elim (fun heq => heq ▸ hm) id

theorem Own.givesUp {j : ι} (h : Own answers s) (hgives : GivesUp j s t) : Own answers t := by
  cases hgives with
  | mk _ =>
      refine h.mono (fun i c hc => hc) (fun i c hc => .inl hc) (fun i c hc => .inl hc) ?_
      intro i c hc
      rcases mem_update_append.mp hc with hc | ⟨-, heq⟩
      · exact .inl hc
      · cases heq

/-! ## Waiting for nothing -/

/-- The client waits, no reply is on its way to it, and none of its requests that
are on their way has an answer. -/
structure Stranded (answers : α → β → Prop) (s : State ι α β) (i : ι) : Prop where
  waiting : s.Waiting i
  requests : ∀ a ∈ mine i s.requests, ∀ b, ¬ answers a b
  replies : mine i s.replies = 0

theorem Stranded.keep (h : Stranded answers s i) (hasked : t.asked i = s.asked i)
    (hgot : t.got i = s.got i) (hrequests : mine i t.requests ⊆ mine i s.requests)
    (hreplies : mine i t.replies ⊆ mine i s.replies) : Stranded answers t i where
  waiting := by
    have hwaiting := h.waiting
    unfold State.Waiting at hwaiting ⊢
    rwa [hasked, hgot]
  requests := fun a ha => h.requests a (hrequests ha)
  replies := Multiset.subset_zero.mp (h.replies ▸ hreplies)

theorem mine_cons_subset {m : ι × α} {messages : Multiset (ι × α)}
    (h : m.1 = i → m.2 ∈ mine i messages) : mine i (m ::ₘ messages) ⊆ mine i messages := by
  obtain ⟨j, a⟩ := m
  by_cases hj : j = i
  · subst hj
    rw [mine_cons_self]
    exact Multiset.cons_subset.mpr ⟨h rfl, Multiset.Subset.refl _⟩
  · rw [mine_cons_of_ne hj]
    exact Multiset.Subset.refl _

theorem Stranded.next (h : Stranded answers s i) (hnext : Next answers s t) :
    Stranded answers t i ∧ t.asked i = s.asked i ∧ t.got i = s.got i := by
  have hsame : ∀ {γ : Type} (m : Multiset γ), m ⊆ m := Multiset.Subset.refl
  cases hnext with
  | @ask j a hidle =>
      have hj : j ≠ i := by
        rintro rfl
        exact (Nat.ne_of_lt h.waiting) hidle
      have hasked : Function.update s.asked j (s.asked j ++ [a]) i = s.asked i := by
        simp [Ne.symm hj]
      exact ⟨h.keep hasked rfl (mine_cons_subset fun heq => absurd heq hj) (hsame _), hasked, rfl⟩
  | @serve j a b rest hrequest hanswer =>
      have hj : j ≠ i := by
        rintro rfl
        exact h.requests a (by simp [hrequest]) b hanswer
      refine ⟨h.keep rfl rfl ?_ (mine_cons_subset fun heq => absurd heq hj), rfl, rfl⟩
      rw [hrequest, mine_cons_of_ne hj]
      exact hsame _
  | @take j b rest _ hreply =>
      have hj : j ≠ i := by
        rintro rfl
        have hnone := h.replies
        simp [hreply] at hnone
      have hgot : Function.update s.got j (s.got j ++ [some b]) i = s.got i := by
        simp [Ne.symm hj]
      refine ⟨h.keep rfl hgot (hsame _) ?_, rfl, hgot⟩
      rw [hreply, mine_cons_of_ne hj]
      exact hsame _
  | loseRequest hle =>
      exact ⟨h.keep rfl rfl (Multiset.subset_of_le (mine_le hle)) (hsame _), rfl, rfl⟩
  | loseReply hle =>
      exact ⟨h.keep rfl rfl (hsame _) (Multiset.subset_of_le (mine_le hle)), rfl, rfl⟩

theorem Stranded.steps (h : Stranded answers s i)
    (hsteps : Relation.ReflTransGen (Next answers) s t) :
    Stranded answers t i ∧ t.asked i = s.asked i ∧ t.got i = s.got i := by
  induction hsteps with
  | refl => exact ⟨h, rfl, rfl⟩
  | tail _ hnext ih =>
      obtain ⟨hstranded, hasked, hgot⟩ := ih
      obtain ⟨hstranded', hasked', hgot'⟩ := hstranded.next hnext
      exact ⟨hstranded', hasked'.trans hasked, hgot'.trans hgot⟩

theorem Stranded.copies (h : Stranded answers s i) (hcopies : Copies s t) :
    Stranded answers t i ∧ t.asked i = s.asked i ∧ t.got i = s.got i := by
  cases hcopies with
  | @request m hm =>
      have hcopy : mine i (m ::ₘ s.requests) ⊆ mine i s.requests := by
        refine mine_cons_subset ?_
        rintro rfl
        exact mem_mine.mpr hm
      exact ⟨h.keep rfl rfl hcopy (Multiset.Subset.refl _), rfl, rfl⟩
  | @reply m hm =>
      have hcopy : mine i (m ::ₘ s.replies) ⊆ mine i s.replies := by
        refine mine_cons_subset ?_
        rintro rfl
        exact mem_mine.mpr hm
      exact ⟨h.keep rfl rfl (Multiset.Subset.refl _) hcopy, rfl, rfl⟩

theorem Stranded.givesUp {j : ι} (h : Stranded answers s i) (hj : j ≠ i)
    (hgives : GivesUp j s t) :
    Stranded answers t i ∧ t.asked i = s.asked i ∧ t.got i = s.got i := by
  cases hgives with
  | mk _ =>
      have hgot : Function.update s.got j (s.got j ++ [none]) i = s.got i := by
        simp [Ne.symm hj]
      exact ⟨h.keep rfl hgot (Multiset.Subset.refl _) (Multiset.Subset.refl _), rfl, hgot⟩

end LinuxAdvance.Foundation.AskWait
