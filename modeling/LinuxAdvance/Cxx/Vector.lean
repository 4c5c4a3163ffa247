import LinuxAdvance.Foundation.Proc

/-!
# `std::vector` and its iterators

An iterator is a position; `end()` is the number of elements.  Reading, erasing
and advancing there have no defined result.  After `erase` an iterator stands at
the element that moved to its place, as the pointers of the implementations do.
-/

namespace LinuxAdvance.Cxx.Vector

open LinuxAdvance.Foundation

inductive Misuse where
  | dereferenceEnd
  | advanceEnd
  | eraseEnd
  | outOfBounds
  deriving DecidableEq, Repr

variable {α : Type}

def dereference (iter : Nat) : Proc Misuse (List α) α := do
  match (← Proc.get)[iter]? with
  | some a => return a
  | none => Proc.raise .dereferenceEnd

def advance (iter : Nat) : Proc Misuse (List α) Nat := do
  if iter < (← Proc.get).length then return iter + 1 else Proc.raise .advanceEnd

def erase (iter : Nat) : Proc Misuse (List α) Unit := do
  if iter < (← Proc.get).length then Proc.modify fun v => v.eraseIdx iter
  else Proc.raise .eraseEnd

def pushBack (a : α) : Proc Misuse (List α) Unit := Proc.modify fun v => v ++ [a]

def anyOfRound (p : α → Bool) (iter : Nat) : Proc Misuse (List α) (Nat ⊕ Bool) := do
  if iter = (← Proc.get).length then return .inr false
  else if p (← dereference iter) then return .inr true
  else return .inl (← advance iter)

/-- `for (auto &e : v) if (p(e)) return true; return false;`, with a round for
each element and one for the end. -/
def anyOf (p : α → Bool) : Proc Misuse (List α) Bool := do
  Proc.iterate (anyOfRound p) ((← Proc.get).length + 1) 0

def eraseRound (p : α → Bool) (iter : Nat) : Proc Misuse (List α) (Nat ⊕ Unit) := do
  if iter = (← Proc.get).length then return .inr ()
  else
    if p (← dereference iter) then erase iter
    return .inl (← advance iter)

/-- `for (iter = v.begin(); iter != v.end(); ++iter) if (p(*iter)) v.erase(iter);` -/
def eraseWhile (p : α → Bool) : Proc Misuse (List α) Unit := do
  Proc.iterate (eraseRound p) ((← Proc.get).length + 1) 0

/-! ## One round -/

section Round

variable {p : α → Bool} {v : List α} {iter : Nat}

@[simp] theorem run_dereference (h : iter < v.length) :
    (dereference iter).run v = .done v[iter] v := by
  simp [dereference, h]

@[simp] theorem run_advance (h : iter < v.length) :
    (advance iter).run v = .done (iter + 1) v := by
  simp [advance, h]

theorem run_advance_end (h : v.length ≤ iter) :
    (advance iter).run v = .raised .advanceEnd v := by
  simp [advance, Nat.not_lt.mpr h]

@[simp] theorem run_erase (h : iter < v.length) :
    (erase iter).run v = .done () (v.eraseIdx iter) := by
  simp [erase, h]

theorem anyOfRound_end (p : α → Bool) (v : List α) :
    (anyOfRound p v.length).run v = .done (.inr false) v := by
  simp [anyOfRound]

theorem anyOfRound_hit (h : iter < v.length) (hp : p v[iter] = true) :
    (anyOfRound p iter).run v = .done (.inr true) v := by
  simp [anyOfRound, h.ne, Proc.run_bind_done (run_dereference h), hp]

theorem anyOfRound_miss (h : iter < v.length) (hp : p v[iter] = false) :
    (anyOfRound p iter).run v = .done (.inl (iter + 1)) v := by
  simp [anyOfRound, h.ne, Proc.run_bind_done (run_dereference h), hp,
    Proc.run_bind_done (run_advance h)]

theorem eraseRound_end (p : α → Bool) (v : List α) :
    (eraseRound p v.length).run v = .done (.inr ()) v := by
  simp [eraseRound]

theorem eraseRound_miss (h : iter < v.length) (hp : p v[iter] = false) :
    (eraseRound p iter).run v = .done (.inl (iter + 1)) v := by
  simp [eraseRound, h.ne, Proc.run_bind_done (run_dereference h), hp,
    Proc.run_bind_done (run_advance h)]

theorem eraseRound_hit (h : iter < v.length) (hp : p v[iter] = true) :
    (eraseRound p iter).run v =
      if iter + 1 = v.length then .raised .advanceEnd (v.eraseIdx iter)
      else .done (.inl (iter + 1)) (v.eraseIdx iter) := by
  have hlength : (v.eraseIdx iter).length = v.length - 1 := List.length_eraseIdx_of_lt h
  simp only [eraseRound, Proc.run_get_bind, h.ne, if_false, Proc.run_bind_done
    (run_dereference h), hp, if_true, Proc.run_bind_done (run_erase h)]
  split
  · rw [Proc.run_bind_raised (run_advance_end (by omega))]
  · rw [Proc.run_bind_done (run_advance (by omega))]
    rfl

end Round

/-! ## Whole loops -/

theorem run_anyOf (p : α → Bool) (v : List α) : (anyOf p).run v = .done (v.any p) v := by
  have hloop : ∀ n iter, iter ≤ v.length → v.length - iter < n →
      (Proc.iterate (anyOfRound p) n iter).run v = .done ((v.drop iter).any p) v := by
    intro n
    induction n with
    | zero => simp
    | succ n ih =>
        intro iter hle hn
        by_cases hend : iter = v.length
        · subst hend
          rw [Proc.iterate_succ_inr (anyOfRound_end p v)]
          simp
        · have hlt : iter < v.length := by omega
          rw [List.drop_eq_getElem_cons hlt, List.any_cons]
          cases hp : p v[iter] with
          | true =>
              rw [Proc.iterate_succ_inr (anyOfRound_hit hlt hp)]
              simp
          | false =>
              rw [Proc.iterate_succ_inl (anyOfRound_miss hlt hp), ih _ hlt (by omega)]
              simp
  simpa [anyOf] using hloop (v.length + 1) 0 (by omega) (by omega)

/-- No hit from here on: the loop runs to the end. -/
theorem run_eraseLoop_of_miss {p : α → Bool} {v : List α} {n iter : Nat}
    (hle : iter ≤ v.length) (hn : v.length - iter < n)
    (hmiss : ∀ k, iter ≤ k → (hk : k < v.length) → p v[k] = false) :
    (Proc.iterate (eraseRound p) n iter).run v = .done () v := by
  induction n generalizing iter with
  | zero => omega
  | succ n ih =>
      by_cases hend : iter = v.length
      · subst hend
        rw [Proc.iterate_succ_inr (eraseRound_end p v)]
      · have hlt : iter < v.length := by omega
        rw [Proc.iterate_succ_inl (eraseRound_miss hlt (hmiss iter (by omega) hlt))]
        exact ih hlt (by omega) fun k hk => hmiss k (by omega)

/-- One hit: fine unless it is the last element, after which the loop steps over
the end. -/
theorem run_eraseWhile_of_hit {p : α → Bool} {pre post : List α} {a : α}
    (hpre : ∀ b ∈ pre, p b = false) (ha : p a = true) (hpost : ∀ b ∈ post, p b = false) :
    (eraseWhile p).run (pre ++ a :: post) =
      if post = [] then .raised .advanceEnd pre else .done () (pre ++ post) := by
  have hlength : (pre ++ a :: post).length = pre.length + post.length + 1 := by
    simp
    omega
  have hloop : ∀ n iter, iter ≤ pre.length → (pre ++ a :: post).length - iter < n →
      (Proc.iterate (eraseRound p) n iter).run (pre ++ a :: post) =
        if post = [] then .raised .advanceEnd pre else .done () (pre ++ post) := by
    intro n
    induction n with
    | zero => simp
    | succ n ih =>
        intro iter hle hn
        have hlt : iter < (pre ++ a :: post).length := by omega
        by_cases hat : iter = pre.length
        · subst hat
          have hhit := eraseRound_hit hlt (p := p) (by simpa using ha)
          rw [List.eraseIdx_append_of_length_le (by omega), Nat.sub_self,
            List.eraseIdx_cons_zero] at hhit
          by_cases hlast : post = []
          · subst hlast
            rw [if_pos (by simp)] at hhit
            rw [Proc.iterate_succ_raised hhit]
            simp
          · have hpos := List.length_pos_iff.mpr hlast
            rw [if_neg (by omega)] at hhit
            rw [Proc.iterate_succ_inl hhit, if_neg hlast]
            apply run_eraseLoop_of_miss
            · simp
              omega
            · simp
              omega
            · intro k hk hlt
              rw [List.getElem_append_right (by omega)]
              exact hpost _ (List.getElem_mem _)
        · have hin : iter < pre.length := by omega
          have hmiss : p (pre ++ a :: post)[iter] = false := by
            rw [List.getElem_append_left hin]
            exact hpre _ (List.getElem_mem hin)
          rw [Proc.iterate_succ_inl (eraseRound_miss hlt hmiss)]
          exact ih _ hin (by omega)
  unfold eraseWhile
  rw [Proc.run_get_bind]
  exact hloop _ 0 (by omega) (by omega)

end LinuxAdvance.Cxx.Vector
