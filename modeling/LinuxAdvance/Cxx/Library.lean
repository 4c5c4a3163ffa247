import LinuxAdvance.Cxx.Decimal
import LinuxAdvance.Foundation.Lines

/-!
# Maps, streams and the C string functions

`std::unordered_map` is an association list without repeated keys; an iteration
visits its elements in an order that the program cannot rely on.  A
`stringstream` and an `ifstream` are read as the bytes they still hold.
-/

namespace LinuxAdvance.Cxx

open LinuxAdvance.Foundation

abbrev UnorderedMap (κ υ : Type) := AList fun _ : κ => υ

namespace UnorderedMap

variable {κ υ : Type} [DecidableEq κ]

/-- `m[k]`, which adds a value-initialised element for a key that is missing. -/
def access (m : UnorderedMap κ υ) (k : κ) (init : υ) : υ × UnorderedMap κ υ :=
  match m.lookup k with
  | some v => (v, m)
  | none => (init, m.insert k init)

def Order (m : UnorderedMap κ υ) : Type :=
  { elements : List (κ × υ) // elements.Perm (m.entries.map fun e => (e.1, e.2)) }

def insertAll (m : UnorderedMap κ υ) (pairs : List (κ × υ)) : UnorderedMap κ υ :=
  pairs.foldl (fun m e => m.insert e.1 e.2) m

theorem lookup_insertAll (m : UnorderedMap κ υ) (pairs : List (κ × υ)) (k : κ) :
    (insertAll m pairs).lookup k = (lastValue k pairs).or (m.lookup k) := by
  induction pairs generalizing m with
  | nil => rfl
  | cons e pairs ih =>
      change (insertAll (m.insert e.1 e.2) pairs).lookup k = _
      rw [ih, lastValue_cons, Option.or_assoc]
      by_cases hk : k = e.1
      · subst hk
        simp
      · simp [hk]

theorem lastValue_order (m : UnorderedMap κ υ) (order : Order m) (k : κ) :
    lastValue k order.val = m.lookup k := by
  have hkeys : (order.val.map Prod.fst).Nodup := by
    rw [(order.property.map Prod.fst).nodup_iff, List.map_map]
    exact m.nodupKeys
  ext v
  rw [lastValue_eq_some_iff hkeys, order.property.mem_iff, ← Option.mem_def,
    AList.mem_lookup_iff, List.mem_map]
  constructor
  · rintro ⟨⟨k', v'⟩, hmem, heq⟩
    obtain ⟨rfl, rfl⟩ := Prod.mk.inj heq
    exact hmem
  · exact fun hmem => ⟨⟨k, v⟩, hmem, rfl⟩

end UnorderedMap

/-! ## Streams -/

/-- `stream >> s`; on failure `s` keeps its value and the stream has no more. -/
def extract (stream s : Bytes) : Bytes × Bytes :=
  match stream.dropWhile isSpace with
  | [] => (s, [])
  | b :: rest =>
      ((b :: rest).takeWhile fun b => !isSpace b,
        (b :: rest).dropWhile fun b => !isSpace b)

def words (s : Bytes) : List Bytes := (s.splitOnP isSpace).filter (· ≠ [])

theorem words_cons_space {b : UInt8} (hb : isSpace b = true) (s : Bytes) :
    words (b :: s) = words s := by
  simp [words, List.splitOnP_cons_eq_if_modifyHead, hb]

theorem words_dropWhile (s : Bytes) : words (s.dropWhile isSpace) = words s := by
  induction s with
  | nil => rfl
  | cons b s ih =>
      by_cases hb : isSpace b = true
      · rw [List.dropWhile_cons_of_pos hb, ih, words_cons_space hb]
      · rw [List.dropWhile_cons_of_neg hb]

theorem words_append {word rest : Bytes} (hne : word ≠ [])
    (hword : ∀ b ∈ word, isSpace b = false)
    (hrest : ∀ b, rest.head? = some b → isSpace b = true) :
    words (word ++ rest) = word :: words rest := by
  cases rest with
  | nil => simp [words, List.splitOnP_eq_singleton hword, hne]
  | cons b rest =>
      have hb := hrest b rfl
      rw [words_cons_space hb, words, List.splitOnP_append_cons _ _ hb,
        List.splitOnP_eq_singleton hword]
      simp [words, hne]

theorem extract_words (stream s : Bytes) :
    words stream = [] ∧ extract stream s = (s, []) ∨
      ∃ word rest, extract stream s = (word, rest) ∧ words stream = word :: words rest := by
  rw [extract, ← words_dropWhile stream]
  cases hdrop : stream.dropWhile isSpace with
  | nil => exact .inl ⟨rfl, rfl⟩
  | cons b rest =>
      have hb : isSpace b = false := by
        have := List.head?_dropWhile_not isSpace stream
        rw [hdrop] at this
        simpa using this
      refine .inr ⟨_, _, rfl, ?_⟩
      rw [← words_append]
      · rw [List.takeWhile_append_dropWhile]
      · simp [hb]
      · intro c hc
        simpa using List.mem_takeWhile_imp hc
      · intro c hc
        have := List.head?_dropWhile_not (fun b => !isSpace b) (b :: rest)
        rw [hc] at this
        simpa using this

def getLines (file : Bytes) : List Bytes :=
  let pieces := file.splitOn 10
  if pieces.getLast? = some [] then pieces.dropLast else pieces

theorem getLines_append {line : Bytes} (hline : (10 : UInt8) ∉ line) (rest : Bytes) :
    getLines (line ++ 10 :: rest) = line :: getLines rest := by
  have hne : rest.splitOn 10 ≠ [] := List.splitOn_ne_nil 10 rest
  simp only [getLines, List.splitOn_append_cons_self_of_not_mem hline,
    List.getLast?_cons_of_ne_nil hne]
  split
  · rw [List.dropLast_cons_of_ne_nil hne]
  · rfl

theorem getLines_flatMap {lines : List Bytes} (hlines : ∀ line ∈ lines, (10 : UInt8) ∉ line) :
    getLines (lines.flatMap (· ++ [10])) = lines := by
  induction lines with
  | nil => rfl
  | cons line lines ih =>
      simp only [List.forall_mem_cons] at hlines
      rw [List.flatMap_cons, List.append_assoc, List.singleton_append,
        getLines_append hlines.1, ih hlines.2]

theorem notMem_splitOn {b : UInt8} {file piece : Bytes} (h : piece ∈ file.splitOn b) :
    b ∉ piece := by
  induction file generalizing piece with
  | nil =>
      simp only [List.splitOn_nil, List.mem_singleton] at h
      simp [h]
  | cons c file ih =>
      rw [List.splitOn, List.splitOnP_cons_eq_if_modifyHead] at h
      split at h
      · rcases List.mem_cons.mp h with rfl | hmem
        · exact List.not_mem_nil
        · exact ih hmem
      · next hne =>
          obtain ⟨first, pieces, hsplit⟩ :=
            List.exists_cons_of_ne_nil (List.splitOnP_ne_nil (· == b) file)
          have hpieces : file.splitOn b = first :: pieces := hsplit
          rw [hsplit, List.modifyHead_cons] at h
          rcases List.mem_cons.mp h with rfl | hmem
          · have hfirst := ih (hpieces ▸ List.mem_cons_self)
            have hcb : b ≠ c := fun heq => hne (by simp [heq])
            simp [hcb, hfirst]
          · exact ih (hpieces ▸ List.mem_cons_of_mem _ hmem)

theorem notMem_getLines {file line : Bytes} (h : line ∈ getLines file) : (10 : UInt8) ∉ line := by
  unfold getLines at h
  dsimp only at h
  split at h
  · exact notMem_splitOn (List.mem_of_mem_dropLast h)
  · exact notMem_splitOn h

/-- `s.resize(n)` of an empty string. -/
def resize (n : Nat) : Except Exn Bytes :=
  if n < 2 ^ 63 then .ok (List.replicate n 0) else .error .lengthError

/-! ## C strings -/

def toLower (b : UInt8) : UInt8 := if 65 ≤ b ∧ b ≤ 90 then b + 32 else b

/-- `strcasecmp(s.c_str(), t.c_str()) == 0`. -/
def strcasecmpEq (s t : Bytes) : Bool :=
  (ofCString s).map toLower = (ofCString t).map toLower

end LinuxAdvance.Cxx
