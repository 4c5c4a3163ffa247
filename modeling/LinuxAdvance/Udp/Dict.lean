import LinuxAdvance.Cxx.Library

/-!
# The dictionary: `Dict`

`Load` skips the lines that have no separator; of two lines for one word the last
counts.  `Translate` looks through the whole map, in whatever order it is
iterated.
-/

namespace LinuxAdvance.Udp

open LinuxAdvance.Foundation
open LinuxAdvance.Cxx

def dictSep : Bytes := text ": "

def notFound : Bytes := text "未找到"

namespace Dict

def loadLines : List Bytes → UnorderedMap Bytes Bytes → UnorderedMap Bytes Bytes
  | [], dict => dict
  | line :: lines, dict =>
      match findSub? dictSep line with
      | none => loadLines lines dict
      | some pos =>
          loadLines lines (dict.insert (line.take pos) (line.drop (pos + dictSep.length)))

/-- `none` is a file that cannot be opened; the map then stays empty. -/
def load (file : Option Bytes) : UnorderedMap Bytes Bytes × Bool :=
  match file with
  | none => (∅, false)
  | some file => (loadLines (getLines file) ∅, true)

def construct (file : Option Bytes) : UnorderedMap Bytes Bytes := (load file).1

/-- The text, and what is stored in `*ok`. -/
def translate (dict : UnorderedMap Bytes Bytes) (order : UnorderedMap.Order dict)
    (str : Bytes) : Bytes × Bool :=
  match order.val.find? fun e => e.1 == str with
  | some e => (e.2, true)
  | none => (notFound, false)

/-! ## What the file says -/

def entries (file : Bytes) : List (Bytes × Bytes) := (getLines file).filterMap (cut? dictSep)

def meaning (file : Option Bytes) (word : Bytes) : Option Bytes :=
  file.bind fun file => lastValue word (entries file)

theorem loadLines_eq (lines : List Bytes) (dict : UnorderedMap Bytes Bytes) :
    loadLines lines dict = UnorderedMap.insertAll dict (lines.filterMap (cut? dictSep)) := by
  induction lines generalizing dict with
  | nil => rfl
  | cons line lines ih =>
      rw [loadLines, List.filterMap_cons, cut?]
      cases findSub? dictSep line with
      | none => exact ih dict
      | some pos => exact ih _

theorem lookup_construct (file : Option Bytes) (word : Bytes) :
    (construct file).lookup word = meaning file word := by
  cases file with
  | none => rfl
  | some file =>
      rw [construct, load, loadLines_eq, UnorderedMap.lookup_insertAll]
      simp [meaning, entries]

theorem find?_order (dict : UnorderedMap Bytes Bytes) (order : UnorderedMap.Order dict)
    (word : Bytes) :
    (order.val.find? fun e => e.1 == word).map Prod.snd = dict.lookup word := by
  have hlast := UnorderedMap.lastValue_order dict order word
  have hkeys : (order.val.map Prod.fst).Nodup := by
    rw [(order.property.map Prod.fst).nodup_iff, List.map_map]
    exact dict.nodupKeys
  ext meaning
  rw [← hlast, lastValue_eq_some_iff hkeys, Option.map_eq_some_iff]
  constructor
  · rintro ⟨⟨word', meaning'⟩, hfind, rfl⟩
    have hword : word' = word := by simpa using List.find?_some hfind
    exact hword ▸ List.mem_of_find?_eq_some hfind
  · intro hmem
    cases hfind : order.val.find? fun e => e.1 == word with
    | none =>
        have hnot := List.find?_eq_none.mp hfind _ hmem
        simp at hnot
    | some e =>
        have hword : e.1 = word := by simpa using List.find?_some hfind
        have he : (word, e.2) ∈ order.val := hword ▸ List.mem_of_find?_eq_some hfind
        have hsame := (lastValue_eq_some_iff hkeys).mpr he
        rw [(lastValue_eq_some_iff hkeys).mpr hmem] at hsame
        exact ⟨e, rfl, (Option.some.inj hsame).symm⟩

theorem translate_eq (file : Option Bytes) (order : UnorderedMap.Order (construct file))
    (word : Bytes) :
    translate (construct file) order word =
      ((meaning file word).getD notFound, (meaning file word).isSome) := by
  have hfind := find?_order (construct file) order word
  rw [lookup_construct] at hfind
  rw [translate, ← hfind]
  cases order.val.find? fun e => e.1 == word <;> rfl

/-! ## Dictionaries written out -/

def writeLine (e : Bytes × Bytes) : Bytes := e.1 ++ dictSep ++ e.2 ++ [10]

/-- A word that `Load` reads back: no line break in it, no separator in front. -/
structure Writable (e : Bytes × Bytes) : Prop where
  word : (10 : UInt8) ∉ e.1
  sep : ¬ dictSep <:+: e.1
  meaning : (10 : UInt8) ∉ e.2

theorem entries_flatMap {es : List (Bytes × Bytes)} (hes : ∀ e ∈ es, Writable e) :
    entries (es.flatMap writeLine) = es := by
  have hsep : dictSep = [58, 32] := by decide
  have hlines : es.flatMap writeLine =
      (es.map fun e => e.1 ++ dictSep ++ e.2).flatMap (· ++ [10]) := by
    rw [List.flatMap_map]
    rfl
  have hbreaks : ∀ line ∈ es.map fun e => e.1 ++ dictSep ++ e.2, (10 : UInt8) ∉ line := by
    intro line hline
    obtain ⟨e, he, rfl⟩ := List.mem_map.mp hline
    simp [hsep, (hes e he).word, (hes e he).meaning]
  rw [entries, hlines, getLines_flatMap hbreaks, List.filterMap_map]
  refine (List.filterMap_congr fun e he => ?_).trans List.filterMap_some
  have hcut := cut?_pair (by decide : (58 : UInt8) ≠ 32) (hsep ▸ (hes e he).sep) e.2
  rw [← hsep] at hcut
  exact hcut

end Dict

end LinuxAdvance.Udp
