import LinuxAdvance.Http.Rendering

/-!
# The configuration files

What the two tables of a new service say, read off the files it was started with.
-/

namespace LinuxAdvance.Http

open LinuxAdvance.Foundation
open LinuxAdvance.Cxx

namespace Server

/-- What a configuration file says, up to the first line without a separator. -/
def confEntries (file : Option Bytes) : List (Bytes × Bytes) :=
  fields (wellFormedPart (getLines (file.getD [])))

namespace Conf

def statusEntries (conf : Conf) : List (Int32 × Bytes) :=
  (confEntries conf.statusCodeDesc).filterMap fun e => (stoi e.1).toOption.map (·, e.2)

def mimeOf (conf : Conf) (suffix : Bytes) : Bytes :=
  (lastValue suffix (confEntries conf.mimeType)).getD []

def descOf (conf : Conf) (code : Int32) : Bytes := (lastValue code conf.statusEntries).getD []

end Conf

/-- A loop of `LoadMimeType` or `LoadStatusDesc` that does not throw. -/
theorem loadPairs_eq {κ : Type} [DecidableEq κ] {key : Bytes → Except Exn κ} {lines : List Bytes}
    {m m' : UnorderedMap κ Bytes} {whole : Bool} (h : loadPairs key lines m = .ok (m', whole)) :
    m' = UnorderedMap.insertAll m
      ((fields (wellFormedPart lines)).filterMap fun e => (key e.1).toOption.map (·, e.2)) := by
  induction lines generalizing m with
  | nil =>
      obtain ⟨rfl, -⟩ := Prod.mk.inj (Except.ok.inj h)
      rfl
  | cons line lines ih =>
      rw [loadPairs] at h
      cases hpos : findSub? confSep line with
      | none =>
          rw [hpos] at h
          have hfield : field? line = none := Option.map_eq_none_iff.mpr hpos
          obtain ⟨rfl, -⟩ := Prod.mk.inj (Except.ok.inj h)
          rw [HttpRequest.fields_cons_of_none hfield]
          rfl
      | some pos =>
          have hfield : field? line =
              some (line.take pos, line.drop (pos + reqHeaderSep.length)) :=
            Option.map_eq_some_iff.mpr ⟨pos, hpos, rfl⟩
          rw [hpos] at h
          rw [HttpRequest.fields_cons_of_some hfield, List.filterMap_cons]
          cases hkey : key (line.take pos) with
          | error e => simp [hkey] at h
          | ok k =>
              simp only [hkey] at h
              exact ih h

theorem getLines_nil : getLines [] = [] := by decide

/-- The two tables say what the configuration says. -/
structure Says (conf : Conf) (s : Server) : Prop where
  mimeType : ∀ suffix, (s.mimeType.lookup suffix).getD [] = conf.mimeOf suffix
  desc : ∀ code, (s.statusCodeToDesc.lookup code).getD [] = conf.descOf code

theorem lookup_loadMimeType {conf : Conf} {m : UnorderedMap Bytes Bytes} {whole : Bool}
    (h : loadMimeType conf = .ok (m, whole)) (suffix : Bytes) :
    m.lookup suffix = lastValue suffix (confEntries conf.mimeType) := by
  unfold loadMimeType at h
  cases hfile : conf.mimeType with
  | none =>
      rw [hfile] at h
      obtain ⟨rfl, -⟩ := Prod.mk.inj (Except.ok.inj h)
      simp [confEntries, getLines_nil, fields, wellFormedPart]
  | some file =>
      rw [hfile] at h
      rw [loadPairs_eq h, UnorderedMap.lookup_insertAll]
      simp [confEntries, Except.toOption]

theorem lookup_loadStatusDesc {conf : Conf} {m : UnorderedMap Int32 Bytes} {whole : Bool}
    (h : loadStatusDesc conf = .ok (m, whole)) (code : Int32) :
    m.lookup code = lastValue code conf.statusEntries := by
  unfold loadStatusDesc at h
  cases hfile : conf.statusCodeDesc with
  | none =>
      rw [hfile] at h
      obtain ⟨rfl, -⟩ := Prod.mk.inj (Except.ok.inj h)
      simp [Conf.statusEntries, confEntries, hfile, getLines_nil, fields, wellFormedPart]
  | some file =>
      rw [hfile] at h
      rw [loadPairs_eq h, UnorderedMap.lookup_insertAll]
      simp [Conf.statusEntries, confEntries, hfile]

theorem says_construct {conf : Conf} {s : Server} (h : construct conf = .ok s) : Says conf s := by
  unfold construct at h
  split at h
  · next hmime hstatus =>
      cases h
      exact ⟨fun suffix => by rw [lookup_loadMimeType hmime, Conf.mimeOf],
        fun code => by rw [lookup_loadStatusDesc hstatus, Conf.descOf]⟩
  · cases h
  · cases h

/-! ## No line break in the texts -/

theorem notMem_confEntries {file : Option Bytes} {e : Bytes × Bytes} (he : e ∈ confEntries file) :
    (10 : UInt8) ∉ e.2 := by
  obtain ⟨line, hline, hfield⟩ := List.mem_filterMap.mp he
  have hnot : (10 : UInt8) ∉ line := notMem_getLines ((List.takeWhile_sublist _).subset hline)
  have hsplit : line = e.1 ++ reqHeaderSep ++ e.2 := append_of_cut? hfield
  rw [hsplit] at hnot
  exact fun hmem => hnot (List.mem_append_right _ hmem)

theorem not_sep_of_notMem {s : Bytes} (h : (10 : UInt8) ∉ s) : ¬ sep <:+: s := by
  rw [sep_eq]
  exact fun hsep => h (hsep.subset (by simp))

theorem not_sep_mimeOf (conf : Conf) (suffix : Bytes) : ¬ sep <:+: conf.mimeOf suffix := by
  apply not_sep_of_notMem
  unfold Conf.mimeOf
  cases hvalue : lastValue suffix (confEntries conf.mimeType) with
  | none => exact List.not_mem_nil
  | some mime => exact notMem_confEntries (mem_of_lastValue hvalue)

theorem not_sep_descOf (conf : Conf) (code : Int32) : ¬ sep <:+: conf.descOf code := by
  apply not_sep_of_notMem
  unfold Conf.descOf
  cases hvalue : lastValue code conf.statusEntries with
  | none => exact List.not_mem_nil
  | some desc =>
      obtain ⟨e, he, hkey⟩ := List.mem_filterMap.mp (mem_of_lastValue hvalue)
      obtain ⟨k, -, hpair⟩ := Option.map_eq_some_iff.mp hkey
      obtain ⟨-, rfl⟩ := Prod.mk.inj hpair
      exact notMem_confEntries he

end Server

end LinuxAdvance.Http
