import LinuxAdvance.Cxx.Text
import LinuxAdvance.Foundation.Lines

/-!
# Commands: `CheckCommand` and `OnCommand`

What a client sends is given to a shell unless one of twelve words occurs in it.
The output is read by `fgets` into a buffer and appended as a C string, so that of
each stretch `fgets` reads, what is behind a NUL is lost.
-/

namespace LinuxAdvance.Command

open LinuxAdvance.Foundation
open LinuxAdvance.Cxx

def cmd : List Bytes :=
  [text "kill", text "rm", text "dd", text "top", text "reboot", text "shutdown",
    text "mv", text "cp", text "halt", text "unlink", text "exit", text "chmod"]

def checkCommand (command : Bytes) : Bool := cmd.all fun e => (findSub? e command).isNone

/-- `fgets` with room for `n` bytes: up to a newline, and with it. -/
def fgetsLoop : Nat → Bytes → Bytes × Bytes
  | 0, stream => ([], stream)
  | _ + 1, [] => ([], [])
  | n + 1, b :: stream =>
      if b = 10 then ([b], stream)
      else
        let (line, rest) := fgetsLoop n stream
        (b :: line, rest)

/-- `fgets(buff, sizeof(buff), pp)`; null at the end of the output. -/
def fgets (stream : Bytes) : Option (Bytes × Bytes) :=
  if stream = [] then none else some (fgetsLoop 1023 stream)

def readOutput : Nat → Bytes → Bytes → Bytes
  | 0, _, response => response
  | n + 1, stream, response =>
      match fgets stream with
      | none => response
      | some (line, rest) => readOutput n rest (response ++ ofCString line)

/-- The response, and the commands given to `popen`; `popen` is the output of a
command, or `none` if it cannot be started. -/
def onCommand (popen : Bytes → Option Bytes) (command : Bytes) : Bytes × List Bytes :=
  if checkCommand command then
    match popen (ofCString command) with
    | none => (text "popen error!", [ofCString command])
    | some output =>
        let response := readOutput (output.length + 1) output []
        (if response = [] then text "not command" else response, [ofCString command])
  else (text "bad man!", [])

/-! ## What is run -/

def Harmless (command : Bytes) : Prop := ∀ e ∈ cmd, ¬ e <:+: command

theorem checkCommand_iff {command : Bytes} : checkCommand command = true ↔ Harmless command := by
  simp [checkCommand, Harmless, findSub?_eq_none_iff]

theorem Harmless.of_part {part command : Bytes} (h : Harmless command) (hpart : part <:+: command) :
    Harmless part := fun e he hin => h e he (hin.trans hpart)

theorem prefix_ofCString (s : Bytes) : ofCString s <+: s := List.takeWhile_prefix _

def popened (command : Bytes) : List Bytes :=
  if checkCommand command then [ofCString command] else []

theorem popened_eq (popen : Bytes → Option Bytes) (command : Bytes) :
    (onCommand popen command).2 = popened command := by
  unfold onCommand popened
  split
  · cases popen (ofCString command) <;> rfl
  · rfl

theorem mem_popened {command c : Bytes} (h : c ∈ popened command) :
    c = ofCString command ∧ Harmless c := by
  unfold popened at h
  split at h
  · next hcheck =>
      obtain rfl := List.mem_singleton.mp h
      exact ⟨rfl, (checkCommand_iff.mp hcheck).of_part (prefix_ofCString command).isInfix⟩
  · cases h

/-! ## What of the output comes back -/

theorem fgetsLoop_append (n : Nat) (stream : Bytes) :
    (fgetsLoop n stream).1 ++ (fgetsLoop n stream).2 = stream := by
  induction n generalizing stream with
  | zero => rfl
  | succ n ih =>
      cases stream with
      | nil => rfl
      | cons b stream =>
          rw [fgetsLoop]
          split
          · rfl
          · exact congrArg (b :: ·) (ih stream)

theorem length_fgets {stream line rest : Bytes} (h : fgets stream = some (line, rest)) :
    rest.length < stream.length := by
  unfold fgets at h
  split at h
  · cases h
  · next hne =>
      obtain ⟨b, stream, rfl⟩ := List.exists_cons_of_ne_nil hne
      have happend := congrArg List.length (fgetsLoop_append 1022 stream)
      simp only [Option.some.injEq, fgetsLoop] at h
      simp only [List.length_append] at happend
      split at h
      · obtain ⟨-, rfl⟩ := Prod.mk.inj h
        simp
      · obtain ⟨-, rfl⟩ := Prod.mk.inj h
        simp only [List.length_cons]
        omega

/-- The stretches `fgets` reads make up the output, and each comes back up to its
first NUL. -/
theorem readOutput_pieces {n : Nat} {stream : Bytes} (hn : stream.length < n)
    (response : Bytes) :
    ∃ pieces : List Bytes, pieces.flatten = stream ∧
      readOutput n stream response = response ++ pieces.flatMap ofCString := by
  induction n generalizing stream response with
  | zero => omega
  | succ n ih =>
      rw [readOutput]
      cases hfgets : fgets stream with
      | none =>
          have hempty : stream = [] := by simpa [fgets] using hfgets
          exact ⟨[], by simp [hempty]⟩
      | some read =>
          obtain ⟨line, rest⟩ := read
          have hlt := length_fgets hfgets
          obtain ⟨pieces, hpieces, hread⟩ := ih (show rest.length < n by omega)
            (response ++ ofCString line)
          have happend : line ++ rest = stream := by
            have hloop := fgetsLoop_append 1023 stream
            unfold fgets at hfgets
            split at hfgets
            · cases hfgets
            · rwa [Option.some.inj hfgets] at hloop
          refine ⟨line :: pieces, ?_, ?_⟩
          · rw [List.flatten_cons, hpieces, happend]
          · rw [List.flatMap_cons, ← List.append_assoc]
            exact hread

theorem length_ofCString_lt {s : Bytes} (h : (0 : UInt8) ∈ s) :
    (ofCString s).length < s.length := by
  refine lt_of_le_of_ne (prefix_ofCString s).length_le fun heq => ?_
  have hsame := (prefix_ofCString s).eq_of_length heq
  exact notMem_ofCString s (hsame.symm ▸ h)

theorem flatMap_ofCString_eq_iff (pieces : List Bytes) :
    pieces.flatMap ofCString = pieces.flatten ↔ (0 : UInt8) ∉ pieces.flatten := by
  have hle : ∀ pieces : List Bytes,
      (pieces.flatMap ofCString).length ≤ pieces.flatten.length := by
    intro pieces
    induction pieces with
    | nil => simp
    | cons piece pieces ih =>
        have hpiece := (prefix_ofCString piece).length_le
        simp only [List.flatMap_cons, List.flatten_cons, List.length_append]
        omega
  induction pieces with
  | nil => simp
  | cons piece pieces ih =>
      rw [List.flatMap_cons, List.flatten_cons, List.mem_append, not_or]
      constructor
      · intro heq
        have hnul : (0 : UInt8) ∉ piece := by
          intro hmem
          have hlt := length_ofCString_lt hmem
          have hrest := hle pieces
          have hlength := congrArg List.length heq
          simp only [List.length_append] at hlength
          omega
        rw [ofCString_of_notMem hnul, List.append_cancel_left_eq] at heq
        exact ⟨hnul, ih.mp heq⟩
      · rintro ⟨hpiece, hpieces⟩
        rw [ofCString_of_notMem hpiece, ih.mpr hpieces]

/-- Without a NUL in it the output comes back as it is, and only then. -/
theorem response_eq_iff {popen : Bytes → Option Bytes} {command output : Bytes}
    (hharmless : Harmless command) (hpopen : popen (ofCString command) = some output) :
    (onCommand popen command).1 = output ↔ output ≠ [] ∧ (0 : UInt8) ∉ output := by
  obtain ⟨pieces, rfl, hread⟩ :=
    readOutput_pieces (Nat.lt_succ_self output.length) []
  rw [List.nil_append] at hread
  simp only [onCommand, checkCommand_iff.mpr hharmless, hpopen, if_true, Nat.succ_eq_add_one] at *
  rw [hread]
  have hnot : (0 : UInt8) ∉ text "not command" := by decide
  constructor
  · intro heq
    split at heq
    · next hempty =>
        have hnul : (0 : UInt8) ∉ pieces.flatten := heq ▸ hnot
        rw [(flatMap_ofCString_eq_iff pieces).mpr hnul] at hempty
        rw [hempty] at heq
        exact absurd heq (by decide)
    · next hne =>
        have hnul := (flatMap_ofCString_eq_iff pieces).mp heq
        exact ⟨heq ▸ hne, hnul⟩
  · rintro ⟨hne, hnul⟩
    rw [(flatMap_ofCString_eq_iff pieces).mpr hnul, if_neg hne]

theorem response_eq_iff_ls :
    Harmless (text "ls") ∧
      ((onCommand (fun _ => some (text "a\nb\n")) (text "ls")).1 = text "a\nb\n" ↔
        text "a\nb\n" ≠ [] ∧ (0 : UInt8) ∉ text "a\nb\n") := by
  have hharmless : Harmless (text "ls") := checkCommand_iff.mp (by decide)
  exact ⟨hharmless, response_eq_iff hharmless rfl⟩

end LinuxAdvance.Command
