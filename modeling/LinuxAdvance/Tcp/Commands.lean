import LinuxAdvance.Tcp.Service

/-!
# What the command server runs

`CheckCommand` looks at what one `read` brings, wherever the stream was cut.  So a
line may be run in pieces, but every piece is a part of what the client sent, and
none of the forbidden words is in any of them.
-/

namespace LinuxAdvance.Tcp

open LinuxAdvance.Foundation
open LinuxAdvance.Cxx
open LinuxAdvance.Command

namespace Talk

def popened (s : Talk) : List Bytes := s.handled.flatMap Command.popened

/-- What is still on its way up was sent last, and every text answered is a part of
what was sent. -/
structure Received (s : Talk) : Prop where
  up : s.up <:+ s.sent
  handled : ∀ buff ∈ s.handled, buff <:+: s.sent ∧ buff.length < buffSize ∧ (0 : UInt8) ∉ buff

theorem received_of_step {ω : Type} {answer : ω → Bytes → Bytes} (s : Talk) (e : TalkEvent ω)
    (t : Talk) (h : s.step answer e = some t) (hs : Received s) : Received t := by
  cases takes_of_step h with
  | @enter line _ =>
      obtain ⟨past, hpast⟩ := hs.up
      constructor
      · exact ⟨past, by simp [enter, ← hpast]⟩
      · intro buff hbuff
        obtain ⟨hpiece, hrest⟩ := hs.handled buff hbuff
        exact ⟨hpiece.trans (List.prefix_append _ _).isInfix, hrest⟩
  | recv _ _ _ => exact ⟨hs.up, hs.handled⟩
  | recvFails _ => exact ⟨hs.up, hs.handled⟩
  | hangUp => exact ⟨hs.up, hs.handled⟩
  | @read n outside _ _ _ hlt =>
      constructor
      · exact (List.drop_suffix n s.up).trans hs.up
      · intro buff hbuff
        rcases List.mem_append.mp hbuff with hold | hnew
        · exact hs.handled buff hold
        · obtain rfl := List.mem_singleton.mp hnew
          have hfront := prefix_ofCString (s.up.take n)
          refine ⟨?_, ?_, notMem_ofCString _⟩
          · exact (hfront.trans (List.take_prefix n s.up)).isInfix.trans hs.up.isInfix
          · have hle := hfront.length_le
            rw [List.length_take] at hle
            omega
  | write _ _ => exact ⟨hs.up, hs.handled⟩
  | eof _ _ => exact ⟨hs.up, hs.handled⟩

theorem commands_harmless {es : List (TalkEvent (Bytes → Option Bytes))} {s : Talk}
    (h : Transition.run (step executeAnswer) {} es = some s) {command : Bytes}
    (hcommand : command ∈ s.popened) :
    Harmless command ∧ (0 : UInt8) ∉ command ∧ command.length < buffSize ∧
      command <:+: s.sent := by
  have hreceived : Received s :=
    Transition.keeps received_of_step h ⟨List.suffix_refl _, by simp⟩
  obtain ⟨buff, hbuff, hmem⟩ := List.mem_flatMap.mp hcommand
  obtain ⟨hpiece, hlt, hnul⟩ := hreceived.handled buff hbuff
  obtain ⟨rfl, hharmless⟩ := Command.mem_popened hmem
  rw [ofCString_of_notMem hnul] at hharmless ⊢
  exact ⟨hharmless, hnul, hlt, hpiece⟩

theorem commands_harmless_cut :
    ∃ s, Transition.run (step executeAnswer) {}
        [.enter (text "rm x"), .read 1 (fun _ => none), .write 0, .read 3 (fun _ => none)] =
          some s ∧
      s.popened = [text "r", text "m x"] ∧ ¬ Harmless s.sent ∧ Harmless (text "m x") := by
  have hrun : Transition.run (step executeAnswer) {}
      [.enter (text "rm x"), .read 1 (fun _ => none), .write 0, .read 3 (fun _ => none)] =
        some _ := rfl
  refine ⟨_, hrun, rfl, ?_, (commands_harmless hrun ?_).1⟩
  · rw [← checkCommand_iff]
    decide
  · exact List.mem_of_getElem? (i := 1) rfl

end Talk

end LinuxAdvance.Tcp
