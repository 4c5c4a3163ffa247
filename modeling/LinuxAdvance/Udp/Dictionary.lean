import LinuxAdvance.Udp.Answers

/-!
# Talking to the dictionary

The dictionary server reads its file again for every message.  While the file is
one that was written entry by entry, every word is answered with the meaning of
its last entry.
-/

namespace LinuxAdvance.Udp

open LinuxAdvance.Foundation
open LinuxAdvance.Cxx
open LinuxAdvance.Chat

def wordNotFound : Bytes := text "单词没找到"

theorem DictServer.onMessage_eq (lookup : DictLookup) (buff : Bytes) :
    DictServer.onMessage lookup buff = (Dict.meaning lookup.file buff).getD wordNotFound := by
  simp only [DictServer.onMessage, Dict.translate_eq]
  cases Dict.meaning lookup.file buff <;> rfl

/-- Readings of one and the same file. -/
abbrev LookupIn (file : Bytes) : Type := { lookup : DictLookup // lookup.file = some file }

def DictServer.onMessageIn (file : Bytes) : OnMessage (LookupIn file) := fun lookup buff =>
  DictServer.onMessage lookup.1 buff

/-- What is printed after a word has been entered. -/
def Translates (es : List (Bytes × Bytes)) (line : Bytes) (out : Option Bytes) : Prop :=
  out = shown ((lastValue (ofCString line) es).getD wordNotFound)

theorem translates_of_prints {es : List (Bytes × Bytes)} (hes : ∀ e ∈ es, Dict.Writable e)
    {line : Bytes} {out : Option Bytes}
    (h : Prints (DictServer.onMessageIn (es.flatMap Dict.writeLine)) line out) :
    Translates es line out := by
  obtain ⟨-, -, ⟨lookup, hfile⟩, rfl⟩ := h
  have hmeaning : Dict.meaning lookup.file (ofCString line) = lastValue (ofCString line) es := by
    rw [hfile, Dict.meaning, Option.bind_some, Dict.entries_flatMap hes]
  rw [DictServer.onMessageIn, DictServer.onMessage_eq, hmeaning, Translates]

namespace Conversation

open Chat.UdpServer (alice)

theorem words_translated {es : List (Bytes × Bytes)} (hes : ∀ e ∈ es, Dict.Writable e)
    {events : List (Event (LookupIn (es.flatMap Dict.writeLine)))}
    (hsteady : ∀ e ∈ events, e.Steady) {s : Conversation}
    (h : Transition.run (step (DictServer.onMessageIn (es.flatMap Dict.writeLine))) {} events =
      some s)
    (peer : SockaddrIn) :
    ∃ past last, (s.clients peer).entered = past ++ last ∧ last.length ≤ 1 ∧
      List.Forall₂ (Translates es) past (s.clients peer).printed := by
  obtain ⟨past, last, hin⟩ := inStep_of_start hsteady h peer
  exact ⟨past, last, hin.asked, hin.one,
    (printed_of_inStep hin).imp fun _ _ => translates_of_prints hes⟩

def cats : List (Bytes × Bytes) :=
  [(text "cat", text "Katze"), (text "dog", text "Hund"), (text "cat", text "Kater")]

def insertionOrder {κ υ : Type} (m : UnorderedMap κ υ) : UnorderedMap.Order m :=
  ⟨_, .refl _⟩

theorem words_translated_cat :
    ∃ s, Transition.run (step (DictServer.onMessageIn (cats.flatMap Dict.writeLine))) {}
        [.enter alice (text "cat"),
          .serve ⟨alice, text "cat"⟩ ⟨⟨some _, insertionOrder⟩, rfl⟩,
          .receive ⟨alice, text "Kater"⟩] = some s ∧
      ∃ past last, (s.clients alice).entered = past ++ last ∧ last.length ≤ 1 ∧
        List.Forall₂ (Translates cats) past (s.clients alice).printed := by
  have hwritable : ∀ e ∈ cats, Dict.Writable e := by
    simp only [cats, List.forall_mem_cons]
    exact ⟨⟨by decide, by decide, by decide⟩, ⟨by decide, by decide, by decide⟩,
      ⟨by decide, by decide, by decide⟩, by simp⟩
  have hrun : Transition.run (step (DictServer.onMessageIn (cats.flatMap Dict.writeLine))) {}
      [.enter alice (text "cat"),
        .serve ⟨alice, text "cat"⟩ ⟨⟨some _, insertionOrder⟩, rfl⟩,
        .receive ⟨alice, text "Kater"⟩] = some _ := rfl
  exact ⟨_, hrun, words_translated hwritable (by simp [Event.Steady]) hrun alice⟩

end Conversation

end LinuxAdvance.Udp
