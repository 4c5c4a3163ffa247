import LinuxAdvance.Calculator.Drain

/-!
# Stream reassembly

The bare receiver: append a chunk to a buffer, call `decode` on it until it
returns the empty string.  However a stream of frames is cut, the receiver
delivers the payloads in order, each as soon as its frame is complete.
-/

namespace LinuxAdvance.Calculator

open LinuxAdvance.Foundation
open LinuxAdvance.Cxx

structure Receiver where
  buffer : Bytes
  delivered : List Bytes
  deriving DecidableEq, Repr

namespace Receiver

def getBuffer : Proc Fault Receiver Bytes := do
  let r ← Proc.get
  return r.buffer

def setBuffer (buffer : Bytes) : Proc Fault Receiver Unit :=
  Proc.modify fun r => { r with buffer }

def deliver (package : Bytes) (_ : Unit) : Proc Fault Receiver Unit :=
  Proc.modify fun r => { r with delivered := r.delivered ++ [package] }

def receive (chunk : Bytes) : Proc Fault Receiver Unit := do
  Proc.modify fun r => { r with buffer := r.buffer ++ chunk }
  drain getBuffer setBuffer deliver ()

def Holds (buffer : Bytes) (ms : List Payload) (r : Receiver) : Prop :=
  r = ⟨buffer, ms.map Payload.bytes⟩

theorem receive_frames {buffer chunk rest : Bytes} {before new : List Payload}
    {r : Receiver} (hr : Holds buffer before r)
    (hbytes : buffer ++ chunk = framing.frames new ++ rest)
    (hrest : framing.Short rest) :
    ∃ r', (receive chunk).run r = .done () r' ∧ Holds rest (before ++ new) r' := by
  subst hr
  rw [receive, Proc.run_modify_bind]
  dsimp only
  rw [hbytes]
  obtain ⟨_, r', hrun, hr'⟩ := drain_frames getBuffer setBuffer deliver
    (H := fun b ms (_ : Unit) r => Holds b ms r)
    (by rintro b ms _ r rfl; rfl)
    (by rintro b ms _ r rfl; rfl)
    new
    (by
      rintro m - tail ms _ r rfl
      exact ⟨(), _, rfl, by simp [Holds]⟩)
    (x := ()) hrest rfl
  exact ⟨r', hrun, hr'⟩

theorem receive_chunks (ms : List Payload) (chunks : List Bytes)
    (hchunks : chunks.flatten = framing.frames ms) (k : Nat) :
    ∃ r, (Proc.forEach receive (chunks.take k)).run ⟨[], []⟩ = .done () r ∧
      Holds (framing.remainder ms (chunks.take k).flatten.length)
        (framing.complete ms (chunks.take k).flatten.length) r := by
  have hsplit : (framing.frames ms).drop 0 =
      (chunks.take k).flatMap id ++ (chunks.drop k).flatten := by
    rw [List.flatMap_id, ← List.flatten_append, List.take_append_drop, hchunks]
    rfl
  have hstart : Holds (framing.remainder ms 0) (framing.complete ms 0) ⟨[], []⟩ := by
    rw [framing.remainder_zero, framing.complete_zero]
    rfl
  have h := framing.forEach_pieces receive id (H := Holds) ms (chunks.take k)
    (fun i _ buffer before new rest r hr hb hs _ => receive_frames hr hb hs)
    hsplit hstart
  simpa using h

end Receiver

open Receiver in
/--
Any cut of a stream of frames: at every moment the payloads delivered are a
prefix of the list, as many as there are frames within the bytes received so
far; nothing is thrown; at the end every payload has been delivered and the
buffer is empty.
-/
theorem stream_reassembly (ms : List Payload) (chunks : List Bytes)
    (hchunks : chunks.flatten = framing.frames ms) :
    (∀ k, ∃ r, (Proc.forEach receive (chunks.take k)).run ⟨[], []⟩ = .done () r ∧
      r.delivered <+: ms.map Payload.bytes ∧
      ∀ j, j ≤ r.delivered.length ↔
        j ≤ ms.length ∧
          (framing.frames (ms.take j)).length ≤ (chunks.take k).flatten.length) ∧
    (Proc.forEach receive chunks).run ⟨[], []⟩ =
      .done () ⟨[], ms.map Payload.bytes⟩ := by
  refine ⟨fun k => ?_, ?_⟩
  · obtain ⟨r, hrun, hholds⟩ := receive_chunks ms chunks hchunks k
    refine ⟨r, hrun, ?_, fun j => ?_⟩
    · rw [hholds]
      exact (framing.complete_prefix ms _).map _
    · rw [hholds, List.length_map]
      exact framing.le_length_complete_iff ms _ j
  · obtain ⟨r, hr, hholds⟩ := receive_chunks ms chunks hchunks chunks.length
    rw [List.take_length] at hr hholds
    have hlen : (framing.frames ms).length ≤ chunks.flatten.length :=
      le_of_eq (by rw [hchunks])
    rw [hr, hholds, framing.remainder_eq_nil_of_le ms hlen,
      (framing.complete_eq_self_iff ms _).mpr hlen]

/-- A payload that is itself a frame, cut inside its own separators. -/
theorem stream_reassembly_nested :
    let m : Payload := ⟨text "5\r\n1 + 1\r\n", by decide, by decide⟩
    (Proc.forEach Receiver.receive
      [text "10\r", text "\n5\r\n1 +", text " 1\r\n\r", text "\n"]).run ⟨[], []⟩ =
        .done () ⟨[], [m.bytes]⟩ :=
  (stream_reassembly [⟨text "5\r\n1 + 1\r\n", by decide, by decide⟩]
    [text "10\r", text "\n5\r\n1 +", text " 1\r\n\r", text "\n"] (by decide)).2

end LinuxAdvance.Calculator
