import LinuxAdvance.Calculator.Calculate
import LinuxAdvance.Serving

/-!
# The two calculator servers agree

With a codec that round-trips and one total `Execute` for both, the reactor and
the threaded server answer every stream of requests with the same frames.
-/

namespace LinuxAdvance

open LinuxAdvance.Foundation
open LinuxAdvance.Cxx
open LinuxAdvance.System
open LinuxAdvance.Calculator
open LinuxAdvance.Reactor

section Agreement

variable {build : Build} {execute : Request → Response}

def responseFrame (build : Build) (execute : Request → Response)
    (r : Request) : Bytes :=
  encode ((execute r).serialize build)

def Replies (build : Build) (execute : Request → Response) (m : Payload)
    (round : Round) : Prop :=
  ∃ r, Accepted (Request.deSerialize m.bytes build) r ∧
    round.frame = responseFrame build execute r

variable (execute) in
theorem serves_of_accepted {m : Payload} {r : Request}
    (haccepted : Accepted (Request.deSerialize m.bytes build) r) :
    Serves build (fun r => .ok (execute r)) (fun _ => True)
      (Replies build execute) m := by
  intro req _
  refine ⟨⟨m.bytes, r, responseFrame build execute r⟩, ⟨r, haccepted, rfl⟩,
    trivial, ?_⟩
  intro σ s
  exact answer_accepted haccepted rfl req s

theorem frames_of_replies {reqs : List Request} {payloads : List Payload}
    {rounds : List Round}
    (hcodec : ∀ r ∈ reqs, Accepted (Request.deSerialize (r.serialize build) build) r)
    (hpayloads : payloads.map Payload.bytes = reqs.map (·.serialize build))
    (h : List.Forall₂ (Replies build execute) payloads rounds) :
    rounds.map Round.frame = reqs.map (responseFrame build execute) := by
  induction h generalizing reqs with
  | nil =>
      have : reqs = [] := by simpa using hpayloads.symm
      simp [this]
  | cons hm hrest ih =>
      obtain ⟨r, haccepted, hframe⟩ := hm
      cases reqs with
      | nil => simp at hpayloads
      | cons r' reqs =>
          simp only [List.map_cons, List.cons.injEq] at hpayloads
          have hsame := haccepted r
          rw [hpayloads.1, hcodec r' (by simp) r] at hsame
          cases hsame
          simp [hframe, ih (fun q hq => hcodec q (by simp [hq])) hpayloads.2]

end Agreement

/--
For a stream of requests the codec can carry, cut in any way: whatever the
wake-ups of the reactor's connection and the results of `send`, what has been
sent followed by `_outbuffer` is the responses in order and `_inbuffer` is
empty; and the threaded server passes the same frames to `Send`, one for each
request, and has nothing left over when the client quits.
-/
theorem servers_agree (build : Build) (execute : Request → Response)
    (reqs : List Request)
    (hcodec : ∀ r ∈ reqs, Accepted (Request.deSerialize (r.serialize build) build) r)
    (hplain : ∀ r ∈ reqs, r.serialize build ≠ [] ∧
      (0 : UInt8) ∉ r.serialize build ∧ (encode (r.serialize build)).length < 2 ^ 31) :
    (∀ (fd : Fd) (wakes : List Wake), (∀ w ∈ wakes, Regular w) →
      wakes.flatMap wakeBytes = reqs.flatMap (fun r => encode (r.serialize build)) →
      ∃ s, (Session.runWakes build (fun r => .ok (execute r)) wakes).run
          (Session.opened fd) = .done () s ∧
        s.registered = true ∧ s.conn.inbuffer = [] ∧
        s.sentBytes ++ s.conn.outbuffer = reqs.flatMap (responseFrame build execute)) ∧
    ∀ chunks : List (Chunk × Request),
      chunks.flatMap (fun turn => turn.1.bytes) =
        reqs.flatMap (fun r => encode (r.serialize build)) →
      ∀ (last : RecvResult) (uninit : Request), (∀ chunk, last ≠ .data chunk) →
      ∃ c, (Conversation.addService build (fun r => .ok (execute r))
          (chunks.map (fun turn => (.data turn.1, turn.2)) ++ [(last, uninit)])).run {} =
            .done () c ∧
        c.recvmessage = [] ∧
        c.rounds.map Round.frame = reqs.map (responseFrame build execute) := by
  obtain ⟨payloads, hpayloads, hframes⟩ :=
    exists_payloads (reqs.map (·.serialize build)) (by
      simp only [List.mem_map]
      rintro m ⟨r, hr, rfl⟩
      exact ⟨(hplain r hr).1, (hplain r hr).2.2⟩)
  rw [List.flatMap_map] at hframes
  have hbehind : ∀ m ∈ payloads, ∃ r ∈ reqs, r.serialize build = m.bytes := by
    intro m hm
    have hmem : m.bytes ∈ reqs.map (·.serialize build) :=
      hpayloads ▸ List.mem_map_of_mem hm
    obtain ⟨r, hr, heq⟩ := List.mem_map.mp hmem
    exact ⟨r, hr, heq⟩
  have hserves : ∀ m ∈ payloads, Serves build (fun r => .ok (execute r))
      (fun _ => True) (Replies build execute) m := by
    intro m hm
    obtain ⟨r, hr, heq⟩ := hbehind m hm
    exact serves_of_accepted execute (r := r) (heq ▸ hcodec r hr)
  have hnul : (0 : UInt8) ∉ framing.frames payloads := by
    refine notMem_frames fun m hm => ?_
    obtain ⟨r, hr, heq⟩ := hbehind m hm
    exact heq ▸ (hplain r hr).2.1
  refine ⟨fun fd wakes hregular hbytes => ?_, fun chunks hbytes last uninit hlast => ?_⟩
  · have huninit : ∀ w ∈ wakes, UninitIn (fun _ => True) w := fun w _ => by
      cases w <;> trivial
    obtain ⟨s, hrun, hs⟩ := reactor_serves fd hserves hnul hregular huninit
      (hbytes.trans hframes.symm)
    refine ⟨s, hrun, hs.registered, hs.inbuffer, ?_⟩
    rw [hs.good.sound.ledger, Session.appendedBytes, List.flatMap_def,
      frames_of_replies hcodec hpayloads hs.served, List.flatMap_def]
  · obtain ⟨c, hrun, hmessage, hserved⟩ := service_serves (fun _ _ => trivial) hserves hnul
      (hbytes.trans hframes.symm)
    refine ⟨c, ?_, hmessage, frames_of_replies hcodec hpayloads hserved⟩
    rw [Conversation.addService_chunks hrun]
    cases last with
    | data chunk => exact absurd rfl (hlast chunk)
    | eof => rfl
    | fail e => rfl

/-- Two requests in three chunks, two wake-ups, an interrupted partial send. -/
theorem servers_agree_two_requests :
    let execute := fun r => (Calculate.execute r).toOption.getD {}
    let first : Chunk := ⟨text "5\r\n1 + ", by decide, by decide⟩
    let second : Chunk := ⟨text "2\r\n5\r\n7 /", by decide, by decide⟩
    let third : Chunk := ⟨text " 0\r\n", by decide, by decide⟩
    let wakes : List Wake :=
      [.read [.data first, .data second, .fail eagain]
        [.sent 3, .fail eintr, .fail eagain] ⟨0, 0, 0⟩,
      .write [.fail eagain],
      .read [.data third, .fail eagain] [.fail eagain] ⟨0, 0, 0⟩]
    let chunks : List (Chunk × Request) :=
      [(first, ⟨0, 0, 0⟩), (second, ⟨0, 0, 0⟩), (third, ⟨0, 0, 0⟩)]
    ∃ s c, s.sentBytes ++ s.conn.outbuffer = c.sentBytes ∧
      (Session.runWakes .self (fun r => .ok (execute r)) wakes).run
        (Session.opened 5) = .done () s ∧
      (Conversation.addService .self (fun r => .ok (execute r))
        (chunks.map (fun turn => (.data turn.1, turn.2)) ++
          [(.eof, ⟨0, 0, 0⟩)])).run {} = .done () c := by
  intro execute first second third wakes chunks
  have hcodec : ∀ r ∈ ([⟨1, 2, 43⟩, ⟨7, 0, 47⟩] : List Request),
      Accepted (Request.deSerialize (r.serialize .self) .self) r := by
    intro r hr
    simp only [List.mem_cons, List.not_mem_nil, or_false] at hr
    rcases hr with rfl | rfl
    · exact Request.accepted_of_run ⟨0, 0, 0⟩ (by decide)
    · exact Request.accepted_of_run ⟨0, 0, 0⟩ (by decide)
  have hregular : ∀ w ∈ wakes, Regular w := by
    intro w hw
    simp only [wakes, List.mem_cons, List.not_mem_nil, or_false] at hw
    rcases hw with rfl | rfl | rfl
    · refine ⟨⟨[.data first, .data second], rfl, ?_⟩, ?_⟩
      · simp [Session.Quiet]
      · simp [Session.Patient, Session.Retryable]
    · simp [Regular, Session.Patient, Session.Retryable]
    · refine ⟨⟨[.data third], rfl, ?_⟩, ?_⟩
      · simp [Session.Quiet]
      · simp [Session.Patient, Session.Retryable]
  obtain ⟨hreactor, hservice⟩ := servers_agree .self execute
    [⟨1, 2, 43⟩, ⟨7, 0, 47⟩] hcodec (by decide)
  obtain ⟨s, hrun, -, -, hsent⟩ := hreactor 5 wakes hregular (by decide)
  obtain ⟨c, hrun', -, hframes⟩ := hservice chunks (by decide) .eof ⟨0, 0, 0⟩ (by simp)
  refine ⟨s, c, ?_, hrun, hrun'⟩
  rw [hsent, Conversation.sentBytes, List.flatMap_def, List.flatMap_def, hframes]

end LinuxAdvance
