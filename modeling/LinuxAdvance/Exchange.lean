import LinuxAdvance.Calculator.Client
import LinuxAdvance.Calculator.TextCodec
import LinuxAdvance.Foundation.Transition
import LinuxAdvance.Serving

/-!
# The calculator client and its server

One connection between `Connection::Process` and `Service::AddService`, each in a
process of its own, with a stream in either direction.  The client draws a request,
sends it and waits in `Recv`; the server takes what there is, in whatever pieces.
`Send` may take less than it is given, and nobody looks at what it returns.  A
party that throws is gone.
-/

namespace LinuxAdvance

open LinuxAdvance.Foundation
open LinuxAdvance.Cxx
open LinuxAdvance.System
open LinuxAdvance.Calculator

def drawn (rand : Nat × Nat × Nat) : Request :=
  CalFactory.product rand.1 rand.2.1 rand.2.2

/-- `draws` are the requests asked so far, and `turn` is the one whose answer the
client waits for.  `up` and `down` are on their way to the server and back. -/
structure Exchange where
  draws : List (Nat × Nat × Nat) := []
  turn : Option (Nat × Nat × Nat) := none
  client : Client := {}
  running : Bool := true
  up : Bytes := []
  server : Conversation := {}
  serving : Bool := true
  down : Bytes := []
  deriving DecidableEq, Repr

/-- The numbers are what `Send` and `Recv` take; `uninit` is what the `Request` of
`AddService` holds before it is assigned. -/
inductive ExchangeEvent where
  | ask (rand : Nat × Nat × Nat) (room : Nat)
  | serve (n : Nat) (uninit : Request) (rooms : List Nat)
  | take (n : Nat)
  deriving DecidableEq, Repr

def recvChunk? (stream : Bytes) (n : Nat) : Option Chunk :=
  if h : (0 < n ∧ n ≤ stream.length) ∧ n ≤ 1023 then
    some {
      bytes := stream.take n
      nonempty := by
        rw [← List.length_pos_iff, List.length_take]
        omega
      fits := by
        rw [List.length_take]
        omega }
  else none

def sendAll : List Bytes → List Nat → Bytes
  | frame :: frames, room :: rooms =>
      frame.take (sendCount room frame.length) ++ sendAll frames rooms
  | _, _ => []

def newFrames (before after : Conversation) : List Bytes :=
  (after.rounds.drop before.rounds.length).map Round.frame

namespace Exchange

section Steps

variable (build : Build)

def ask (s : Exchange) (rand : Nat × Nat × Nat) (room : Nat) : Exchange :=
  let message := encode ((drawn rand).serialize build)
  { s with
    draws := s.draws ++ [rand]
    turn := some rand
    up := s.up ++ message.take (sendCount room message.length) }

def serve (s : Exchange) (n : Nat) (chunk : Chunk) (uninit : Request)
    (rooms : List Nat) : Exchange :=
  let outcome :=
    (Conversation.serveChunk build Calculate.execute (chunk, uninit)).run s.server
  { s with
    up := s.up.drop n
    server := outcome.state
    serving := outcome.isDone
    down := s.down ++ sendAll (newFrames s.server outcome.state) rooms }

/-- The rest of the client's turn, which began with `ask`. -/
def take (s : Exchange) (rand : Nat × Nat × Nat) (n : Nat) (chunk : Chunk) : Exchange :=
  let outcome := (Client.turnBody build rand chunk).run s.client
  { s with
    turn := none
    client := outcome.state
    running := outcome.isDone
    down := s.down.drop n }

def step (s : Exchange) : ExchangeEvent → Option Exchange
  | .ask rand room =>
      if s.running = true ∧ s.turn = none then some (s.ask build rand room) else none
  | .serve n uninit rooms =>
      match recvChunk? s.up n with
      | none => none
      | some chunk =>
          let t := s.serve build n chunk uninit rooms
          if s.serving = true ∧ rooms.length = (newFrames s.server t.server).length then
            some t
          else none
  | .take n =>
      match s.turn, recvChunk? s.down n with
      | some rand, some chunk => some (s.take build rand n chunk)
      | _, _ => none

/-- A step from `s` to `t` in which `Send` took all it was given, or the client's
`Recv` all that was there. -/
def Whole (s t : Exchange) : ExchangeEvent → Prop
  | .ask rand _ => t.up = s.up ++ encode ((drawn rand).serialize build)
  | .serve _ _ _ => t.down = s.down ++ (newFrames s.server t.server).flatten
  | .take _ => t.down = []

instance (s t : Exchange) (e : ExchangeEvent) : Decidable (Whole build s t e) := by
  cases e <;> unfold Whole <;> infer_instance

def wholeStep (s : Exchange) (e : ExchangeEvent) : Option Exchange :=
  (s.step build e).bind fun t => if Whole build s t e then some t else none

inductive Takes (s : Exchange) : ExchangeEvent → Exchange → Prop
  | ask {rand : Nat × Nat × Nat} {room : Nat} (hrunning : s.running = true)
      (hturn : s.turn = none) : Takes s (.ask rand room) (s.ask build rand room)
  | serve {n : Nat} {uninit : Request} {rooms : List Nat} {chunk : Chunk}
      (hserving : s.serving = true) (hpos : 0 < n) (hle : n ≤ s.up.length)
      (hchunk : chunk.bytes = s.up.take n)
      (hrooms : rooms.length =
        (newFrames s.server (s.serve build n chunk uninit rooms).server).length) :
      Takes s (.serve n uninit rooms) (s.serve build n chunk uninit rooms)
  | take {rand : Nat × Nat × Nat} {n : Nat} {chunk : Chunk} (hturn : s.turn = some rand)
      (hpos : 0 < n) (hle : n ≤ s.down.length) (hchunk : chunk.bytes = s.down.take n) :
      Takes s (.take n) (s.take build rand n chunk)

end Steps

variable {build : Build} {s t : Exchange} {e : ExchangeEvent}

theorem recvChunk?_eq_some {stream : Bytes} {n : Nat} {chunk : Chunk}
    (h : recvChunk? stream n = some chunk) :
    (0 < n ∧ n ≤ stream.length) ∧ chunk.bytes = stream.take n := by
  simp only [recvChunk?, Option.dite_none_right_eq_some, Option.some.injEq] at h
  obtain ⟨hn, rfl⟩ := h
  exact ⟨hn.1, rfl⟩

theorem exists_recvChunk? {stream : Bytes} {n : Nat} (hpos : 0 < n) (hle : n ≤ stream.length)
    (hfits : n ≤ 1023) :
    ∃ chunk, recvChunk? stream n = some chunk ∧ chunk.bytes = stream.take n := by
  rw [recvChunk?, dif_pos ⟨⟨hpos, hle⟩, hfits⟩]
  exact ⟨_, rfl, rfl⟩

theorem takes_of_step (h : s.step build e = some t) : Takes build s e t := by
  cases e with
  | ask rand room =>
      simp only [step, Option.ite_none_right_eq_some, Option.some.injEq] at h
      obtain ⟨⟨hrunning, hturn⟩, rfl⟩ := h
      exact .ask hrunning hturn
  | serve n uninit rooms =>
      simp only [step] at h
      split at h
      · cases h
      · next chunk hchunk =>
          simp only [Option.ite_none_right_eq_some, Option.some.injEq] at h
          obtain ⟨⟨hserving, hrooms⟩, rfl⟩ := h
          obtain ⟨hn, hbytes⟩ := recvChunk?_eq_some hchunk
          exact .serve hserving hn.1 hn.2 hbytes hrooms
  | take n =>
      simp only [step] at h
      split at h
      · next rand chunk hturn hchunk =>
          obtain rfl := Option.some.inj h
          obtain ⟨hn, hbytes⟩ := recvChunk?_eq_some hchunk
          exact .take hturn hn.1 hn.2 hbytes
      · cases h

theorem wholeStep_eq_some :
    s.wholeStep build e = some t ↔ s.step build e = some t ∧ Whole build s t e := by
  simp only [wholeStep, Option.bind_eq_some_iff, Option.ite_none_right_eq_some,
    Option.some.injEq]
  constructor
  · rintro ⟨u, hstep, hwhole, rfl⟩
    exact ⟨hstep, hwhole⟩
  · rintro ⟨hstep, hwhole⟩
    exact ⟨t, hstep, hwhole, rfl⟩

end Exchange

/-! ## The codec -/

structure Survives {τ : Type} (deSerialize : Bytes → Proc Fault τ Bool) (message : Bytes)
    (value : τ) : Prop where
  accepted : Accepted (deSerialize message) value
  nonempty : message ≠ []
  nulFree : (0 : UInt8) ∉ message
  fits : (encode message).length ≤ 1023

namespace Survives

variable {τ : Type} {deSerialize : Bytes → Proc Fault τ Bool} {message : Bytes} {value : τ}

def payload (h : Survives deSerialize message value) : Payload where
  bytes := message
  nonempty := h.nonempty
  fits := by
    have := h.fits
    omega

theorem nul_notMem_encode (h : Survives deSerialize message value) :
    (0 : UInt8) ∉ encode message := by
  have hframes : (0 : UInt8) ∉ framing.frames [h.payload] := by
    refine notMem_frames fun m hm => ?_
    rw [List.mem_singleton.mp hm]
    exact h.nulFree
  simpa [payload] using hframes

end Survives

/-- What the exchange needs of the codec: the requests the client draws and the
responses to them survive it. -/
structure Codec (build : Build) : Prop where
  request : ∀ rand,
    Survives (Request.deSerialize · build) ((drawn rand).serialize build) (drawn rand)
  response : ∀ rand resp, Calculate.execute (drawn rand) = .ok resp →
    Survives (Response.deSerialize · build) (resp.serialize build) resp

theorem execute_drawn (rand : Nat × Nat × Nat) :
    ∃ resp, Calculate.execute (drawn rand) = .ok resp := by
  have hx : (drawn rand).x.toInt = (rand.1 &&& 6 : Nat) :=
    Int32.toInt_ofNat_of_lt (Nat.lt_of_le_of_lt Nat.and_le_right (by decide))
  have hy : (drawn rand).y.toInt = (rand.2.1 % 10 + 5 : Nat) :=
    Int32.toInt_ofNat_of_lt (by omega)
  have hle : (rand.1 &&& 6 : Nat) ≤ 6 := Nat.and_le_right
  have hlt : rand.2.1 % 10 < 10 := Nat.mod_lt _ (by decide)
  rw [Calculate.execute_returns_iff]
  constructor
  · intro _
    rw [hx, hy]
    omega
  · intro _
    rw [hx, hy]
    omega
  · intro _
    rw [hx, hy]
    have hmul : (rand.1 &&& 6) * (rand.2.1 % 10 + 5) ≤ 6 * 14 :=
      Nat.mul_le_mul hle (by omega)
    omega
  · intro _
    rw [hx]
    omega

theorem nul_notMem_intToString (i : Int) : (0 : UInt8) ∉ intToString i := by
  intro h
  rcases mem_intToString h with h | h <;> revert h <;> decide

theorem oper_drawn_ne_nul (rand : Nat × Nat × Nat) : (drawn rand).oper ≠ 0 := by
  have hlt : rand.2.2 % CalFactory.opers.length < CalFactory.opers.length :=
    Nat.mod_lt _ (by decide)
  have hmem : (drawn rand).oper ∈ CalFactory.opers := by
    change CalFactory.opers.getD _ 0 ∈ _
    rw [List.getD_eq_getElem _ _ hlt]
    exact List.getElem_mem hlt
  intro hnul
  rw [hnul] at hmem
  revert hmem
  decide

theorem codec_self : Codec .self where
  request rand := by
    have hlen := Request.length_serialize_le (drawn rand)
    have hframe := length_encode_le ((drawn rand).serialize .self)
    refine ⟨Request.accepted_serialize _, ?_, ?_, by omega⟩
    · simp [Request.serialize, calSep_eq]
    · have hoper := oper_drawn_ne_nul rand
      simp [Request.serialize, calSep_eq, nul_notMem_intToString, Ne.symm hoper]
  response rand resp hexecute := by
    obtain ⟨hflag, hequation, hshort⟩ := Calculate.execute_small hexecute
    have hlen := Response.length_serialize_le resp
    have hframe := length_encode_le (resp.serialize .self)
    refine ⟨Response.accepted_serialize hflag hequation (by omega),
      Response.serialize_ne_nil resp, ?_, by omega⟩
    have hnul : (0 : UInt8) ∉ resp.equation := by
      have hoper := oper_drawn_ne_nul rand
      rcases Calculate.execute_cases hexecute with ⟨v, -, -, -, htext⟩ | ⟨-, -, rfl⟩ |
        ⟨-, -, rfl⟩ | ⟨-, rfl⟩
      · have hblank : (0 : UInt8) ∉ text " " := by decide
        have hequals : (0 : UInt8) ∉ text " = " := by decide
        simp [htext, Calculate.equationOf, nul_notMem_intToString, Ne.symm hoper, hblank,
          hequals]
      all_goals decide
    simp [Response.serialize, calSep_eq, nul_notMem_intToString, hnul]

end LinuxAdvance
