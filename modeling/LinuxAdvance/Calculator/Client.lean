import LinuxAdvance.Calculator.Calculate
import LinuxAdvance.Calculator.Drain
import LinuxAdvance.System.Socket

/-!
# The calculator client: `Connection::Process`

A turn is one round of the outer loop: the random numbers `CalFactory` draws,
and the results of `Send` and `Recv`.  `recvmessage` is declared inside the
outer loop, so every turn starts with an empty one; what a turn leaves in it is
gone with the next.
-/

namespace LinuxAdvance.Calculator

open LinuxAdvance.Foundation
open LinuxAdvance.Cxx
open LinuxAdvance.System

inductive Status where
  | new
  | connected
  | connecting
  | disconnected
  | close
  deriving DecidableEq, Repr

namespace CalFactory

def opers : Bytes := text "+-*/%&^"

/-- `rand() & 5 + 1` is `rand() & 6`. -/
def product (rand₁ rand₂ rand₃ : Nat) : Request where
  x := Int32.ofNat (rand₁ &&& (5 + 1))
  y := Int32.ofNat (rand₂ % 10 + 5)
  oper := opers.getD (rand₃ % opers.length) 0

end CalFactory

structure Turn where
  rand : Nat × Nat × Nat
  send : SendResult
  recv : RecvResult
  deriving DecidableEq, Repr

/-- `responses` are the `Response` objects as they are printed, `requests` the
arguments of `Send`. -/
structure Client where
  status : Status := .connected
  recvmessage : Bytes := []
  requests : List Bytes := []
  responses : List Response := []
  deriving DecidableEq, Repr

namespace Client

def getMessage : Proc Fault Client Bytes := do
  let c ← Proc.get
  return c.recvmessage

def setMessage (recvmessage : Bytes) : Proc Fault Client Unit :=
  Proc.modify fun c => { c with recvmessage }

def setStatus (status : Status) : Proc Fault Client Unit :=
  Proc.modify fun c => { c with status }

section Process

variable (build : Build)

/-- What `DeSerialize` returns is not looked at. -/
def echoBody (package : Bytes) (_ : Unit) : Proc Fault Client Unit := do
  let (_, resp) ← Proc.onLocal (Response.deSerialize package build) {}
  Proc.modify fun c => { c with responses := c.responses ++ [resp] }

def sendRequest (rand : Nat × Nat × Nat) : Proc Fault Client Unit :=
  Proc.modify fun c =>
    let req := CalFactory.product rand.1 rand.2.1 rand.2.2
    { c with requests := c.requests ++ [encode (req.serialize build)] }

def turnBody (rand : Nat × Nat × Nat) (chunk : Chunk) : Proc Fault Client Unit := do
  sendRequest build rand
  setMessage (ofCString chunk.bytes)
  drain getMessage setMessage (echoBody build) ()

def process : List Turn → Proc Fault Client Unit
  | [] => Proc.block
  | ⟨rand, .sent _, .data chunk⟩ :: turns => do
      turnBody build rand chunk
      process turns
  | ⟨rand, .sent _, _⟩ :: _ => do
      sendRequest build rand
      setStatus .disconnected
  | ⟨rand, .fail _, _⟩ :: _ => do
      sendRequest build rand
      setStatus .close

variable {build}

theorem process_append {turns : List ((Nat × Nat × Nat) × Nat × Chunk)}
    {c c' : Client}
    (h : (Proc.forEach (fun turn => turnBody build turn.1 turn.2.2) turns).run c =
      .done () c') (rest : List Turn) :
    (process build
      (turns.map (fun turn => ⟨turn.1, .sent turn.2.1, .data turn.2.2⟩) ++ rest)).run c =
        (process build rest).run c' := by
  induction turns generalizing c with
  | nil =>
      cases h
      rfl
  | cons turn turns ih =>
      rw [Proc.forEach_cons, Proc.run_bind_eq_done] at h
      obtain ⟨_, c₁, hturn, hturns⟩ := h
      rw [List.map_cons, List.cons_append, process, Proc.run_bind_done hturn]
      exact ih hturns

theorem echoBody_accepted {package : Bytes} {resp : Response}
    (h : Accepted (Response.deSerialize package build) resp) (c : Client) :
    (echoBody build package ()).run c =
      .done () { c with responses := c.responses ++ [resp] } := by
  rw [echoBody, Proc.run_bind_done (Proc.run_onLocal_done (h {}) c)]
  rfl

def Carries (build : Build) (m : Payload) (resp : Response) : Prop :=
  Accepted (Response.deSerialize m.bytes build) resp

/-- One turn on a chunk that starts with a frame: the responses of its complete
frames are decoded, what is behind them is not looked at again. -/
theorem turnBody_frames {new : List Payload} {rest : Bytes}
    {before : List Payload} {chunk : Chunk} {c : Client}
    (hcarries : ∀ m ∈ new, ∃ resp, Carries build m resp)
    (hbefore : List.Forall₂ (Carries build) before c.responses)
    (hnul : (0 : UInt8) ∉ chunk.bytes)
    (hbytes : chunk.bytes = framing.frames new ++ rest)
    (hrest : framing.Short rest) (rand : Nat × Nat × Nat) :
    ∃ c', (turnBody build rand chunk).run c = .done () c' ∧
      List.Forall₂ (Carries build) (before ++ new) c'.responses := by
  let H : Bytes → List Payload → Unit → Client → Prop := fun b done _ t =>
    t.recvmessage = b ∧ List.Forall₂ (Carries build) done t.responses
  have hstart : H (framing.frames new ++ rest) before ()
      { c with
        requests := c.requests ++
          [encode ((CalFactory.product rand.1 rand.2.1 rand.2.2).serialize build)]
        recvmessage := ofCString chunk.bytes } := by
    refine ⟨?_, hbefore⟩
    rw [ofCString_of_notMem hnul]
    exact hbytes
  obtain ⟨_, c', hdrain, -, hresponses⟩ := drain_frames getMessage setMessage
    (echoBody build) (H := H)
    (by
      rintro b done x t ⟨rfl, -⟩
      rfl)
    (by
      rintro b done x t ⟨rfl, -⟩
      rfl)
    new
    (by
      rintro m hm tail done x t ⟨hb, hdone⟩
      obtain ⟨resp, hresp⟩ := hcarries m hm
      refine ⟨(), _, echoBody_accepted hresp _, rfl, ?_⟩
      exact List.rel_append hdone (.cons hresp .nil))
    hrest hstart
  exact ⟨c', hdrain, hresponses⟩

theorem turns_frames {ms : List Payload}
    (hcarries : ∀ m ∈ ms, ∃ resp, Carries build m resp)
    (hnul : (0 : UInt8) ∉ framing.frames ms)
    {turns : List ((Nat × Nat × Nat) × Nat × Chunk)} {n : Nat} {later : Bytes}
    {c : Client}
    (hpieces : (framing.frames ms).drop n =
      turns.flatMap (fun turn => turn.2.2.bytes) ++ later)
    (hboundary : ∀ j < turns.length, framing.remainder ms
      (n + ((turns.take j).flatMap (fun turn => turn.2.2.bytes)).length) = [])
    (hbefore : List.Forall₂ (Carries build) (framing.complete ms n) c.responses) :
    ∃ c', (Proc.forEach (fun turn => turnBody build turn.1 turn.2.2) turns).run c =
        .done () c' ∧
      List.Forall₂ (Carries build)
        (framing.complete ms (n + (turns.flatMap fun turn => turn.2.2.bytes).length))
        c'.responses := by
  induction turns generalizing n c with
  | nil => exact ⟨c, rfl, by simpa using hbefore⟩
  | cons turn turns ih =>
      obtain ⟨rand, room, chunk⟩ := turn
      rw [List.flatMap_cons, List.append_assoc] at hpieces
      have hstart : framing.remainder ms n = [] := by
        have := hboundary 0 (by simp)
        simpa using this
      obtain ⟨new, hcomplete, hnew⟩ :=
        framing.remainder_append ms n chunk.bytes.length
      rw [hstart, List.nil_append, hpieces, List.take_left] at hnew
      have hpre : framing.complete ms n ++ new <+: ms :=
        hcomplete ▸ framing.complete_prefix ms _
      have hnulChunk : (0 : UInt8) ∉ chunk.bytes := by
        intro h0
        refine hnul (List.mem_of_mem_drop (i := n) ?_)
        rw [hpieces]
        exact List.mem_append_left _ h0
      obtain ⟨c₁, hrun, hresponses⟩ := turnBody_frames
        (fun m hm => hcarries m (hpre.subset (List.mem_append_right _ hm)))
        hbefore hnulChunk hnew (framing.remainder_short ms _) rand
      rw [← hcomplete] at hresponses
      have hdrop : (framing.frames ms).drop (n + chunk.bytes.length) =
          turns.flatMap (fun turn => turn.2.2.bytes) ++ later := by
        rw [← List.drop_drop, hpieces, List.drop_left]
      obtain ⟨c', hruns, hall⟩ := ih hdrop
        (fun j hj => by
          have := hboundary (j + 1) (by simpa using hj)
          simpa [Nat.add_assoc] using this)
        hresponses
      refine ⟨c', ?_, ?_⟩
      · rw [Proc.forEach_cons, Proc.run_bind_done hrun, hruns]
      · simpa [Nat.add_assoc] using hall

theorem carries_rightUnique (build : Build) : Relator.RightUnique (Carries build) := by
  intro m resp resp' h h'
  have hsame := (h {}).symm.trans (h' {})
  exact (Outcome.done.inj hsame).2

end Process

end Client

open Client in
/--
Runs in which every `Recv` but the last ends where a frame ends, on a stream
without NUL: after any number of turns, whatever follows, the responses decoded
are the first ones of the list, as many as there are frames within the bytes
received, and nothing has been thrown.
-/
theorem client_reassembly (build : Build) (ms : List Payload)
    (resps : List Response) (hresps : List.Forall₂ (Carries build) ms resps)
    (turns : List ((Nat × Nat × Nat) × Nat × Chunk))
    (hnul : (0 : UInt8) ∉ framing.frames ms)
    (hstream : turns.flatMap (fun turn => turn.2.2.bytes) <+: framing.frames ms)
    (hboundary : ∀ j < turns.length, ∃ i,
      (turns.take j).flatMap (fun turn => turn.2.2.bytes) =
        framing.frames (ms.take i))
    (k : Nat) :
    ∃ c : Client,
      (∀ rest : List Turn, (process build
        ((turns.take k).map (fun turn => ⟨turn.1, .sent turn.2.1, .data turn.2.2⟩) ++
          rest)).run {} = (process build rest).run c) ∧
      c.responses <+: resps ∧
      ∀ j, j ≤ c.responses.length ↔ j ≤ ms.length ∧
        (framing.frames (ms.take j)).length ≤
          ((turns.take k).flatMap fun turn => turn.2.2.bytes).length := by
  have hcarries : ∀ m ∈ ms, ∃ resp, Carries build m resp := by
    intro m hm
    obtain ⟨i, hi, rfl⟩ := List.getElem_of_mem hm
    have hlen := hresps.length_eq
    exact ⟨resps[i], (List.forall₂_iff_get.mp hresps).2 i hi (by omega)⟩
  obtain ⟨later, hlater⟩ := hstream
  have hpieces : (framing.frames ms).drop 0 =
      (turns.take k).flatMap (fun turn => turn.2.2.bytes) ++
        ((turns.drop k).flatMap (fun turn => turn.2.2.bytes) ++ later) := by
    rw [← List.append_assoc, ← List.flatMap_append, List.take_append_drop, hlater]
    rfl
  obtain ⟨c, hrun, hresponses⟩ := turns_frames (c := {}) hcarries hnul hpieces
    (fun j hj => by
      rw [List.length_take] at hj
      obtain ⟨i, hi⟩ := hboundary j (by omega)
      rw [List.take_take, Nat.min_eq_left (by omega), hi, Nat.zero_add]
      exact framing.remainder_boundary ms i)
    (by
      rw [framing.complete_zero]
      exact .nil)
  rw [Nat.zero_add] at hresponses
  refine ⟨c, process_append hrun, ?_, fun j => ?_⟩
  · have htake := List.forall₂_take
      (framing.complete ms ((turns.take k).flatMap fun turn => turn.2.2.bytes).length).length
      hresps
    rw [← List.prefix_iff_eq_take.mp (framing.complete_prefix ms _)] at htake
    rw [List.right_unique_forall₂' (carries_rightUnique build) hresponses htake]
    exact List.take_prefix _ _
  · rw [← hresponses.length_eq]
    exact framing.le_length_complete_iff ms _ j

def firstHalf : Chunk := ⟨text "13\r\n2 0 1 +", by decide, by decide⟩

def secondHalf : Chunk := ⟨text " 1 = 2\r\n", by decide, by decide⟩

theorem client_reassembly_whole :
    ∃ c : Client, c.responses <+: [⟨2, 0, text "1 + 1 = 2"⟩, ⟨2, 0, text "1 + 1 = 2"⟩] ∧
      1 ≤ c.responses.length := by
  have haccepted : Accepted (Response.deSerialize (text "2 0 1 + 1 = 2") .self)
      ⟨2, 0, text "1 + 1 = 2"⟩ := fun _ => rfl
  let m : Payload := ⟨text "2 0 1 + 1 = 2", by decide, by decide⟩
  let whole : Chunk := ⟨encode m.bytes, by decide, by decide⟩
  obtain ⟨c, -, hprefix, hcount⟩ := client_reassembly .self [m, m]
    [⟨2, 0, text "1 + 1 = 2"⟩, ⟨2, 0, text "1 + 1 = 2"⟩]
    (.cons haccepted (.cons haccepted .nil))
    [((1, 2, 3), 20, whole), ((1, 2, 3), 20, firstHalf)] (by decide) (by decide)
    (by
      intro j hj
      have : j = 0 ∨ j = 1 := by
        simp only [List.length_cons, List.length_nil] at hj
        omega
      rcases this with rfl | rfl
      · exact ⟨0, rfl⟩
      · exact ⟨1, by decide⟩)
    2
  exact ⟨c, hprefix, (hcount 1).mpr (by decide)⟩

/-- Both halves have been received, and no response has been decoded. -/
theorem split_reply_lost :
    ¬ ∀ (turns : List Turn) (c : Client),
      (Client.process .self turns).run {} = .blocked c →
      ∀ m : Payload, ∀ resp, Client.Carries .self m resp →
        turns.flatMap (fun turn => turn.recv.bytes) = encode m.bytes →
        c.responses = [resp] := by
  intro h
  have hlost := h [⟨(1, 2, 3), .sent 20, .data firstHalf⟩,
      ⟨(1, 2, 3), .sent 20, .data secondHalf⟩]
    ((Client.process .self [⟨(1, 2, 3), .sent 20, .data firstHalf⟩,
      ⟨(1, 2, 3), .sent 20, .data secondHalf⟩]).run {}).state (by decide)
    ⟨text "2 0 1 + 1 = 2", by decide, by decide⟩ ⟨2, 0, text "1 + 1 = 2"⟩
    (fun _ => rfl) (by decide)
  revert hlost
  decide

end LinuxAdvance.Calculator
