import LinuxAdvance.Calculator.Client
import LinuxAdvance.Reactor.Stream
import LinuxAdvance.Termination

/-!
# What reaches the buffer of the bytes received

Each chunk goes through an array that is read as a C string, in the loop of
`HandlerRecv` and in `TcpSocket::Recv` alike, so a byte of zero hides what its
chunk holds behind it.
-/

namespace LinuxAdvance

open LinuxAdvance.Foundation
open LinuxAdvance.Cxx
open LinuxAdvance.System
open LinuxAdvance.Calculator
open LinuxAdvance.Reactor

/-- `TcpSocket::Recv(out)`: what it returns, and `*out` behind it. -/
def recv (result : RecvResult) (out : Bytes) : Int × Bytes :=
  match result with
  | .data chunk => (chunk.bytes.length, out ++ ofCString chunk.bytes)
  | .eof => (0, out)
  | .fail _ => (-1, out)

def recvAll (results : List RecvResult) (out : Bytes) : Bytes :=
  results.foldl (fun out result => (recv result out).2) out

theorem recv_eq (result : RecvResult) (out : Bytes) :
    (recv result out).2 = out ++ Session.stored result := by
  cases result with
  | data chunk => rfl
  | eof => exact (List.append_nil _).symm
  | fail e => exact (List.append_nil _).symm

theorem recvAll_eq (results : List RecvResult) (out : Bytes) :
    recvAll results out = out ++ results.flatMap Session.stored := by
  induction results generalizing out with
  | nil => simp [recvAll]
  | cons result results ih =>
      have hstep : recvAll (result :: results) out = recvAll results (recv result out).2 := rfl
      rw [hstep, ih, recv_eq, List.flatMap_cons, List.append_assoc]

/-! ## The three programs call it -/

theorem serveChunk_eq_recv (build : Build) (execute : Request → Except Exn Response)
    (turn : Chunk × Request) (c : Conversation) :
    (Conversation.serveChunk build execute turn).run c =
      ((serviceDrain build execute turn.2 >>= fun _ => pure ()) : Proc _ _ _).run
        { c with recvmessage := (recv (.data turn.1) c.recvmessage).2 } := rfl

theorem turnBody_eq_recv (build : Build) (rand : Nat × Nat × Nat) (chunk : Chunk) :
    Client.turnBody build rand chunk =
      (do
        Client.sendRequest build rand
        Client.setMessage (recv (.data chunk) []).2
        drain Client.getMessage Client.setMessage (Client.echoBody build) ()) := rfl

/-! ## Growing by exactly the stream -/

theorem zero_notMem_stored (results : List RecvResult) :
    (0 : UInt8) ∉ results.flatMap Session.stored := by
  simp only [List.mem_flatMap, not_exists, not_and]
  intro result _
  cases result with
  | data chunk => exact notMem_ofCString chunk.bytes
  | eof => exact List.not_mem_nil
  | fail e => exact List.not_mem_nil

theorem append_stored_eq_iff (results : List RecvResult) (before : Bytes) :
    before ++ results.flatMap Session.stored =
        before ++ results.flatMap RecvResult.bytes ↔
      (0 : UInt8) ∉ results.flatMap RecvResult.bytes := by
  rw [List.append_cancel_left_eq]
  constructor
  · intro h
    rw [← h]
    exact zero_notMem_stored results
  · exact Session.stored_of_notMem

section Receiving

variable (s : Session) (before : Bytes) (results results' : List RecvResult)

/--
Chunks of a stream, with interrupts in between.  When the loop of `HandlerRecv`
hands them on to its callback, and when `Recv` has been called for each of them,
the buffer has grown by exactly the bytes of the stream if and only if none of
them is zero; and then two ways to cut a stream give the same buffer.
-/
theorem received_exactly_iff (hlive : s.registered = true)
    (hquiet : ∀ r ∈ results, Session.Quiet r) (hquiet' : ∀ r ∈ results', Session.Quiet r) :
    ((∀ func : Proc Fault Session Unit, ∃ s',
        (handlerRecv Session.api func (results ++ [.fail eagain])).run s = func.run s' ∧
        s'.conn.inbuffer = s.conn.inbuffer ++ results.flatMap RecvResult.bytes) ↔
      (0 : UInt8) ∉ results.flatMap RecvResult.bytes) ∧
    (recvAll results before = before ++ results.flatMap RecvResult.bytes ↔
      (0 : UInt8) ∉ results.flatMap RecvResult.bytes) ∧
    (results.flatMap RecvResult.bytes = results'.flatMap RecvResult.bytes →
      (0 : UInt8) ∉ results.flatMap RecvResult.bytes →
      recvAll results before = recvAll results' before ∧
      ∀ func : Proc Fault Session Unit, ∃ s₁ s₂,
        (handlerRecv Session.api func (results ++ [.fail eagain])).run s = func.run s₁ ∧
        (handlerRecv Session.api func (results' ++ [.fail eagain])).run s = func.run s₂ ∧
        s₁.conn.inbuffer = s₂.conn.inbuffer) := by
  have hloop : ∀ rs, (∀ r ∈ rs, Session.Quiet r) → ∀ func : Proc Fault Session Unit,
      (handlerRecv Session.api func (rs ++ [.fail eagain])).run s =
        func.run (s.afterRecvs (rs ++ [.fail eagain])) :=
    fun rs hrs func => Session.handlerRecv_eagain hlive hrs []
  have hbuffer : ∀ rs, (s.afterRecvs (rs ++ [.fail eagain])).conn.inbuffer =
      s.conn.inbuffer ++ rs.flatMap Session.stored := by
    intro rs
    simp [Session.stored]
  refine ⟨?_, ?_, ?_⟩
  · rw [← append_stored_eq_iff results s.conn.inbuffer]
    constructor
    · intro h
      obtain ⟨s', hrun, hgrown⟩ := h (pure ())
      rw [hloop results hquiet] at hrun
      cases hrun
      rw [← hbuffer, hgrown]
    · intro h func
      exact ⟨_, hloop results hquiet func, (hbuffer results).trans h⟩
  · rw [recvAll_eq]
    exact append_stored_eq_iff results before
  · intro hsame hnul
    have hstored := Session.stored_of_notMem hnul
    have hstored' := Session.stored_of_notMem (hsame ▸ hnul)
    refine ⟨?_, fun func => ⟨_, _, hloop results hquiet func, hloop results' hquiet' func, ?_⟩⟩
    · rw [recvAll_eq, recvAll_eq, hstored, hstored', hsame]
    · rw [hbuffer, hbuffer, hstored, hstored', hsame]

end Receiving

/-! ## A zero between two letters -/

def oneChunk : List RecvResult := [.data ⟨[97, 0, 98], by decide, by decide⟩]

def threeChunks : List RecvResult :=
  [.data ⟨[97], by decide, by decide⟩, .data ⟨[0], by decide, by decide⟩,
    .data ⟨[98], by decide, by decide⟩]

def twoLetters : List RecvResult := [.data ⟨[97, 98], by decide, by decide⟩]

theorem quiet_data {results : List RecvResult} (h : ∀ r ∈ results, ∃ chunk, r = .data chunk) :
    ∀ r ∈ results, Session.Quiet r := by
  intro r hr
  obtain ⟨chunk, rfl⟩ := h r hr
  trivial

theorem received_exactly_iff_twoLetters :
    recvAll twoLetters [] = [97, 98] := by
  have hquiet : ∀ r ∈ twoLetters, Session.Quiet r := quiet_data (by simp [twoLetters])
  have h := received_exactly_iff (Session.opened 5) [] twoLetters twoLetters rfl hquiet hquiet
  exact h.2.1.mpr (by decide)

/-- The zero hides the second letter, or does not, as the chunks fall. -/
theorem zero_hides_letter :
    (¬ ∀ (results : List RecvResult) (before : Bytes), (∀ r ∈ results, Session.Quiet r) →
      recvAll results before = before ++ results.flatMap RecvResult.bytes) ∧
    (¬ ∀ (results : List RecvResult), (∀ r ∈ results, Session.Quiet r) → ∃ s',
      (handlerRecv Session.api (pure ()) (results ++ [.fail eagain])).run (Session.opened 5) =
        .done () s' ∧ s'.conn.inbuffer = results.flatMap RecvResult.bytes) ∧
    ¬ ∀ results results' : List RecvResult,
      results.flatMap RecvResult.bytes = results'.flatMap RecvResult.bytes →
      recvAll results [] = recvAll results' [] := by
  have hquiet : ∀ r ∈ oneChunk, Session.Quiet r := quiet_data (by simp [oneChunk])
  refine ⟨fun h => ?_, fun h => ?_, fun h => ?_⟩
  · exact absurd (h oneChunk [] hquiet) (by decide)
  · obtain ⟨s', hrun, hgrown⟩ := h oneChunk hquiet
    rw [Session.handlerRecv_eagain rfl hquiet []] at hrun
    cases hrun
    exact absurd hgrown (by decide)
  · exact absurd (h oneChunk threeChunks (by decide)) (by decide)

end LinuxAdvance
