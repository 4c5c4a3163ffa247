import LinuxAdvance.Calculator.Answer
import LinuxAdvance.Calculator.Drain
import LinuxAdvance.Foundation.Triple
import LinuxAdvance.System.Socket

/-!
# The threaded server: `Service::AddService`

One thread serves one client.  A turn is one round of the outer loop: the result
of its `Recv`, and what the `Request` it declares holds before it is assigned.
The history of the connection is the list of rounds whose frames have been
passed to `Send`; what `Send` returns is not looked at.
-/

namespace LinuxAdvance.Calculator

open LinuxAdvance.Foundation
open LinuxAdvance.Cxx
open LinuxAdvance.System

structure Conversation where
  recvmessage : Bytes := []
  rounds : List Round := []
  deriving DecidableEq, Repr

namespace Conversation

def sentBytes (c : Conversation) : Bytes := c.rounds.flatMap Round.frame

def getMessage : Proc Fault Conversation Bytes := do
  let c ← Proc.get
  return c.recvmessage

def setMessage (recvmessage : Bytes) : Proc Fault Conversation Unit :=
  Proc.modify fun c => { c with recvmessage }

section Serve

variable (build : Build) (execute : Request → Except Exn Response)

def serveBody (package : Bytes) (req : Request) :
    Proc Fault Conversation Request := do
  let round ← answer build execute package req
  Proc.modify fun c => { c with rounds := c.rounds ++ [round] }
  return round.req

def serveChunk (turn : Chunk × Request) : Proc Fault Conversation Unit := do
  Proc.modify fun c =>
    { c with recvmessage := c.recvmessage ++ ofCString turn.1.bytes }
  let _ ← drain getMessage setMessage (serveBody build execute) turn.2
  return ()

def addService : List (RecvResult × Request) → Proc Fault Conversation Unit
  | [] => Proc.block
  | (.data chunk, uninit) :: turns => do
      serveChunk build execute (chunk, uninit)
      addService turns
  | _ :: _ => return ()

variable {build execute}

theorem addService_chunks {chunks : List (Chunk × Request)} {c c' : Conversation}
    (h : (Proc.forEach (serveChunk build execute) chunks).run c = .done () c')
    (turns : List (RecvResult × Request)) :
    (addService build execute
      (chunks.map (fun turn => (.data turn.1, turn.2)) ++ turns)).run c =
        (addService build execute turns).run c' := by
  induction chunks generalizing c with
  | nil =>
      cases h
      rfl
  | cons turn chunks ih =>
      rw [Proc.forEach_cons, Proc.run_bind_eq_done] at h
      obtain ⟨_, c₁, hturn, hchunks⟩ := h
      rw [List.map_cons, List.cons_append, addService, Proc.run_bind_done hturn]
      exact ih hchunks

theorem serveBody_of_answer {c : Conversation} {package : Bytes} {req : Request}
    {round : Round}
    (hanswer : (answer build execute package req).run c = .done round c) :
    (serveBody build execute package req).run c =
      .done round.req { c with rounds := c.rounds ++ [round] } := by
  rw [serveBody, Proc.run_bind_done hanswer]
  rfl

theorem serveBody_cases (package : Bytes) (req : Request) (c : Conversation) :
    (∃ round, Answers build execute round ∧ round.package = package ∧
      (serveBody build execute package req).run c =
        .done round.req { c with rounds := c.rounds ++ [round] }) ∨
    ∃ e, (serveBody build execute package req).run c = .raised (.exn e) c := by
  rcases answer_cases package req c with ⟨round, hrun, hanswers, hpkg⟩ | ⟨e, hrun⟩
  · exact .inl ⟨round, hanswers, hpkg, serveBody_of_answer hrun⟩
  · exact .inr ⟨e, by rw [serveBody, Proc.run_bind_raised hrun]⟩

/-! ## What every run keeps -/

structure Sound (build : Build) (execute : Request → Except Exn Response)
    (c : Conversation) : Prop where
  nulFree : (0 : UInt8) ∉ c.recvmessage
  answered : ∀ round ∈ c.rounds, Answered build execute round

theorem serveChunk_sound (turn : Chunk × Request) :
    Proc.Triple (Sound build execute) (serveChunk build execute turn)
      (fun _ => Sound build execute) (fun _ => Sound build execute) := by
  rintro c ⟨hnul, hanswered⟩
  rw [serveChunk, Proc.run_modify_bind]
  have hdrain := drain_triple getMessage setMessage (serveBody build execute)
    (I := Sound build execute) recvmessage (X := fun _ => Sound build execute)
    (fun c _ => rfl) (fun c hc => hc) (fun e c hc => hc)
    (fun c rest hc hd =>
      ⟨fun h0 => hc.nulFree ((decode_subset hd).2 h0), hc.answered⟩)
    (by
      intro c package rest req hc hd hne
      have hnul : (0 : UInt8) ∉ rest := fun h0 => hc.nulFree ((decode_subset hd).2 h0)
      change ((serveBody build execute package req).run
        { c with recvmessage := rest }).Ends _ _
      rcases serveBody_cases package req { c with recvmessage := rest } with
        ⟨round, hanswers, rfl, hrun⟩ | ⟨e, hrun⟩
      · rw [hrun]
        refine ⟨hnul, fun r hr => ?_⟩
        rcases List.mem_append.mp hr with hr | hr
        · exact hc.answered r hr
        · rw [List.mem_singleton.mp hr]
          exact ⟨hanswers, hne, fun h0 => hc.nulFree ((decode_subset hd).1 h0),
            decode_length_lt hd⟩
      · rw [hrun]
        exact ⟨hnul, hc.answered⟩)
    turn.2
  refine (hdrain.bind (f := fun _ => pure ()) (Q := fun _ => Sound build execute)
    fun _ => Proc.Triple.pure fun c hc => hc) _ ⟨?_, hanswered⟩
  rw [List.mem_append, not_or]
  exact ⟨hnul, notMem_ofCString _⟩

variable (build execute) in
theorem addService_sound (turns : List (RecvResult × Request)) :
    Proc.Triple (Sound build execute) (addService build execute turns)
      (fun _ => Sound build execute) (fun _ => Sound build execute) := by
  induction turns with
  | nil => exact Proc.Triple.block fun c hc => hc
  | cons turn turns ih =>
      obtain ⟨result, uninit⟩ := turn
      cases result with
      | data chunk => exact (serveChunk_sound (chunk, uninit)).bind fun _ => ih
      | eof => exact Proc.Triple.pure fun c hc => hc
      | fail e => exact Proc.Triple.pure fun c hc => hc

end Serve

end Conversation

end LinuxAdvance.Calculator
