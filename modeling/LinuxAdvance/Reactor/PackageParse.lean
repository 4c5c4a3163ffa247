import LinuxAdvance.Calculator.Drain
import LinuxAdvance.Reactor.IOService

/-!
# `PackageParse::Parse`

The callback behind `HandlerRecv`.  `req` is declared before the loop and never
initialised, so its first value is an argument; what `DeSerialize` returns is
not looked at.
-/

namespace LinuxAdvance.Reactor

open LinuxAdvance.Foundation
open LinuxAdvance.Cxx
open LinuxAdvance.System
open LinuxAdvance.Calculator

variable {σ τ : Type} (api : ConnApi σ) (build : Build)
  (execute : Request → Except Exn Response)

def parseBody (package : Bytes) (req : Request) : Proc Fault σ Request := do
  let round ← answer build execute package req
  api.record (.answered round)
  api.appendOutbuff round.frame
  return round.req

def parse (uninit : Request) (sends : List SendResult) : Proc Fault σ Unit := do
  let _ ← drain api.inbuffer api.setInbuffer (parseBody api build execute) uninit
  let conn ← api.deref
  if conn.outbuffer ≠ [] then
    callSender api sends

section Sim

variable {R : σ → τ → Prop} {A : ConnApi σ} {B : ConnApi τ}

theorem sim_parseBody (h : ConnApi.Sim R A B) (package : Bytes) (req : Request) :
    Proc.Sim R (parseBody A build execute package req)
      (parseBody B build execute package req) := by
  have hanswer : Proc.Sim R (answer build execute package req : Proc Fault σ _)
      (answer build execute package req) := by
    apply (Proc.Sim.onLocal _ req).bind
    intro r
    apply (Proc.Sim.ofExcept _).bind
    intro resp
    exact Proc.Sim.pure _
  apply hanswer.bind
  intro r
  apply (h.record _).bind
  intro _
  apply (h.appendOutbuff _).bind
  intro _
  exact Proc.Sim.pure _

theorem sim_parse (h : ConnApi.Sim R A B) (uninit : Request)
    (sends : List SendResult) :
    Proc.Sim R (parse A build execute uninit sends)
      (parse B build execute uninit sends) := by
  apply (sim_drain h.inbuffer h.setInbuffer (sim_parseBody build execute h) _).bind
  intro _
  apply h.deref.bind
  intro conn
  split
  · exact sim_callSender h sends
  · exact Proc.Sim.pure _

end Sim

end LinuxAdvance.Reactor
