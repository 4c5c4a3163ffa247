import LinuxAdvance.Reactor.Connection

/-!
# `IOService`: `HandlerRecv`, `HandlerSend`, `HandlerExcept`

A handler is given the answers its calls of `recv` and `send` get.  When the
answers are used up it is still inside its loop.  `errno` is the variable of the
thread: it is set to zero on entry, and a `recv` that reports the end of the
stream leaves it as the last failure set it.
-/

namespace LinuxAdvance.Reactor

open LinuxAdvance.Foundation
open LinuxAdvance.Cxx
open LinuxAdvance.System
open LinuxAdvance.Calculator

variable {σ τ : Type} (api : ConnApi σ)

def errnoAfter (errno : Nat) : RecvResult → Nat
  | .fail e => e
  | _ => errno

def handlerExcept : Proc Fault σ Unit := do
  api.record .excepted
  api.removeConnection

def callExcepter : Proc Fault σ Unit := do
  let conn ← api.deref
  match conn.excepter with
  | none => Proc.raise .badFunctionCall
  | some .handlerExcept => handlerExcept api

/-! ## `HandlerSend` -/

/-- The end of `HandlerSend`, after its loop. -/
def toggleWrite : Proc Fault σ Unit := do
  let conn ← api.deref
  if conn.outbuffer ≠ [] then
    api.enableReadWrite true true
  else
    api.enableReadWrite false true

def sendLoop : List SendResult → Proc Fault σ Unit
  | [] => Proc.block
  | .sent room :: results => do
      let conn ← api.deref
      let n := sendCount room conn.outbuffer.length
      api.record (.sent (conn.outbuffer.take n))
      if 0 < n then
        api.outBufferRemove (Int32.ofNat n)
        let conn ← api.deref
        if conn.outbuffer = [] then
          toggleWrite api
        else
          sendLoop results
      else
        toggleWrite api
  | .fail errno :: results => do
      let _ ← api.deref
      api.record (.sendFailed errno)
      if errno = ewouldblock ∨ errno = eagain then
        toggleWrite api
      else if errno = eintr then
        sendLoop results
      else
        callExcepter api

def handlerSend (results : List SendResult) : Proc Fault σ Unit :=
  sendLoop api results

def callSender (results : List SendResult) : Proc Fault σ Unit := do
  let conn ← api.deref
  match conn.sender with
  | none => Proc.raise .badFunctionCall
  | some .handlerSend => handlerSend api results

/-! ## `HandlerRecv` -/

def recvStopped (func again : Proc Fault σ Unit) (errno : Nat) :
    Proc Fault σ Unit :=
  if errno = ewouldblock ∨ errno = eagain then
    func
  else if errno = eintr then
    again
  else
    callExcepter api

/-- `func` is the callback `_func(conn)` behind the loop. -/
def recvLoop (func : Proc Fault σ Unit) :
    List RecvResult → Nat → Proc Fault σ Unit
  | [], _ => Proc.block
  | result :: results, errno => do
      let _ ← api.deref
      api.record (.received result)
      match result with
      | .data chunk =>
          api.appendInbuff (ofCString chunk.bytes)
          recvLoop func results errno
      | result =>
          recvStopped api func
            (recvLoop func results (errnoAfter errno result))
            (errnoAfter errno result)

def handlerRecv (func : Proc Fault σ Unit) (results : List RecvResult) :
    Proc Fault σ Unit :=
  recvLoop api func results 0

/-! ## The same handlers over another state -/

section Sim

variable {R : σ → τ → Prop} {A : ConnApi σ} {B : ConnApi τ}

theorem sim_handlerExcept (h : ConnApi.Sim R A B) :
    Proc.Sim R (handlerExcept A) (handlerExcept B) :=
  (h.record _).bind fun _ => h.removeConnection

theorem sim_callExcepter (h : ConnApi.Sim R A B) :
    Proc.Sim R (callExcepter A) (callExcepter B) := by
  apply h.deref.bind
  intro conn
  cases conn.excepter with
  | none => exact Proc.Sim.raise _
  | some e => exact sim_handlerExcept h

theorem sim_toggleWrite (h : ConnApi.Sim R A B) :
    Proc.Sim R (toggleWrite A) (toggleWrite B) := by
  apply h.deref.bind
  intro conn
  split
  · exact h.enableReadWrite _ _
  · exact h.enableReadWrite _ _

theorem sim_sendLoop (h : ConnApi.Sim R A B) (results : List SendResult) :
    Proc.Sim R (sendLoop A results) (sendLoop B results) := by
  induction results with
  | nil => exact Proc.Sim.block
  | cons result results ih =>
      cases result with
      | sent room =>
          apply h.deref.bind
          intro conn
          apply (h.record _).bind
          intro _
          split
          · apply (h.outBufferRemove _).bind
            intro _
            apply h.deref.bind
            intro conn
            split
            · exact sim_toggleWrite h
            · exact ih
          · exact sim_toggleWrite h
      | fail errno =>
          apply h.deref.bind
          intro _
          apply (h.record _).bind
          intro _
          split
          · exact sim_toggleWrite h
          split
          · exact ih
          · exact sim_callExcepter h

theorem sim_callSender (h : ConnApi.Sim R A B) (results : List SendResult) :
    Proc.Sim R (callSender A results) (callSender B results) := by
  apply h.deref.bind
  intro conn
  cases conn.sender with
  | none => exact Proc.Sim.raise _
  | some s => exact sim_sendLoop h results

theorem sim_recvStopped (h : ConnApi.Sim R A B)
    {func again : Proc Fault σ Unit} {func' again' : Proc Fault τ Unit}
    (hfunc : Proc.Sim R func func') (hagain : Proc.Sim R again again')
    (errno : Nat) :
    Proc.Sim R (recvStopped A func again errno)
      (recvStopped B func' again' errno) := by
  unfold recvStopped
  split
  · exact hfunc
  split
  · exact hagain
  · exact sim_callExcepter h

theorem sim_handlerRecv (h : ConnApi.Sim R A B) {func : Proc Fault σ Unit}
    {func' : Proc Fault τ Unit} (hfunc : Proc.Sim R func func')
    (results : List RecvResult) :
    Proc.Sim R (handlerRecv A func results) (handlerRecv B func' results) := by
  unfold handlerRecv
  generalize (0 : Nat) = errno
  induction results generalizing errno with
  | nil => exact Proc.Sim.block
  | cons result results ih =>
      apply h.deref.bind
      intro _
      apply (h.record _).bind
      intro _
      cases result with
      | data chunk =>
          apply (h.appendInbuff _).bind
          intro _
          exact ih errno
      | eof => exact sim_recvStopped h hfunc (ih _) _
      | fail e => exact sim_recvStopped h hfunc (ih _) _

end Sim

end LinuxAdvance.Reactor
