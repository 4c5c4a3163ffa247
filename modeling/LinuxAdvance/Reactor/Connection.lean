import LinuxAdvance.Calculator.Answer
import LinuxAdvance.System.Socket

/-!
# Connections of the reactor

The fields of `Connection`, the masks of `epoll`, and the operations by which a
handler reaches its connection: reading it, writing its two buffers, and the two
calls through `_R`.  The handlers are written over these operations, so that the
same text runs on the reactor's heap and on one connection by itself.
-/

namespace LinuxAdvance.Reactor

open LinuxAdvance.Foundation
open LinuxAdvance.Cxx
open LinuxAdvance.System
open LinuxAdvance.Calculator

abbrev Mask := UInt32

def epollIn : Mask := 0x1

def epollOut : Mask := 0x4

def epollErr : Mask := 0x8

def epollHup : Mask := 0x10

def epollEt : Mask := 0x80000000

/-- The callbacks `main` and `Listener::Accepter` bind; `nullptr` is `none`. -/
inductive Recver where
  | accepter
  | handlerRecv
  deriving DecidableEq, Repr

inductive Sender where
  | handlerSend
  deriving DecidableEq, Repr

inductive Excepter where
  | handlerExcept
  deriving DecidableEq, Repr

structure Connection where
  sockfd : Fd
  inbuffer : Bytes := []
  outbuffer : Bytes := []
  events : Mask := 0
  recver : Option Recver := none
  sender : Option Sender := none
  excepter : Option Excepter := none
  /-- `_R` has been set. -/
  attached : Bool := false
  deriving DecidableEq, Repr

namespace Connection

def setEvent (conn : Connection) (events : Mask) : Connection :=
  { conn with events }

def register (conn : Connection) (recver : Option Recver)
    (sender : Option Sender) (excepter : Option Excepter) : Connection :=
  { conn with recver, sender, excepter }

def setSelf (conn : Connection) : Connection :=
  { conn with attached := true }

end Connection

def readWriteMask (wr rd : Bool) : Mask :=
  (if wr then epollOut else 0) ||| (if rd then epollIn else 0) ||| epollEt

theorem readWriteMask_in (wr : Bool) : readWriteMask wr true &&& epollIn ≠ 0 := by
  cases wr <;> decide

theorem readWriteMask_et (wr rd : Bool) : readWriteMask wr rd &&& epollEt ≠ 0 := by
  cases wr <;> cases rd <;> decide

theorem readWriteMask_out (wr rd : Bool) :
    readWriteMask wr rd &&& epollOut ≠ 0 ↔ wr = true := by
  cases wr <;> cases rd <;> decide

/-! ## What has happened on a connection -/

/-- `answered` is one round of the parser, whose frame went to
`AppendOutbuff`. -/
inductive IoEvent where
  | received (result : RecvResult)
  | answered (round : Round)
  | sent (bytes : Bytes)
  | sendFailed (errno : Nat)
  | excepted
  deriving DecidableEq, Repr

namespace IoEvent

def receivedBytes : IoEvent → Bytes
  | received result => result.bytes
  | _ => []

def round : IoEvent → Option Round
  | answered round => some round
  | _ => none

def sentBytes : IoEvent → Bytes
  | sent bytes => bytes
  | _ => []

end IoEvent

/-! ## How a handler reaches its connection -/

structure ConnApi (σ : Type) where
  /-- `*conn`. -/
  deref : Proc Fault σ Connection
  setInbuffer : Bytes → Proc Fault σ Unit
  setOutbuffer : Bytes → Proc Fault σ Unit
  /-- `conn->_R->EnableReadWrite(conn->SockFd(), wr, rd)`. -/
  enableReadWrite : Bool → Bool → Proc Fault σ Unit
  /-- `conn->_R->RemoveConnection(conn->SockFd())`. -/
  removeConnection : Proc Fault σ Unit
  /-- What the handler does, as an observer of the connection sees it. -/
  record : IoEvent → Proc Fault σ Unit

namespace ConnApi

variable {σ τ : Type} (api : ConnApi σ)

def appendInbuff (buff : Bytes) : Proc Fault σ Unit := do
  let conn ← api.deref
  api.setInbuffer (conn.inbuffer ++ buff)

def appendOutbuff (buff : Bytes) : Proc Fault σ Unit := do
  let conn ← api.deref
  api.setOutbuffer (conn.outbuffer ++ buff)

def inbuffer : Proc Fault σ Bytes := do
  let conn ← api.deref
  return conn.inbuffer

def outBufferRemove (n : Int32) : Proc Fault σ Unit := do
  let conn ← api.deref
  api.setOutbuffer (eraseFront conn.outbuffer (sizeOfInt n))

/-- Operation by operation, `B` does on its state what `A` does on its own. -/
structure Sim (R : σ → τ → Prop) (A : ConnApi σ) (B : ConnApi τ) : Prop where
  deref : Proc.Sim R A.deref B.deref
  setInbuffer : ∀ b, Proc.Sim R (A.setInbuffer b) (B.setInbuffer b)
  setOutbuffer : ∀ b, Proc.Sim R (A.setOutbuffer b) (B.setOutbuffer b)
  enableReadWrite : ∀ wr rd, Proc.Sim R (A.enableReadWrite wr rd) (B.enableReadWrite wr rd)
  removeConnection : Proc.Sim R A.removeConnection B.removeConnection
  record : ∀ e, Proc.Sim R (A.record e) (B.record e)

section Sim

variable {R : σ → τ → Prop} {A : ConnApi σ} {B : ConnApi τ}

theorem Sim.appendInbuff (h : Sim R A B) (buff : Bytes) :
    Proc.Sim R (A.appendInbuff buff) (B.appendInbuff buff) :=
  h.deref.bind fun _ => h.setInbuffer _

theorem Sim.appendOutbuff (h : Sim R A B) (buff : Bytes) :
    Proc.Sim R (A.appendOutbuff buff) (B.appendOutbuff buff) :=
  h.deref.bind fun _ => h.setOutbuffer _

theorem Sim.inbuffer (h : Sim R A B) : Proc.Sim R A.inbuffer B.inbuffer :=
  h.deref.bind fun _ => Proc.Sim.pure _

theorem Sim.outBufferRemove (h : Sim R A B) (n : Int32) :
    Proc.Sim R (A.outBufferRemove n) (B.outBufferRemove n) :=
  h.deref.bind fun _ => h.setOutbuffer _

end Sim

end ConnApi

end LinuxAdvance.Reactor
