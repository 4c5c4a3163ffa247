import LinuxAdvance.Reactor.PackageParse

/-!
# The reactor

`Reactor`, `Epoller` and `Listener` over one state: the table `_connections`,
the `Connection` objects on the heap, and what the kernel knows of the process
(which descriptors are open, and the interest set of the `epoll` instance).
Using an object that has been deleted, or closing a descriptor that is not open,
is an error of the run.

The kernel accepts a call of `epoll_ctl` whose arguments are valid unless
`refuses` says that it fails this call for a reason of its own.
-/

namespace LinuxAdvance.Reactor

open LinuxAdvance.Foundation
open LinuxAdvance.Cxx
open LinuxAdvance.System
open LinuxAdvance.Calculator

abbrev Ptr := Nat

/-- `fresh` is the next address `new` returns.  `deleted` and `closed` are the
calls of `delete`, each with the descriptor of its object, and of `close`;
`added` are the descriptors `AddConnection` was called with; `traces` is what
the handlers of an object have done. -/
structure World where
  connections : Fd → Option Ptr
  heap : Ptr → Option Connection
  fresh : Ptr
  opened : Fd → Bool
  interest : Fd → Option Mask
  ctlCalls : Nat
  added : List Fd
  deleted : List (Ptr × Fd)
  closed : List Fd
  traces : Ptr → List IoEvent

namespace World

def start (opened : Fd → Bool) : World where
  connections := fun _ => none
  heap := fun _ => none
  fresh := 0
  opened := opened
  interest := fun _ => none
  ctlCalls := 0
  added := []
  deleted := []
  closed := []
  traces := fun _ => []

section Operations

variable (refuses : Nat → Bool)

/-! ## `Epoller` -/

def epollCtl (valid : World → Bool) (change : World → World) :
    Proc Fault World Bool := do
  let w ← Proc.get
  let accepted := valid w && !refuses w.ctlCalls
  Proc.modify fun w => { w with ctlCalls := w.ctlCalls + 1 }
  if accepted then
    Proc.modify change
  return accepted

def addEvent (sockfd : Fd) (event : Mask) : Proc Fault World Bool :=
  epollCtl refuses (fun w => w.opened sockfd && (w.interest sockfd).isNone)
    (fun w => { w with interest := Function.update w.interest sockfd (some event) })

def modEvent (sockfd : Fd) (event : Mask) : Proc Fault World Bool :=
  epollCtl refuses (fun w => w.opened sockfd && (w.interest sockfd).isSome)
    (fun w => { w with interest := Function.update w.interest sockfd (some event) })

def delEvent (sockfd : Fd) : Proc Fault World Bool :=
  epollCtl refuses (fun w => w.opened sockfd && (w.interest sockfd).isSome)
    (fun w => { w with interest := Function.update w.interest sockfd none })

/-- `::close`; the kernel drops a closed descriptor from the interest set. -/
def close (sockfd : Fd) : Proc Fault World Unit := do
  let w ← Proc.get
  if w.opened sockfd then
    Proc.modify fun w =>
      { w with
        opened := Function.update w.opened sockfd false
        interest := Function.update w.interest sockfd none
        closed := w.closed ++ [sockfd] }
  else
    Proc.raise .badDescriptor

/-! ## `Connection` objects -/

def deref (p : Ptr) : Proc Fault World Connection := do
  let w ← Proc.get
  match w.heap p with
  | some conn => return conn
  | none => Proc.raise .useAfterFree

def store (p : Ptr) (conn : Connection) : Proc Fault World Unit := do
  let _ ← deref p
  Proc.modify fun w => { w with heap := Function.update w.heap p (some conn) }

def new (conn : Connection) : Proc Fault World Ptr := do
  let w ← Proc.get
  Proc.modify fun w =>
    { w with
      heap := Function.update w.heap w.fresh (some conn)
      fresh := w.fresh + 1 }
  return w.fresh

def delete (p : Ptr) : Proc Fault World Unit := do
  let conn ← deref p
  Proc.modify fun w =>
    { w with
      heap := Function.update w.heap p none
      deleted := w.deleted ++ [(p, conn.sockfd)] }

/-! ## `Reactor` -/

/-- `insert` leaves an entry that is there as it is. -/
def addConnection (sockfd : Fd) (events : Mask) (recver : Option Recver)
    (sender : Option Sender) (excepter : Option Excepter) :
    Proc Fault World Unit := do
  Proc.modify fun w => { w with added := w.added ++ [sockfd] }
  let p ← new ((({ sockfd } : Connection).setEvent events
    |>.register recver sender excepter)).setSelf
  let conn ← deref p
  let _ ← addEvent refuses conn.sockfd conn.events
  let conn ← deref p
  Proc.modify fun w =>
    { w with
      connections := Function.update w.connections conn.sockfd
        (some ((w.connections conn.sockfd).getD p)) }

def enableReadWrite (sockfd : Fd) (wr rd : Bool) : Proc Fault World Unit := do
  let w ← Proc.get
  match w.connections sockfd with
  | none => return ()
  | some p =>
      let conn ← deref p
      store p (conn.setEvent (readWriteMask wr rd))
      let _ ← modEvent refuses sockfd (readWriteMask wr rd)
      return ()

def removeConnection (sockfd : Fd) : Proc Fault World Unit := do
  let w ← Proc.get
  match w.connections sockfd with
  | none => return ()
  | some p =>
      let _ ← delEvent refuses sockfd
      close sockfd
      delete p
      Proc.modify fun w =>
        { w with connections := Function.update w.connections sockfd none }

def reactorOf (conn : Connection) : Proc Fault World Unit :=
  if conn.attached then pure () else Proc.raise .nullPointer

def api (p : Ptr) : ConnApi World where
  deref := deref p
  setInbuffer inbuffer := do
    let conn ← deref p
    store p { conn with inbuffer }
  setOutbuffer outbuffer := do
    let conn ← deref p
    store p { conn with outbuffer }
  enableReadWrite wr rd := do
    let conn ← deref p
    reactorOf conn
    enableReadWrite refuses conn.sockfd wr rd
  removeConnection := do
    let conn ← deref p
    reactorOf conn
    removeConnection refuses conn.sockfd
  record e := Proc.modify fun w =>
    { w with traces := Function.update w.traces p (w.traces p ++ [e]) }

/-! ## `Listener::Accepter` -/

def acceptOne (p : Ptr) (fd : Fd) : Proc Fault World Unit := do
  Proc.modify fun w => { w with opened := Function.update w.opened fd true }
  let conn ← deref p
  reactorOf conn
  addConnection refuses fd (epollIn ||| epollEt) (some .handlerRecv)
    (some .handlerSend) (some .handlerExcept)

def acceptLoop (p : Ptr) : List AcceptResult → Proc Fault World Unit
  | [] => Proc.block
  | .conn fd :: results => do
      acceptOne refuses p fd
      acceptLoop p results
  | .fail errno :: results =>
      if errno = ewouldblock ∨ errno = eagain then
        return ()
      else if errno = eintr then
        acceptLoop p results
      else
        return ()

def accepter (p : Ptr) (results : List AcceptResult) : Proc Fault World Unit := do
  let _ ← deref p
  acceptLoop refuses p results

/-! ## `LoopOnce` -/

/-- What the system calls of one handler call return, and what the `Request` of
`Parse` holds before it is assigned. -/
structure Answers where
  accepts : List AcceptResult
  recvs : List RecvResult
  sends : List SendResult
  uninit : Request
  deriving DecidableEq, Repr

inductive Dispatch where
  | read (sockfd : Fd)
  | write (sockfd : Fd)
  deriving DecidableEq, Repr

/-- A hang-up or an error is turned into both kinds of readiness. -/
def dispatches (sockfd : Fd) (revents : Mask) : List Dispatch :=
  let revents :=
    if revents &&& epollHup ≠ 0 then revents ||| (epollIn ||| epollOut) else revents
  let revents :=
    if revents &&& epollErr ≠ 0 then revents ||| (epollIn ||| epollOut) else revents
  (if revents &&& epollIn ≠ 0 then [.read sockfd] else []) ++
    (if revents &&& epollOut ≠ 0 then [.write sockfd] else [])

variable (build : Build) (execute : Request → Except Exn Response)

def dispatch (answers : Answers) : Dispatch → Proc Fault World Unit
  | .read sockfd => do
      let w ← Proc.get
      match w.connections sockfd with
      | none => return ()
      | some p =>
          let conn ← deref p
          match conn.recver with
          | none => return ()
          | some .accepter => accepter refuses p answers.accepts
          | some .handlerRecv =>
              handlerRecv (api refuses p)
                (parse (api refuses p) build execute answers.uninit answers.sends)
                answers.recvs
  | .write sockfd => do
      let w ← Proc.get
      match w.connections sockfd with
      | none => return ()
      | some p =>
          let conn ← deref p
          match conn.sender with
          | none => return ()
          | some .handlerSend => handlerSend (api refuses p) answers.sends

/-- The loop over one batch, cut into its calls. -/
def loopOnce (calls : List (Dispatch × Answers)) : Proc Fault World Unit :=
  Proc.forEach (fun call => dispatch refuses build execute call.2 call.1) calls

/-! ## Runs -/

def gnum : Nat := 64

/-- What `epoll_wait` can return: at most `gnum` events, for different
descriptors, each in the interest set. -/
structure Batch (w : World) (events : List (Fd × Mask)) : Prop where
  count : events.length ≤ gnum
  distinct : (events.map Prod.fst).Nodup
  watched : ∀ e ∈ events, (w.interest e.1).isSome

def acceptedFds (results : List AcceptResult) : List Fd :=
  results.filterMap fun
    | .conn fd => some fd
    | .fail _ => none

/-- `accept` returns descriptors that are not open. -/
structure FreshAccepts (w : World) (results : List AcceptResult) : Prop where
  distinct : (acceptedFds results).Nodup
  closed : ∀ fd ∈ acceptedFds results, w.opened fd = false

/-- A world between two calls of handlers, with the calls the current batch has
left; `main` adds the listener with no sender and no excepter. -/
inductive Reachable : World → List Dispatch → Prop
  | main {opened : Fd → Bool} {listensock : Fd} {w : World}
      (hopen : opened listensock = true)
      (hrun : (addConnection refuses listensock (epollIn ||| epollEt)
        (some .accepter) none none).run (start opened) = .done () w) :
      Reachable w []
  | wait {w : World} {events : List (Fd × Mask)} (hw : Reachable w [])
      (hbatch : Batch w events) :
      Reachable w (events.flatMap fun e => dispatches e.1 e.2)
  | step {w w' : World} {call : Dispatch} {calls : List Dispatch}
      {answers : Answers} (hw : Reachable w (call :: calls))
      (hfresh : FreshAccepts w answers.accepts)
      (hrun : (dispatch refuses build execute answers call).run w = .done () w') :
      Reachable w' calls

end Operations

end World

end LinuxAdvance.Reactor
