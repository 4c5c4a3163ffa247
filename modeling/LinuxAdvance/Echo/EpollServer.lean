import LinuxAdvance.Echo.SlotTable
import LinuxAdvance.Foundation.Proc

/-!
# The epoll server: `EpollServer`

The descriptors are in the interest set that the kernel keeps; the server has no
table of its own.  It does not look at what `epoll_ctl` returns.
-/

namespace LinuxAdvance.Echo

open LinuxAdvance.Foundation
open LinuxAdvance.System

abbrev EpollMask := BitVec 32

def epollin : EpollMask := 0x001

def epollout : EpollMask := 0x004

/-- `EPOLLERR` and `EPOLLHUP`, which need not be asked for. -/
def epollAlways : EpollMask := 0x018

def epollEvents : Nat := 64

structure EpollEvent where
  events : EpollMask
  fd : Fd

/-- `others` are the descriptors the process has open besides, `_epfd` among
them. -/
structure EpollServer where
  interest : Fd → Option EpollMask
  listensock : Fd
  others : Finset Fd
  calls : List Call := []

/-- What `accept` does, whether `epoll_ctl` takes the new descriptor, and what
`recv` returns when it is called for a descriptor. -/
structure EpollAnswers where
  accept : AcceptAnswer
  added : Bool
  recv : Fd → RecvResult

/-- What one iteration of `Loop` meets: the state of each descriptor, or an
`epoll_wait` that fails (`none`), and the order in which descriptors are
reported. -/
structure EpollRound where
  condition : Option (Fd → EpollMask)
  order : List Fd
  answers : EpollAnswers

namespace EpollServer

def clients (s : EpollServer) : Finset Fd := Ledger.held (ledger s.calls)

def opened (s : EpollServer) : Finset Fd := insert s.listensock (s.others ∪ s.clients)

def initial (listensock : Fd) (others : Finset Fd) : EpollServer where
  interest := Function.update (fun _ => none) listensock (some epollin)
  listensock
  others

def log (call : Call) : Proc Fault EpollServer Unit :=
  Proc.modify fun s => { s with calls := s.calls ++ [call] }

def setInterest (fd : Fd) (mask : Option EpollMask) : Proc Fault EpollServer Unit :=
  Proc.modify fun s => { s with interest := Function.update s.interest fd mask }

def accepter (answer : AcceptAnswer) : Proc Fault EpollServer (Option Fd) := do
  match answer with
  | .fail _ => return none
  | .conn choice => do
      let s ← Proc.get
      let newsockfd := choice.choose s.opened
      log (.accept newsockfd)
      return some newsockfd

/-- The test for a negative descriptor stands after the pointer has been used, and
a socket has none. -/
def acceptClient (answer : AcceptAnswer) (added : Bool) : Proc Fault EpollServer Unit := do
  let sockefd ← accepter answer
  let fd ← Proc.ofExcept (sockFd sockefd)
  if added then setInterest fd (some epollin)

def serviceIo (fd : Fd) (answer : RecvResult) : Proc Fault EpollServer Unit := do
  log (.recv fd)
  match answer with
  | .data chunk => log (.send fd (echo chunk))
  | _ => do
      setInterest fd none
      log (.close fd)

/-- One round of the loop of `HandlerRead`; the branch for `EPOLLOUT` is empty. -/
def visit (answers : EpollAnswers) (event : EpollEvent) : Proc Fault EpollServer Unit := do
  let s ← Proc.get
  if event.events &&& epollin ≠ 0 then
    if event.fd = s.listensock then acceptClient answers.accept answers.added
    else serviceIo event.fd (answers.recv event.fd)
  else if event.events &&& epollout ≠ 0 then return ()

def handlerRead (events : List EpollEvent) (answers : EpollAnswers) :
    Proc Fault EpollServer Unit :=
  Proc.forEach (visit answers) events

/-- What `epoll_wait` writes to `_events`: registered descriptors, each once. -/
def waited (interest : Fd → Option EpollMask) (order : List Fd) (condition : Fd → EpollMask) :
    List EpollEvent :=
  let reported := order.dedup.filterMap fun fd =>
    (interest fd).map fun mask => (⟨condition fd &&& (mask ||| epollAlways), fd⟩ : EpollEvent)
  (reported.filter fun event => decide (event.events ≠ 0)).take epollEvents

def reported (s : EpollServer) (round : EpollRound) : List EpollEvent :=
  match round.condition with
  | none => []
  | some condition => waited s.interest round.order condition

def loopOnce (round : EpollRound) : Proc Fault EpollServer Unit := do
  let s ← Proc.get
  handlerRead (s.reported round) round.answers

def loop (rounds : List EpollRound) : Proc Fault EpollServer Unit :=
  Proc.forEach loopOnce rounds

/-! ## The listener stays -/

theorem listensock_serviceIo {s s' : EpollServer} {fd : Fd} {answer : RecvResult}
    (hrun : (serviceIo fd answer).run s = .done () s') : s'.listensock = s.listensock := by
  cases answer <;> cases hrun <;> rfl

theorem listensock_acceptClient {s s' : EpollServer} {answer : AcceptAnswer} {added : Bool}
    (hrun : (acceptClient answer added).run s = .done () s') :
    s'.listensock = s.listensock := by
  cases answer with
  | fail errno => cases hrun
  | conn choice => cases added <;> cases hrun <;> rfl

theorem listensock_visit {s s' : EpollServer} {answers : EpollAnswers} {event : EpollEvent}
    (hrun : (visit answers event).run s = .done () s') : s'.listensock = s.listensock := by
  simp only [visit, Proc.run_get_bind] at hrun
  split at hrun
  · split at hrun
    · exact listensock_acceptClient hrun
    · exact listensock_serviceIo hrun
  · split at hrun <;> cases hrun <;> rfl

end EpollServer

end LinuxAdvance.Echo
