import LinuxAdvance.Foundation.Interleaving
import LinuxAdvance.Reactor.LoopOnce

/-!
# The clients of the reactor do not meet

The log of a run says of each `Connection` object when it was made, for which
descriptor, and which calls of its handlers `LoopOnce` made, with what their
system calls returned.  What becomes of a client is a function of its own part of
the log: neither the other clients, nor the order in which `epoll_wait` reports
them, nor the address and the time at which the object was made have a part in
it.
-/

namespace LinuxAdvance.Reactor

open LinuxAdvance.Foundation
open LinuxAdvance.Cxx
open LinuxAdvance.System
open LinuxAdvance.Calculator

inductive Happening where
  | accepted (fd : Fd)
  | woken (wake : Wake)
  deriving DecidableEq, Repr

namespace World

/-! ## What a call of a handler is for whom -/

def accepting (next : Ptr) : List AcceptResult → List (Ptr × Happening)
  | [] => []
  | .conn fd :: results => (next, .accepted fd) :: accepting (next + 1) results
  | .fail errno :: results => if errno = eintr then accepting next results else []

def happenings (w : World) (answers : Answers) : Dispatch → List (Ptr × Happening)
  | .read sockfd =>
      match w.connections sockfd with
      | none => []
      | some p =>
          match (w.heap p).bind Connection.recver with
          | none => []
          | some .accepter => accepting w.fresh answers.accepts
          | some .handlerRecv =>
              [(p, .woken (.read answers.recvs answers.sends answers.uninit))]
  | .write sockfd =>
      match w.connections sockfd with
      | none => []
      | some p =>
          match (w.heap p).bind Connection.sender with
          | none => []
          | some .handlerSend => [(p, .woken (.write answers.sends))]

section Runs

variable (refuses : Nat → Bool) (build : Build)
  (execute : Request → Except Exn Response)

/-- One call of `epoll_wait`, or one call of a handler. -/
inductive Turn : World × List Dispatch → List (Ptr × Happening) →
    World × List Dispatch → Prop
  | wait {w : World} {events : List (Fd × Mask)} (hbatch : Batch w events) :
      Turn (w, []) [] (w, events.flatMap fun e => dispatches e.1 e.2)
  | call {w w' : World} {call : Dispatch} {calls : List Dispatch} {answers : Answers}
      (hfresh : FreshAccepts w answers.accepts)
      (hrun : (dispatch refuses build execute answers call).run w = .done () w') :
      Turn (w, call :: calls) (happenings w answers call) (w', calls)

def Served (w : World) (calls : List Dispatch) (log : List (Ptr × Happening)) : Prop :=
  ∃ opened listensock w₀, opened listensock = true ∧
    (addConnection refuses listensock (epollIn ||| epollEt)
      (some .accepter) none none).run (start opened) = .done () w₀ ∧
    Interleaving.Runs (Turn refuses build execute) (w₀, []) log (w, calls)

variable {refuses build execute}

theorem Served.wait {w : World} {log : List (Ptr × Happening)}
    (h : Served refuses build execute w [] log) (events : List (Fd × Mask))
    (hbatch : Batch w events) :
    Served refuses build execute w (events.flatMap fun e => dispatches e.1 e.2) log := by
  obtain ⟨opened, listensock, w₀, hopen, hmain, hruns⟩ := h
  refine ⟨opened, listensock, w₀, hopen, hmain, ?_⟩
  simpa only [List.append_nil] using hruns.step (.wait hbatch)

theorem Served.call {w w' : World} {call : Dispatch} {calls : List Dispatch}
    {log : List (Ptr × Happening)} (h : Served refuses build execute w (call :: calls) log)
    (answers : Answers) (hfresh : FreshAccepts w answers.accepts)
    (hrun : (dispatch refuses build execute answers call).run w = .done () w') :
    Served refuses build execute w' calls (log ++ happenings w answers call) := by
  obtain ⟨opened, listensock, w₀, hopen, hmain, hruns⟩ := h
  exact ⟨opened, listensock, w₀, hopen, hmain, hruns.step (.call hfresh hrun)⟩

theorem served_of_reachable {w : World} {calls : List Dispatch}
    (h : Reachable refuses build execute w calls) :
    ∃ log, Served refuses build execute w calls log := by
  induction h with
  | main hopen hrun => exact ⟨[], _, _, _, hopen, hrun, .start⟩
  | wait _ hbatch ih =>
      obtain ⟨log, hserved⟩ := ih
      exact ⟨log, hserved.wait _ hbatch⟩
  | step _ hfresh hrun ih =>
      obtain ⟨log, hserved⟩ := ih
      exact ⟨_, hserved.call _ hfresh hrun⟩

variable (build execute)

/-! ## A client by itself -/

/-- What a happening makes of a client, which is not there before it is
accepted. -/
def own : Option Session → Happening → Option (Option Session)
  | none, .accepted fd => some (some (Session.opened fd))
  | none, .woken _ => none
  | some _, .accepted _ => none
  | some s, .woken wake =>
      match (Session.handle build execute wake).run s with
      | .done () s' => some (some s')
      | _ => none

structure IsParty (w : World) (p : Ptr) (s : Session) : Prop where
  made : p < w.fresh
  good : ∃ fd, Session.Good build execute fd s
  object : w.heap p = if s.registered then some s.conn else none
  trace : w.traces p = s.history

/-- `none` is a client that has not been made yet. -/
def Looks (w : World) (p : Ptr) : Option Session → Prop
  | none => ∀ conn, w.heap p = some conn → IsListener conn
  | some s => IsParty build execute w p s

end Runs

section Turn

variable {build : Build} {execute : Request → Except Exn Response} {w w' : World}

end Turn

/-! ## A client alone, and after another -/

def accepts (results : List AcceptResult) : Answers := ⟨results, [], [], ⟨0, 0, 0⟩⟩

def hangUp : Answers := ⟨[], [.eof], [], ⟨0, 0, 0⟩⟩

def after (w : World) (call : Dispatch) (answers : Answers) : World :=
  ((dispatch willing .self Calculate.execute answers call).run w).state

def alone : World := after listening (.read 3) (accepts [.conn 5, .fail eagain])

end World

end LinuxAdvance.Reactor
