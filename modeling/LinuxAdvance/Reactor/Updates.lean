import LinuxAdvance.Reactor.Reactor

/-!
# The updates of the reactor

What `AddConnection`, `EnableReadWrite` and `RemoveConnection` make of a world, in
one piece, whether the kernel accepts their calls of `epoll_ctl` or not.
-/

namespace LinuxAdvance.Reactor

open LinuxAdvance.Foundation
open LinuxAdvance.Cxx
open LinuxAdvance.System
open LinuxAdvance.Calculator

namespace World

/-! ## The operations on a world -/

section Run

variable {w : World} {p : Ptr} {conn : Connection} {sockfd : Fd}

theorem run_deref (h : w.heap p = some conn) : (deref p).run w = .done conn w := by
  rw [deref, Proc.run_get_bind, h]
  rfl

theorem run_deref_none (h : w.heap p = none) :
    (deref p).run w = .raised .useAfterFree w := by
  rw [deref, Proc.run_get_bind, h]
  rfl

theorem run_store (h : w.heap p = some conn) (conn' : Connection) :
    (store p conn').run w =
      .done () { w with heap := Function.update w.heap p (some conn') } := by
  rw [store, Proc.run_bind_done (run_deref h)]
  rfl

theorem run_new (conn : Connection) (w : World) :
    (new conn).run w =
      .done w.fresh { w with
        heap := Function.update w.heap w.fresh (some conn)
        fresh := w.fresh + 1 } := rfl

theorem run_delete (h : w.heap p = some conn) :
    (delete p).run w =
      .done () { w with
        heap := Function.update w.heap p none
        deleted := w.deleted ++ [(p, conn.sockfd)] } := by
  rw [delete, Proc.run_bind_done (run_deref h)]
  rfl

theorem run_close (h : w.opened sockfd = true) :
    (close sockfd).run w =
      .done () { w with
        opened := Function.update w.opened sockfd false
        interest := Function.update w.interest sockfd none
        closed := w.closed ++ [sockfd] } := by
  rw [close, Proc.run_get_bind, if_pos h]
  rfl

end Run

section Updates

variable (refuses : Nat → Bool)

theorem run_epollCtl (valid : World → Bool) (change : World → World) (w : World) :
    (epollCtl refuses valid change).run w =
      .done (valid w && !refuses w.ctlCalls)
        (if valid w && !refuses w.ctlCalls then change { w with ctlCalls := w.ctlCalls + 1 }
          else { w with ctlCalls := w.ctlCalls + 1 }) := by
  rw [epollCtl, Proc.run_get_bind, Proc.run_modify_bind]
  split
  · rfl
  · rfl

/-- What `epoll_ctl` answers to `EPOLL_CTL_ADD`. -/
def adds (w : World) (fd : Fd) : Bool :=
  w.opened fd && (w.interest fd).isNone && !refuses w.ctlCalls

/-- What `epoll_ctl` answers to `EPOLL_CTL_MOD` and to `EPOLL_CTL_DEL`. -/
def mods (w : World) (fd : Fd) : Bool :=
  w.opened fd && (w.interest fd).isSome && !refuses w.ctlCalls

/-- The interest set after a call that `epoll_ctl` accepted or not. -/
def watching (w : World) (accepted : Bool) (fd : Fd) (mask : Option Mask) : World :=
  { w with
    ctlCalls := w.ctlCalls + 1
    interest := if accepted then Function.update w.interest fd mask else w.interest }

theorem run_addEvent (fd : Fd) (event : Mask) (w : World) :
    (addEvent refuses fd event).run w =
      .done (w.adds refuses fd) (w.watching (w.adds refuses fd) fd (some event)) := by
  rw [addEvent, run_epollCtl]
  change Outcome.done (w.adds refuses fd) (if w.adds refuses fd = true then _ else _) = _
  cases w.adds refuses fd <;> rfl

theorem run_modEvent (fd : Fd) (event : Mask) (w : World) :
    (modEvent refuses fd event).run w =
      .done (w.mods refuses fd) (w.watching (w.mods refuses fd) fd (some event)) := by
  rw [modEvent, run_epollCtl]
  change Outcome.done (w.mods refuses fd) (if w.mods refuses fd = true then _ else _) = _
  cases w.mods refuses fd <;> rfl

theorem run_delEvent (fd : Fd) (w : World) :
    (delEvent refuses fd).run w =
      .done (w.mods refuses fd) (w.watching (w.mods refuses fd) fd none) := by
  rw [delEvent, run_epollCtl]
  change Outcome.done (w.mods refuses fd) (if w.mods refuses fd = true then _ else _) = _
  cases w.mods refuses fd <;> rfl

/-! ## The three updates in one piece -/

def made (sockfd : Fd) (events : Mask) (recver : Option Recver)
    (sender : Option Sender) (excepter : Option Excepter) : Connection :=
  ((({ sockfd } : Connection).setEvent events
    |>.register recver sender excepter)).setSelf

def joined (w : World) (conn : Connection) : World :=
  { w with
    added := w.added ++ [conn.sockfd]
    heap := Function.update w.heap w.fresh (some conn)
    fresh := w.fresh + 1
    ctlCalls := w.ctlCalls + 1
    interest :=
      if w.adds refuses conn.sockfd then
        Function.update w.interest conn.sockfd (some conn.events)
      else w.interest
    connections := Function.update w.connections conn.sockfd
      (some ((w.connections conn.sockfd).getD w.fresh)) }

theorem run_addConnection_joined (w : World) (fd : Fd) (events : Mask) (recver : Option Recver)
    (sender : Option Sender) (excepter : Option Excepter) :
    (addConnection refuses fd events recver sender excepter).run w =
      .done () (w.joined refuses (made fd events recver sender excepter)) := by
  rw [addConnection, Proc.run_modify_bind, Proc.run_bind_done (run_new _ _),
    Proc.run_bind_done (run_deref (Function.update_self ..))]
  refine (Proc.run_bind_done (run_addEvent ..) _).trans ?_
  rw [Proc.run_bind_done (run_deref (Function.update_self ..))]
  rfl

def toggled (w : World) (fd : Fd) (p : Ptr) (conn : Connection) (mask : Mask) : World :=
  { w with
    heap := Function.update w.heap p (some (conn.setEvent mask))
    ctlCalls := w.ctlCalls + 1
    interest :=
      if w.mods refuses fd then Function.update w.interest fd (some mask) else w.interest }

theorem run_enableReadWrite_none {w : World} {fd : Fd} (hentry : w.connections fd = none)
    (wr rd : Bool) : (enableReadWrite refuses fd wr rd).run w = .done () w := by
  rw [enableReadWrite, Proc.run_get_bind, hentry]
  rfl

theorem run_enableReadWrite_toggled {w : World} {fd : Fd} {p : Ptr} {conn : Connection}
    (hentry : w.connections fd = some p) (hheap : w.heap p = some conn) (wr rd : Bool) :
    (enableReadWrite refuses fd wr rd).run w =
      .done () (w.toggled refuses fd p conn (readWriteMask wr rd)) := by
  rw [enableReadWrite, Proc.run_get_bind, hentry]
  dsimp only
  rw [Proc.run_bind_done (run_deref hheap), Proc.run_bind_done (run_store hheap _),
    Proc.run_bind_done (run_modEvent ..)]
  rfl

def dropped (w : World) (fd : Fd) (p : Ptr) : World :=
  { w with
    heap := Function.update w.heap p none
    ctlCalls := w.ctlCalls + 1
    opened := Function.update w.opened fd false
    interest := Function.update w.interest fd none
    closed := w.closed ++ [fd]
    deleted := w.deleted ++ [(p, fd)]
    connections := Function.update w.connections fd none }

/-- Closing the descriptor drops it from the interest set in any case. -/
theorem run_removeConnection_dropped {w : World} {fd : Fd} {p : Ptr} {conn : Connection}
    (hentry : w.connections fd = some p) (hheap : w.heap p = some conn)
    (hsock : conn.sockfd = fd) (hopen : w.opened fd = true) :
    (removeConnection refuses fd).run w = .done () (w.dropped fd p) := by
  rw [removeConnection, Proc.run_get_bind, hentry]
  dsimp only
  rw [Proc.run_bind_done (run_delEvent ..), Proc.run_bind_done (run_close (by exact hopen)),
    Proc.run_bind_done (run_delete (by exact hheap))]
  cases hmods : w.mods refuses fd <;> simp [watching, dropped, hsock]

end Updates

end World

end LinuxAdvance.Reactor
