import LinuxAdvance.Chat.InetAddr
import LinuxAdvance.Cxx.Vector

/-!
# The chat server: `UdpServer`

One round of the loop of `Start` for each datagram.  The functions on
`_online_user` hold `_mutex` from their first line to their last.
-/

namespace LinuxAdvance.Chat

open LinuxAdvance.Foundation
open LinuxAdvance.Cxx
open LinuxAdvance.Cxx.Vector

structure Datagram where
  peer : SockaddrIn
  payload : Bytes
  deriving DecidableEq, Repr

def buffSize : Nat := 1024

def quit : Bytes := text "QUIT"

abbrev Users := List InetAddr

def addOnlineUser (user : InetAddr) : Proc Misuse Users Unit := do
  if ← anyOf fun e => e.equals user then return ()
  else pushBack user

def delOnlineUser (user : InetAddr) : Proc Misuse Users Unit :=
  eraseWhile fun e => e.equals user

/-- `[ip:port] buff` -/
def message (addr : InetAddr) (buff : Bytes) : Bytes :=
  text "[" ++ addr.ip ++ text ":" ++ natToString addr.port ++ text "] " ++ buff

/-- The calls of `sendto` in `Route`; the message is bound when it is enqueued. -/
def route {μ : Type} (message : μ) (users : Users) : List (SockaddrIn × μ) :=
  users.map fun user => (user.addr, message)

/-- `enqueued` are the messages handed to the thread pool. -/
structure UdpServer where
  onlineUser : Users := []
  enqueued : List Bytes := []
  deriving DecidableEq, Repr

namespace UdpServer

def onUsers {α : Type} (p : Proc Misuse Users α) : Proc Misuse UdpServer α :=
  Proc.onPart onlineUser (fun s onlineUser => { s with onlineUser }) id p

/-- `recvfrom` cuts the datagram to the buffer, and the NUL goes after it. -/
def recvfrom (datagram : Datagram) : Bytes := datagram.payload.take buffSize

def handle (datagram : Datagram) : Proc Misuse UdpServer Unit := do
  let received := recvfrom datagram
  if received.length = 0 then return ()
  else if received.length < buffSize then
    let buff := ofCString received
    let addr := InetAddr.ofSockaddr datagram.peer
    onUsers (addOnlineUser addr)
    if buff = quit then onUsers (delOnlineUser addr)
    else Proc.modify fun s => { s with enqueued := s.enqueued ++ [message addr buff] }
  else Proc.raise .outOfBounds

def start (datagrams : List Datagram) : Proc Misuse UdpServer Unit :=
  Proc.forEach handle datagrams

end UdpServer

/-! ## What the functions on the users do -/

theorem run_addOnlineUser (user : InetAddr) (users : Users) :
    (addOnlineUser user).run users =
      .done () (if user.addr ∈ users.map InetAddr.addr then users else users ++ [user]) := by
  have hany : users.any (fun e => e.equals user) = true ↔
      user.addr ∈ users.map InetAddr.addr := by
    simp [InetAddr.equals_iff]
  rw [addOnlineUser, Proc.run_bind_done (run_anyOf _ users)]
  simp only [← hany]
  split <;> simp [pushBack, *]

theorem run_delOnlineUser {user : InetAddr} {pre post : Users}
    (hpre : user.addr ∉ pre.map InetAddr.addr) (hpost : user.addr ∉ post.map InetAddr.addr) :
    (delOnlineUser user).run (pre ++ user :: post) =
      if post = [] then .raised .advanceEnd pre else .done () (pre ++ post) := by
  have hmiss : ∀ {users : Users}, user.addr ∉ users.map InetAddr.addr →
      ∀ e ∈ users, e.equals user = false := by
    intro users h e he
    rw [Bool.eq_false_iff, ne_eq, InetAddr.equals_iff]
    intro heq
    exact h (heq ▸ List.mem_map_of_mem he)
  exact run_eraseWhile_of_hit (hmiss hpre) (InetAddr.equals_iff.mpr rfl) (hmiss hpost)

namespace UdpServer

theorem run_onUsers_done {α : Type} {p : Proc Misuse Users α} {s : UdpServer} {a : α}
    {users : Users} (h : p.run s.onlineUser = .done a users) :
    (onUsers p).run s = .done a { s with onlineUser := users } := by
  simp [onUsers, Proc.onPart, h]

theorem run_onUsers_raised {α : Type} {p : Proc Misuse Users α} {s : UdpServer}
    {e : Misuse} {users : Users} (h : p.run s.onlineUser = .raised e users) :
    (onUsers p).run s = .raised e { s with onlineUser := users } := by
  simp [onUsers, Proc.onPart, h]

def senders (s : UdpServer) : List SockaddrIn := s.onlineUser.map InetAddr.addr

end UdpServer

end LinuxAdvance.Chat
