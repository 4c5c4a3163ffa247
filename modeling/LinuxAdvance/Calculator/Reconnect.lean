import LinuxAdvance.Calculator.Client
import LinuxAdvance.Foundation.Ledger
import LinuxAdvance.Foundation.Triple

/-!
# The reconnecting client: `TcpClient::Execute`

`Connection` keeps the number of its socket in `_sockfd` for good: `Connect`
overwrites it, and `DisConnect` closes it without forgetting it.  The ledger of a
run lists the descriptors that `CreateSocketOrDie` made and the numbers passed to
`close`.  A `close` of a number that is not open fails with `EBADF`, which nobody
looks at.
-/

namespace LinuxAdvance.Calculator

open LinuxAdvance.Foundation
open LinuxAdvance.Cxx
open LinuxAdvance.System

/-- What one call of `Connect` meets: the new socket (`none` when there is none
to be had), and whether `connect` succeeds. -/
structure Attempt where
  socket : Option NewFd
  connected : Bool

inductive Stop where
  | fault (f : Fault)
  | exit (code : Nat)
  deriving DecidableEq, Repr

def createError : Nat := 1

def retryMaxTimes : Nat := 5

/-- `sockfd` is `none` for `defaultsockfd`; `others` are the descriptors the
process has open besides its sockets. -/
structure TcpClient where
  client : Client := { status := .new }
  sockfd : Option Fd := none
  others : Finset Fd
  ledger : List (Entry Fd) := []

namespace TcpClient

def setStatus (status : Status) : Proc Stop TcpClient Unit :=
  Proc.modify fun c => { c with client := { c.client with status } }

def createSocketOrDie : Option NewFd → Proc Stop TcpClient Unit
  | none => Proc.raise (.exit createError)
  | some socket =>
      Proc.modify fun c =>
        let fd := socket.choose (c.others ∪ Ledger.held c.ledger)
        { c with sockfd := some fd, ledger := c.ledger ++ [.acquire fd] }

def disConnect : Proc Stop TcpClient Unit :=
  Proc.modify fun c =>
    match c.sockfd with
    | none => c
    | some fd => { c with ledger := c.ledger ++ [.release fd] }

def connect (attempt : Attempt) : Proc Stop TcpClient Unit := do
  createSocketOrDie attempt.socket
  if attempt.connected then
    setStatus .connected
  else do
    disConnect
    setStatus .disconnected

def reConnectLoop (cnt : Nat) : List Attempt → Proc Stop TcpClient (List Attempt)
  | [] => Proc.block
  | attempt :: attempts => do
      connect attempt
      let c ← Proc.get
      if c.client.status = .connected then return attempts
      else if retryMaxTimes < cnt + 1 then do
        setStatus .close
        return attempts
      else reConnectLoop (cnt + 1) attempts

def reConnect (attempts : List Attempt) : Proc Stop TcpClient (List Attempt) := do
  setStatus .connecting
  reConnectLoop 1 attempts

def process (build : Build) (turns : List Turn) : Proc Stop TcpClient Unit :=
  Proc.onPart TcpClient.client (fun c client => { c with client }) .fault
    (Client.process build turns)

/-- What is to come: an answer for each `Connect`, and the turns of each
`Process`. -/
structure Schedule where
  attempts : List Attempt
  conversations : List (List Turn)

def round (build : Build) (todo : Schedule) : Proc Stop TcpClient (Schedule ⊕ Unit) := do
  let c ← Proc.get
  match c.client.status, todo with
  | .new, ⟨attempt :: attempts, conversations⟩ => do
      connect attempt
      return .inl ⟨attempts, conversations⟩
  | .connected, ⟨attempts, turns :: conversations⟩ => do
      process build turns
      return .inl ⟨attempts, conversations⟩
  | .disconnected, ⟨attempts, conversations⟩ => do
      let attempts ← reConnect attempts
      return .inl ⟨attempts, conversations⟩
  | .close, _ => do
      disConnect
      return .inr ()
  | .connecting, todo => return .inl todo
  | _, _ => Proc.block

def execute (build : Build) (rounds : Nat) (todo : Schedule) : Proc Stop TcpClient Unit :=
  Proc.iterate (round build) rounds todo

/-! ## What each step does to the ledger -/

/-- The status `Process` leaves, which the first `Send` or `Recv` that fails
decides. -/
def ending : List Turn → Option Status
  | [] => none
  | ⟨_, .sent _, .data _⟩ :: turns => ending turns
  | ⟨_, .sent _, _⟩ :: _ => some .disconnected
  | ⟨_, .fail _, _⟩ :: _ => some .close

theorem ending_cases {turns : List Turn} {status : Status}
    (h : ending turns = some status) : status = .disconnected ∨ status = .close := by
  fun_induction ending turns with
  | case1 => cases h
  | case2 rand room chunk turns ih => exact ih h
  | case3 => simp_all
  | case4 => simp_all

theorem process_ending {build : Build} {turns : List Turn} {client client' : Client}
    (h : (Client.process build turns).run client = .done () client') :
    ending turns = some client'.status := by
  induction turns generalizing client with
  | nil => cases h
  | cons turn turns ih =>
      obtain ⟨rand, send, recv⟩ := turn
      cases send with
      | fail errno =>
          cases h
          rfl
      | sent room =>
          cases recv with
          | data chunk =>
              rw [Client.process, Proc.run_bind_eq_done] at h
              obtain ⟨_, client₁, -, hrest⟩ := h
              exact ih hrest
          | eof =>
              cases h
              rfl
          | fail errno =>
              cases h
              rfl

theorem connect_done {attempt : Attempt} {c c' : TcpClient}
    (h : (connect attempt).run c = .done () c') :
    ∃ fd, fd ∉ Ledger.held c.ledger ∧ c'.sockfd = some fd ∧
      if attempt.connected then
        c'.client.status = .connected ∧ c'.ledger = c.ledger ++ [.acquire fd]
      else
        c'.client.status = .disconnected ∧
          c'.ledger = c.ledger ++ [.acquire fd] ++ [.release fd] := by
  obtain ⟨socket, connected⟩ := attempt
  cases socket with
  | none => cases h
  | some socket =>
      have hnew := socket.notMem (c.others ∪ Ledger.held c.ledger)
      rw [Finset.mem_union, not_or] at hnew
      cases connected with
      | true =>
          cases h
          exact ⟨_, hnew.2, rfl, rfl, rfl⟩
      | false =>
          cases h
          exact ⟨_, hnew.2, rfl, rfl, rfl⟩

/-- `fd` is open and will not be closed. -/
def Lost (fd : Fd) (c : TcpClient) : Prop :=
  fd ∈ Ledger.held c.ledger ∧ c.sockfd ≠ some fd

theorem connect_loses {attempt : Attempt} {c c' : TcpClient} {fd : Fd}
    (hfd : fd ∈ Ledger.held c.ledger) (h : (connect attempt).run c = .done () c') :
    Lost fd c' := by
  obtain ⟨new, hnew, hsock, hledger⟩ := connect_done h
  have hne : new ≠ fd := fun heq => hnew (heq ▸ hfd)
  refine ⟨?_, by simp [hsock, hne]⟩
  split at hledger
  · rw [hledger.2, Ledger.held_acquire]
    exact Finset.mem_insert_of_mem hfd
  · rw [hledger.2, Ledger.held_release, Ledger.held_acquire]
    exact Finset.mem_erase.mpr ⟨hne.symm, Finset.mem_insert_of_mem hfd⟩

theorem run_reConnect (attempts : List Attempt) (c : TcpClient) :
    (reConnect attempts).run c = (reConnectLoop 1 attempts).run
      { c with client := { c.client with status := .connecting } } := rfl

theorem reConnectLoop_loses {cnt : Nat} {attempts rest : List Attempt} {c c' : TcpClient}
    {fd : Fd} (hfd : fd ∈ Ledger.held c.ledger)
    (h : (reConnectLoop cnt attempts).run c = .done rest c') : Lost fd c' := by
  induction attempts generalizing cnt c with
  | nil => cases h
  | cons attempt attempts ih =>
      rw [reConnectLoop, Proc.run_bind_eq_done] at h
      obtain ⟨_, c₁, hconnect, h⟩ := h
      have hlost := connect_loses hfd hconnect
      rw [Proc.run_get_bind] at h
      split at h
      · cases h
        exact hlost
      · split at h
        · cases h
          exact hlost
        · exact ih hlost.1 h

theorem round_loses {build : Build} {todo : Schedule} {r : Schedule ⊕ Unit}
    {c c' : TcpClient} {fd : Fd} (hfd : Lost fd c)
    (h : (round build todo).run c = .done r c') : Lost fd c' := by
  rw [round, Proc.run_get_bind] at h
  split at h
  · rw [Proc.run_bind_eq_done] at h
    obtain ⟨_, c₁, hconnect, h⟩ := h
    cases h
    exact connect_loses hfd.1 hconnect
  · rw [Proc.run_bind_eq_done] at h
    obtain ⟨_, c₁, hprocess, h⟩ := h
    cases h
    obtain ⟨client, -, rfl⟩ := Proc.run_onPart_eq_done.mp hprocess
    exact hfd
  · rw [Proc.run_bind_eq_done] at h
    obtain ⟨rest, c₁, hreconnect, h⟩ := h
    cases h
    rw [run_reConnect] at hreconnect
    refine reConnectLoop_loses ?_ hreconnect
    exact hfd.1
  · cases h
    cases hsock : c.sockfd with
    | none => exact ⟨by simpa [hsock] using hfd.1, by simp [hsock]⟩
    | some sock =>
        have hne : fd ≠ sock := fun heq => hfd.2 (heq ▸ hsock)
        exact ⟨by simp [hsock, hne, hfd.1], by simpa [hsock] using hne.symm⟩
  · cases h
    exact hfd
  · cases h

theorem execute_loses {build : Build} {rounds : Nat} {todo : Schedule} {c c' : TcpClient}
    {fd : Fd} (hfd : Lost fd c) (h : (execute build rounds todo).run c = .done () c') :
    Lost fd c' := by
  have hbody (todo : Schedule) : Proc.Triple (Lost fd) (round build todo)
      (fun _ => Lost fd) (fun _ _ => True) := by
    intro c hc
    cases hround : (round build todo).run c with
    | done r c₁ => exact round_loses hc hround
    | blocked c₁ => trivial
    | raised e c₁ => trivial
  have hrun : ((execute build rounds todo).run c).Ends (fun _ => Lost fd)
      (fun _ _ => True) := by
    refine Proc.Triple.iterate (I := fun _ => Lost fd) (fun todo => ?_)
      (fun _ _ _ => trivial) rounds todo c hfd
    refine (hbody todo).consequence (fun _ hc => hc) ?_ (fun _ _ hc => hc)
    intro r c hc
    cases r with
    | inl todo => exact hc
    | inr _ => exact hc
  rwa [h] at hrun

/-! ## Runs that return -/

/-- Nothing is open that `Connect` made, and `_sockfd` still has a number. -/
structure Idle (c : TcpClient) : Prop where
  settled : Ledger.Settled c.ledger
  stale : c.sockfd ≠ none

structure Holding (c : TcpClient) : Prop where
  sound : Ledger.Sound c.ledger
  held : ∃ fd, c.sockfd = some fd ∧ Ledger.held c.ledger = {fd}

theorem connect_settled {attempt : Attempt} {c c' : TcpClient}
    (hc : Ledger.Settled c.ledger) (h : (connect attempt).run c = .done () c') :
    if attempt.connected then c'.client.status = .connected ∧ Holding c'
    else c'.client.status = .disconnected ∧ Idle c' := by
  obtain ⟨fd, -, hsock, hledger⟩ := connect_done h
  have hacquired : Ledger.Sound (c.ledger ++ [.acquire fd]) ∧
      Ledger.held (c.ledger ++ [.acquire fd]) = {fd} := by
    simp [hc.sound, hc.empty]
  split at hledger
  · next hconnected =>
      rw [if_pos hconnected]
      refine ⟨hledger.1, ?_, fd, hsock, ?_⟩
      · rw [hledger.2]
        exact hacquired.1
      · rw [hledger.2]
        exact hacquired.2
  · next hconnected =>
      rw [if_neg hconnected]
      refine ⟨hledger.1, ⟨?_, ?_⟩, by simp [hsock]⟩
      · rw [hledger.2, Ledger.sound_release, hacquired.2]
        exact ⟨hacquired.1, by simp⟩
      · rw [hledger.2, Ledger.held_release, hacquired.2]
        simp

theorem reConnectLoop_settled {cnt : Nat} {attempts rest : List Attempt}
    {c c' : TcpClient} (hcnt : cnt ≤ retryMaxTimes) (hc : Ledger.Settled c.ledger)
    (h : (reConnectLoop cnt attempts).run c = .done rest c') :
    if (attempts.take (retryMaxTimes + 1 - cnt)).any Attempt.connected then
      c'.client.status = .connected ∧ Holding c'
    else c'.client.status = .close ∧ Idle c' := by
  induction attempts generalizing cnt c with
  | nil => cases h
  | cons attempt attempts ih =>
      rw [reConnectLoop, Proc.run_bind_eq_done] at h
      obtain ⟨_, c₁, hconnect, h⟩ := h
      have hsettled := connect_settled hc hconnect
      have htake : (attempt :: attempts).take (retryMaxTimes + 1 - cnt) =
          attempt :: attempts.take (retryMaxTimes + 1 - (cnt + 1)) := by
        rw [show retryMaxTimes + 1 - cnt = retryMaxTimes + 1 - (cnt + 1) + 1 by omega,
          List.take_succ_cons]
      rw [Proc.run_get_bind] at h
      rw [htake]
      cases hconnected : attempt.connected with
      | true =>
          rw [if_pos hconnected] at hsettled
          rw [if_pos hsettled.1] at h
          cases h
          rw [List.any_cons, hconnected, Bool.true_or, if_pos rfl]
          exact hsettled
      | false =>
          rw [if_neg (by simp [hconnected])] at hsettled
          rw [if_neg (by simp [hsettled.1])] at h
          rw [List.any_cons, hconnected, Bool.false_or]
          split at h
          · next hlast =>
              cases h
              rw [show retryMaxTimes + 1 - (cnt + 1) = 0 by omega, List.take_zero]
              exact ⟨rfl, hsettled.2.settled, hsettled.2.stale⟩
          · next hlast => exact ih (by omega) hsettled.2.settled h

section Execute

variable {build : Build} {rounds : Nat} {c c' : TcpClient}

theorem execute_first {todo : Schedule}
    (h : (execute build rounds todo).run c = .done () c') :
    ∃ rounds' r c₁, (round build todo).run c = .done r c₁ ∧
      r.elim (fun todo' => (execute build rounds' todo').run c₁ = .done () c')
        (fun _ => c₁ = c') := by
  cases rounds with
  | zero => cases h
  | succ rounds =>
      rw [execute, Proc.iterate, Proc.run_bind_eq_done] at h
      obtain ⟨r, c₁, hround, h⟩ := h
      refine ⟨rounds, r, c₁, hround, ?_⟩
      cases r with
      | inl todo' => exact h
      | inr _ =>
          cases h
          rfl

theorem execute_close {todo : Schedule} (hstatus : c.client.status = .close)
    (h : (execute build rounds todo).run c = .done () c') :
    c'.ledger = c.ledger ++ c.sockfd.toList.map .release := by
  obtain ⟨rounds', r, c₁, hround, h⟩ := execute_first h
  rw [round, Proc.run_get_bind, hstatus] at hround
  cases hround
  cases h
  cases hsock : c.sockfd with
  | none => simp [hsock]
  | some fd => simp [hsock]

theorem execute_close_idle {todo : Schedule} (hstatus : c.client.status = .close)
    (hidle : Idle c) (h : (execute build rounds todo).run c = .done () c') :
    ¬ Ledger.Settled c'.ledger := by
  intro hsettled
  obtain ⟨fd, hfd⟩ := Option.ne_none_iff_exists'.mp hidle.stale
  have hsound := hsettled.sound
  rw [execute_close hstatus h, hfd, Option.toList_some, List.map_singleton,
    Ledger.sound_release, hidle.settled.empty] at hsound
  exact absurd hsound.2 (by simp)

theorem execute_close_holding {todo : Schedule} (hstatus : c.client.status = .close)
    (hholding : Holding c) (h : (execute build rounds todo).run c = .done () c') :
    Ledger.Settled c'.ledger := by
  obtain ⟨fd, hfd, hheld⟩ := hholding.held
  rw [execute_close hstatus h, hfd, Option.toList_some, List.map_singleton]
  constructor
  · simp [hholding.sound, hheld]
  · simp [hheld]

/-- A lost connection is opened again without having been closed. -/
theorem execute_disconnected_holding {todo : Schedule}
    (hstatus : c.client.status = .disconnected) (hholding : Holding c)
    (h : (execute build rounds todo).run c = .done () c') :
    ¬ Ledger.Settled c'.ledger := by
  obtain ⟨fd, -, hheld⟩ := hholding.held
  have hfd : fd ∈ Ledger.held c.ledger := by simp [hheld]
  obtain ⟨rounds', r, c₁, hround, h⟩ := execute_first h
  rw [round, Proc.run_get_bind, hstatus] at hround
  dsimp only at hround
  rw [Proc.run_bind_eq_done] at hround
  obtain ⟨rest, c₂, hreconnect, hround⟩ := hround
  cases hround
  rw [run_reConnect] at hreconnect
  have hlost : Lost fd c₁ := by
    refine reConnectLoop_loses ?_ hreconnect
    exact hfd
  have hleft := (execute_loses hlost h).1
  intro hsettled
  rw [hsettled.empty] at hleft
  exact absurd hleft (by simp)

theorem execute_connected {todo : Schedule} (hstatus : c.client.status = .connected)
    (hholding : Holding c) (h : (execute build rounds todo).run c = .done () c') :
    Ledger.Settled c'.ledger ↔
      ∃ turns rest, todo.conversations = turns :: rest ∧ ending turns = some .close := by
  obtain ⟨rounds', r, c₁, hround, h⟩ := execute_first h
  obtain ⟨attempts, conversations⟩ := todo
  rw [round, Proc.run_get_bind, hstatus] at hround
  cases conversations with
  | nil => cases hround
  | cons turns conversations =>
      dsimp only at hround
      rw [Proc.run_bind_eq_done] at hround
      obtain ⟨_, c₂, hprocess, hround⟩ := hround
      cases hround
      obtain ⟨client, hclient, rfl⟩ := Proc.run_onPart_eq_done.mp hprocess
      have hending := process_ending hclient
      have hholding' : Holding { c with client } := ⟨hholding.sound, hholding.held⟩
      rcases ending_cases hending with hlost | hclosed
      · have hnot := execute_disconnected_holding hlost hholding' h
        refine iff_of_false hnot ?_
        rintro ⟨turns', rest, heq, hsend⟩
        cases heq
        rw [hending, hlost] at hsend
        cases hsend
      · refine iff_of_true (execute_close_holding hclosed hholding' h) ?_
        exact ⟨turns, conversations, rfl, hclosed ▸ hending⟩

end Execute

/-- One of the first six calls of `connect` succeeds, and in the conversation
that follows a `Send` fails before any `Recv` does. -/
def EndsBySend (todo : Schedule) : Prop :=
  (todo.attempts.take (retryMaxTimes + 1)).any Attempt.connected = true ∧
    ∃ turns rest, todo.conversations = turns :: rest ∧ ending turns = some .close

theorem execute_disconnected {build : Build} {rounds : Nat} {todo : Schedule}
    {c c' : TcpClient} (hstatus : c.client.status = .disconnected)
    (hsettled : Ledger.Settled c.ledger)
    (h : (execute build rounds todo).run c = .done () c') :
    Ledger.Settled c'.ledger ↔
      (todo.attempts.take retryMaxTimes).any Attempt.connected = true ∧
        ∃ turns rest, todo.conversations = turns :: rest ∧
          ending turns = some .close := by
  obtain ⟨rounds', r, c₁, hround, h⟩ := execute_first h
  rw [round, Proc.run_get_bind, hstatus] at hround
  dsimp only at hround
  rw [Proc.run_bind_eq_done] at hround
  obtain ⟨rest, c₂, hreconnect, hround⟩ := hround
  cases hround
  rw [run_reConnect] at hreconnect
  have hloop := reConnectLoop_settled
    (c := { c with client := { c.client with status := .connecting } })
    (show 1 ≤ retryMaxTimes by decide) hsettled hreconnect
  rw [show retryMaxTimes + 1 - 1 = retryMaxTimes from rfl] at hloop
  split at hloop
  · next hany =>
      rw [execute_connected hloop.1 hloop.2 h, hany]
      simp
  · next hany =>
      exact iff_of_false (execute_close_idle hloop.1 hloop.2 h) fun hends => hany hends.1

def start (others : Finset Fd) : TcpClient := { others }

theorem life_cycle_iff (build : Build) {rounds : Nat} {todo : Schedule}
    {others : Finset Fd} {c : TcpClient}
    (h : (execute build rounds todo).run (start others) = .done () c) :
    Ledger.Settled c.ledger ↔ EndsBySend todo := by
  have hstart : Ledger.Settled (start others).ledger := ⟨Ledger.sound_nil, rfl⟩
  obtain ⟨rounds', r, c₁, hround, h⟩ := execute_first h
  obtain ⟨attempts, conversations⟩ := todo
  rw [round, Proc.run_get_bind] at hround
  cases attempts with
  | nil => cases hround
  | cons attempt attempts =>
      change (connect attempt >>= fun _ => pure (.inl ⟨attempts, conversations⟩)).run
        (start others) = .done r c₁ at hround
      rw [Proc.run_bind_eq_done] at hround
      obtain ⟨_, c₂, hconnect, hround⟩ := hround
      cases hround
      have hsettled := connect_settled hstart hconnect
      unfold EndsBySend
      rw [List.take_succ_cons, List.any_cons]
      split at hsettled
      · next hconnected =>
          rw [execute_connected hsettled.1 hsettled.2 h, hconnected]
          simp
      · next hconnected =>
          rw [execute_disconnected hsettled.1 hsettled.2.settled h,
            Bool.eq_false_iff.mpr hconnected, Bool.false_or]

/-! ## Two runs -/

def succeeds : Attempt := ⟨some .above, true⟩

def fails : Attempt := ⟨some .above, false⟩

def sendFails : Turn := ⟨(1, 2, 3), .fail 32, .eof⟩

theorem life_cycle_iff_second :
    ∃ c, (execute .self 4 ⟨[fails, succeeds], [[sendFails]]⟩).run (start {0, 1, 2}) =
      .done () c ∧ Ledger.Settled c.ledger := by
  have hrun : (execute .self 4 ⟨[fails, succeeds], [[sendFails]]⟩).run
      (start {0, 1, 2}) = .done () _ := Outcome.eq_done_of_isDone (by decide)
  exact ⟨_, hrun, (life_cycle_iff .self hrun).mpr
    ⟨by decide, [sendFails], [], rfl, rfl⟩⟩

/-- No `connect` ever succeeds: the last descriptor is closed twice. -/
theorem closed_twice :
    ¬ ∀ (rounds : Nat) (todo : Schedule) (others : Finset Fd) (c : TcpClient),
      (execute .self rounds todo).run (start others) = .done () c →
        Ledger.Settled c.ledger := by
  intro h
  have hrun : (execute .self 3 ⟨List.replicate 6 fails, []⟩).run (start {0, 1, 2}) =
      .done () _ := Outcome.eq_done_of_isDone (by decide)
  have hsound := (h _ _ _ _ hrun).sound
  revert hsound
  decide

end TcpClient

end LinuxAdvance.Calculator
