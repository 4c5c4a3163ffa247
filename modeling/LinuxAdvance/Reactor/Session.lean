import LinuxAdvance.Foundation.Triple
import LinuxAdvance.Reactor.PackageParse

/-!
# One client connection by itself

The handlers of a connection touch nothing but the connection and its entry in
the reactor.  A `Session` is one connection with the fact that it is registered
and the history of what was done on it; the handlers run on it through the same
operations as on the reactor's heap.  Reading or writing a connection that has
been removed is an error here as it is there.
-/

namespace LinuxAdvance.Reactor

open LinuxAdvance.Foundation
open LinuxAdvance.Cxx
open LinuxAdvance.System
open LinuxAdvance.Calculator

structure Session where
  conn : Connection
  registered : Bool := true
  history : List IoEvent := []
  deriving DecidableEq, Repr

namespace Session

def receivedBytes (s : Session) : Bytes := s.history.flatMap IoEvent.receivedBytes

def sentBytes (s : Session) : Bytes := s.history.flatMap IoEvent.sentBytes

def rounds (s : Session) : List Round := s.history.filterMap IoEvent.round

def appendedBytes (s : Session) : Bytes := s.rounds.flatMap Round.frame

/-- What `AddConnection` registers for a descriptor `Accepter` returned. -/
def opened (fd : Fd) : Session where
  conn := (({ sockfd := fd } : Connection).setEvent (epollIn ||| epollEt)
    |>.register (some .handlerRecv) (some .handlerSend) (some .handlerExcept)).setSelf

def live : Proc Fault Session Connection := do
  let s ← Proc.get
  if s.registered then
    return s.conn
  else
    Proc.raise .useAfterFree

def reactorOf (conn : Connection) : Proc Fault Session Unit :=
  if conn.attached then pure () else Proc.raise .nullPointer

def api : ConnApi Session where
  deref := live
  setInbuffer inbuffer := do
    let conn ← live
    Proc.modify fun s => { s with conn := { conn with inbuffer } }
  setOutbuffer outbuffer := do
    let conn ← live
    Proc.modify fun s => { s with conn := { conn with outbuffer } }
  enableReadWrite wr rd := do
    let conn ← live
    reactorOf conn
    Proc.modify fun s => { s with conn := conn.setEvent (readWriteMask wr rd) }
  removeConnection := do
    let conn ← live
    reactorOf conn
    Proc.modify fun s => { s with registered := false }
  record e := Proc.modify fun s => { s with history := s.history ++ [e] }

/-- The callbacks and the pointer to the reactor that `AddConnection` sets for a
client. -/
structure Wired (conn : Connection) : Prop where
  recver : conn.recver = some .handlerRecv
  sender : conn.sender = some .handlerSend
  excepter : conn.excepter = some .handlerExcept
  attached : conn.attached = true

theorem Wired.update {conn : Connection} (h : Wired conn) (inbuffer outbuffer : Bytes)
    (events : Mask) : Wired { conn with inbuffer, outbuffer, events } :=
  ⟨h.recver, h.sender, h.excepter, h.attached⟩

/-! ## Its operations -/

section Run

variable {s : Session}

theorem run_live (h : s.registered = true) : live.run s = .done s.conn s := by
  simp [live, h]

theorem run_deref (h : s.registered = true) :
    api.deref.run s = .done s.conn s := run_live h

theorem run_inbuffer (h : s.registered = true) :
    api.inbuffer.run s = .done s.conn.inbuffer s := by
  rw [ConnApi.inbuffer, Proc.run_bind_done (run_deref h)]
  rfl

theorem run_setInbuffer (h : s.registered = true) (inbuffer : Bytes) :
    (api.setInbuffer inbuffer).run s =
      .done () { s with conn := { s.conn with inbuffer } } := by
  simp only [api]
  rw [Proc.run_bind_done (run_live h)]
  rfl

theorem run_setOutbuffer (h : s.registered = true) (outbuffer : Bytes) :
    (api.setOutbuffer outbuffer).run s =
      .done () { s with conn := { s.conn with outbuffer } } := by
  simp only [api]
  rw [Proc.run_bind_done (run_live h)]
  rfl

theorem run_appendInbuff (h : s.registered = true) (buff : Bytes) :
    (api.appendInbuff buff).run s =
      .done () { s with conn := { s.conn with inbuffer := s.conn.inbuffer ++ buff } } := by
  rw [ConnApi.appendInbuff, Proc.run_bind_done (run_deref h), run_setInbuffer h]

theorem run_appendOutbuff (h : s.registered = true) (buff : Bytes) :
    (api.appendOutbuff buff).run s =
      .done () { s with
        conn := { s.conn with outbuffer := s.conn.outbuffer ++ buff } } := by
  rw [ConnApi.appendOutbuff, Proc.run_bind_done (run_deref h), run_setOutbuffer h]

theorem run_outBufferRemove (h : s.registered = true) (n : Int32) :
    (api.outBufferRemove n).run s =
      .done () { s with
        conn := { s.conn with outbuffer := s.conn.outbuffer.drop (sizeOfInt n) } } := by
  rw [ConnApi.outBufferRemove, Proc.run_bind_done (run_deref h), run_setOutbuffer h]
  rfl

theorem run_enableReadWrite (h : s.registered = true)
    (hattached : s.conn.attached = true) (wr rd : Bool) :
    (api.enableReadWrite wr rd).run s =
      .done () { s with conn := s.conn.setEvent (readWriteMask wr rd) } := by
  simp only [api]
  rw [Proc.run_bind_done (run_live h), reactorOf, if_pos hattached]
  rfl

theorem run_removeConnection (h : s.registered = true)
    (hattached : s.conn.attached = true) :
    api.removeConnection.run s = .done () { s with registered := false } := by
  simp only [api]
  rw [Proc.run_bind_done (run_live h), reactorOf, if_pos hattached]
  rfl

theorem run_record (e : IoEvent) :
    (api.record e).run s = .done () { s with history := s.history ++ [e] } := rfl

def removed (s : Session) : Session :=
  { s with registered := false, history := s.history ++ [.excepted] }

theorem run_callExcepter (h : s.registered = true) (hwired : Wired s.conn) :
    (callExcepter api).run s = .done () s.removed := by
  rw [callExcepter, Proc.run_bind_done (run_deref h), hwired.excepter]
  dsimp only [handlerExcept]
  rw [Proc.run_bind_done (run_record _), run_removeConnection (by exact h)
    (by exact hwired.attached)]
  rfl

end Run

/-! ## Sending -/

/-- Sending touches the output side only, and moves bytes from the buffer to
the peer without losing any. -/
structure Sends (s s' : Session) : Prop where
  received : s'.receivedBytes = s.receivedBytes
  rounds : s'.rounds = s.rounds
  ledger : s'.sentBytes ++ s'.conn.outbuffer = s.sentBytes ++ s.conn.outbuffer
  conn : ∃ outbuffer events, s'.conn = { s.conn with outbuffer, events }

theorem Sends.refl (s : Session) : Sends s s :=
  ⟨rfl, rfl, rfl, s.conn.outbuffer, s.conn.events, rfl⟩

theorem Sends.trans {s s' s'' : Session} (h : Sends s s') (h' : Sends s' s'') :
    Sends s s'' := by
  obtain ⟨out, events, hconn⟩ := h.conn
  obtain ⟨out', events', hconn'⟩ := h'.conn
  refine ⟨h'.received.trans h.received, h'.rounds.trans h.rounds,
    h'.ledger.trans h.ledger, out', events', ?_⟩
  rw [hconn', hconn]

theorem Sends.inbuffer {s s' : Session} (h : Sends s s') :
    s'.conn.inbuffer = s.conn.inbuffer := by
  obtain ⟨out, events, hconn⟩ := h.conn
  rw [hconn]

theorem Sends.sockfd {s s' : Session} (h : Sends s s') :
    s'.conn.sockfd = s.conn.sockfd := by
  obtain ⟨out, events, hconn⟩ := h.conn
  rw [hconn]

theorem Sends.wired {s s' : Session} (h : Sends s s') (hw : Wired s.conn) :
    Wired s'.conn := by
  obtain ⟨out, events, hconn⟩ := h.conn
  rw [hconn]
  exact hw.update _ _ _

/-- The events registered say whether there is output waiting. -/
structure Settled (conn : Connection) : Prop where
  reads : conn.events &&& epollIn ≠ 0
  edge : conn.events &&& epollEt ≠ 0
  writes : conn.events &&& epollOut ≠ 0 ↔ conn.outbuffer ≠ []

theorem settled_setEvent (conn : Connection) (wr : Bool)
    (h : wr = true ↔ conn.outbuffer ≠ []) :
    Settled (conn.setEvent (readWriteMask wr true)) :=
  ⟨readWriteMask_in wr, readWriteMask_et wr true, (readWriteMask_out wr true).trans h⟩

theorem run_toggleWrite {s : Session} (h : s.registered = true)
    (hwired : Wired s.conn) :
    ∃ s', (toggleWrite api).run s = .done () s' ∧ Sends s s' ∧
      s'.registered = true ∧ Settled s'.conn := by
  rw [toggleWrite, Proc.run_bind_done (run_deref h)]
  by_cases hout : s.conn.outbuffer = []
  · rw [if_neg (not_not_intro hout), run_enableReadWrite h hwired.attached]
    refine ⟨_, rfl, ⟨rfl, rfl, rfl, _, _, rfl⟩, h, settled_setEvent _ _ ?_⟩
    simp [hout]
  · rw [if_pos hout, run_enableReadWrite h hwired.attached]
    refine ⟨_, rfl, ⟨rfl, rfl, rfl, _, _, rfl⟩, h, settled_setEvent _ _ ?_⟩
    simp [hout]

theorem sends_removed (s : Session) : Sends s s.removed := by
  refine ⟨?_, ?_, ?_, s.conn.outbuffer, s.conn.events, rfl⟩ <;>
    simp [removed, receivedBytes, rounds, sentBytes, IoEvent.receivedBytes,
      IoEvent.round, IoEvent.sentBytes]

theorem sends_sendFailed (s : Session) (errno : Nat) :
    Sends s { s with history := s.history ++ [.sendFailed errno] } := by
  refine ⟨?_, ?_, ?_, s.conn.outbuffer, s.conn.events, rfl⟩ <;>
    simp [receivedBytes, rounds, sentBytes, IoEvent.receivedBytes,
      IoEvent.round, IoEvent.sentBytes]

def afterSend (s : Session) (n : Nat) : Session :=
  { s with
    conn := { s.conn with outbuffer := s.conn.outbuffer.drop n }
    history := s.history ++ [.sent (s.conn.outbuffer.take n)] }

theorem sends_afterSend (s : Session) (n : Nat) : Sends s (s.afterSend n) := by
  refine ⟨?_, ?_, ?_, s.conn.outbuffer.drop n, s.conn.events, rfl⟩ <;>
    simp [afterSend, receivedBytes, rounds, sentBytes, IoEvent.receivedBytes,
      IoEvent.round, IoEvent.sentBytes]

theorem sendLoop_sent {s : Session} (h : s.registered = true) (room : Nat)
    (results : List SendResult) :
    (sendLoop api (.sent room :: results)).run s =
      let s' := s.afterSend (sendCount room s.conn.outbuffer.length)
      if 0 < sendCount room s.conn.outbuffer.length ∧ s'.conn.outbuffer ≠ [] then
        (sendLoop api results).run s'
      else
        (toggleWrite api).run s' := by
  have hcast : sizeOfInt (Int32.ofNat (sendCount room s.conn.outbuffer.length)) =
      sendCount room s.conn.outbuffer.length :=
    sizeOfInt_intOfSize (sendCount_lt _ _)
  rw [sendLoop, Proc.run_bind_done (run_deref h)]
  dsimp only
  rw [Proc.run_bind_done (run_record _)]
  by_cases hn : 0 < sendCount room s.conn.outbuffer.length
  · rw [if_pos hn, Proc.run_bind_done (run_outBufferRemove (by exact h) _), hcast,
      Proc.run_bind_done (run_deref (by exact h))]
    by_cases hout : (s.conn.outbuffer.drop
        (sendCount room s.conn.outbuffer.length)) = []
    · rw [if_pos hout, if_neg (fun hand => hand.2 hout)]
      rfl
    · rw [if_neg hout, if_pos ⟨hn, hout⟩]
      rfl
  · rw [if_neg hn, if_neg (fun hand => hn hand.1)]
    have hzero : sendCount room s.conn.outbuffer.length = 0 := by omega
    rw [afterSend, hzero]
    rfl

theorem sendLoop_fail {s : Session} (h : s.registered = true) (errno : Nat)
    (results : List SendResult) :
    (sendLoop api (.fail errno :: results)).run s =
      let s' := { s with history := s.history ++ [.sendFailed errno] }
      if errno = ewouldblock ∨ errno = eagain then (toggleWrite api).run s'
      else if errno = eintr then (sendLoop api results).run s'
      else (callExcepter api).run s' := by
  rw [sendLoop, Proc.run_bind_done (run_deref h), Proc.run_bind_done (run_record _)]
  split
  · rfl
  split
  · rfl
  · rfl

/-- `HandlerSend` as a whole: the connection is settled or removed when it
returns, it raises nothing, and no byte is lost however it ends. -/
theorem handlerSend_ends (results : List SendResult) {s : Session}
    (h : s.registered = true) (hwired : Wired s.conn) :
    ((handlerSend api results).run s).Ends
      (fun _ s' => Sends s s' ∧ (s'.registered = true → Settled s'.conn))
      (fun e s' => e = none ∧ Sends s s') := by
  unfold handlerSend
  induction results generalizing s with
  | nil => exact ⟨rfl, Sends.refl s⟩
  | cons result results ih =>
      -- one call of `send`, then the rest of the loop or its end
      have goesOn : ∀ s₁, Sends s s₁ → s₁.registered = true →
          ((sendLoop api results).run s₁).Ends
            (fun _ s' => Sends s s' ∧ (s'.registered = true → Settled s'.conn))
            (fun e s' => e = none ∧ Sends s s') := by
        intro s₁ hs₁ h₁
        exact (ih h₁ (hs₁.wired hwired)).mono
          (fun _ s' hs' => ⟨hs₁.trans hs'.1, hs'.2⟩)
          (fun _ s' hs' => ⟨hs'.1, hs₁.trans hs'.2⟩)
      have toggles : ∀ s₁, Sends s s₁ → s₁.registered = true →
          ((toggleWrite api).run s₁).Ends
            (fun _ s' => Sends s s' ∧ (s'.registered = true → Settled s'.conn))
            (fun e s' => e = none ∧ Sends s s') := by
        intro s₁ hs₁ h₁
        obtain ⟨s', hrun, hs', -, hsettled⟩ :=
          run_toggleWrite h₁ (hs₁.wired hwired)
        rw [hrun]
        exact ⟨hs₁.trans hs', fun _ => hsettled⟩
      cases result with
      | sent room =>
          rw [sendLoop_sent h]
          dsimp only
          split
          · exact goesOn _ (sends_afterSend s _) h
          · exact toggles _ (sends_afterSend s _) h
      | fail errno =>
          rw [sendLoop_fail h]
          dsimp only
          split
          · exact toggles _ (sends_sendFailed s errno) h
          split
          · exact goesOn _ (sends_sendFailed s errno) h
          · rw [run_callExcepter (by exact h) (by exact hwired)]
            refine ⟨(sends_sendFailed s errno).trans (sends_removed _), ?_⟩
            simp [removed]

def Retryable : SendResult → Prop
  | .sent _ => True
  | .fail errno => errno = eintr ∨ errno = eagain

/-- Answers of `send` none of which ends the connection, and which do not run
out: when the socket takes no more it says so. -/
def Patient (results : List SendResult) : Prop :=
  (∀ r ∈ results, Retryable r) ∧ .fail eagain ∈ results

theorem handlerSend_returns {results : List SendResult} (hpatient : Patient results)
    {s : Session} (h : s.registered = true) (hwired : Wired s.conn) :
    ∃ s', (handlerSend api results).run s = .done () s' ∧ Sends s s' ∧
      s'.registered = true ∧ Settled s'.conn := by
  unfold handlerSend
  obtain ⟨hall, hmem⟩ := hpatient
  induction results generalizing s with
  | nil => simp at hmem
  | cons result results ih =>
      have goesOn : ∀ s₁, Sends s s₁ → s₁.registered = true →
          .fail eagain ∈ results →
          ∃ s', (sendLoop api results).run s₁ = .done () s' ∧ Sends s s' ∧
            s'.registered = true ∧ Settled s'.conn := by
        intro s₁ hs₁ h₁ hin
        obtain ⟨s', hrun, hs', hrest⟩ :=
          ih h₁ (hs₁.wired hwired) (fun r hr => hall r (by simp [hr])) hin
        exact ⟨s', hrun, hs₁.trans hs', hrest⟩
      have toggles : ∀ s₁, Sends s s₁ → s₁.registered = true →
          ∃ s', (toggleWrite api).run s₁ = .done () s' ∧ Sends s s' ∧
            s'.registered = true ∧ Settled s'.conn := by
        intro s₁ hs₁ h₁
        obtain ⟨s', hrun, hs', hrest⟩ := run_toggleWrite h₁ (hs₁.wired hwired)
        exact ⟨s', hrun, hs₁.trans hs', hrest⟩
      cases result with
      | sent room =>
          rw [sendLoop_sent h]
          dsimp only
          split
          · exact goesOn _ (sends_afterSend s _) h (by simpa using hmem)
          · exact toggles _ (sends_afterSend s _) h
      | fail errno =>
          rw [sendLoop_fail h]
          dsimp only
          split
          · exact toggles _ (sends_sendFailed s errno) h
          · next hnot =>
            have hintr : errno = eintr :=
              (hall (.fail errno) (by simp)).resolve_right fun he => hnot (.inr he)
            rw [if_pos hintr]
            refine goesOn _ (sends_sendFailed s errno) h ?_
            refine (List.mem_cons.mp hmem).resolve_left fun heq => hnot (.inr ?_)
            exact (SendResult.fail.inj heq).symm

end Session

end LinuxAdvance.Reactor
