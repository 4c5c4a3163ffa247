import LinuxAdvance.Foundation.Answers
import LinuxAdvance.Reactor.LoopOnce

/-!
# Edge-triggered readiness

With `EPOLLET` the kernel reports a descriptor once, so a handler has to go on
until a call fails with `EAGAIN`.  Here is what the last call of each handler
was, on any heap and for a kernel that may refuse any `epoll_ctl`.
-/

namespace LinuxAdvance.Reactor

open LinuxAdvance.Foundation
open LinuxAdvance.Cxx
open LinuxAdvance.System
open LinuxAdvance.Calculator

namespace World

open Proc (LastAnswer)

def Owns (p : Ptr) (k : Fd) (w : World) : Prop :=
  ∃ conn, w.heap p = some conn ∧ conn.sockfd = k

def recorded (w : World) (p : Ptr) (e : IoEvent) : World :=
  { w with traces := Function.update w.traces p (w.traces p ++ [e]) }

def holding (w : World) (p : Ptr) (conn : Connection) : World :=
  { w with heap := Function.update w.heap p (some conn) }

theorem heap_holding (w : World) (p : Ptr) (conn : Connection) :
    (w.holding p conn).heap p = some conn := Function.update_self ..

section Handlers

variable {refuses : Nat → Bool} {p : Ptr} {k : Fd} {w w' : World}

theorem run_record (e : IoEvent) (w : World) :
    ((api refuses p).record e).run w = .done () (w.recorded p e) := rfl

theorem run_api_deref {conn : Connection} (h : w.heap p = some conn) :
    (api refuses p).deref.run w = .done conn w := run_deref h

theorem run_appendInbuff {conn : Connection} (h : w.heap p = some conn) (buff : Bytes) :
    ((api refuses p).appendInbuff buff).run w =
      .done () (w.holding p { conn with inbuffer := conn.inbuffer ++ buff }) := by
  rw [ConnApi.appendInbuff, Proc.run_bind_done (run_api_deref h)]
  change (deref p >>= fun c =>
    store p { c with inbuffer := conn.inbuffer ++ buff }).run w = _
  rw [Proc.run_bind_done (run_deref h), run_store h]
  rfl

theorem run_outBufferRemove {conn : Connection} (h : w.heap p = some conn) (n : Int32) :
    ((api refuses p).outBufferRemove n).run w =
      .done () (w.holding p
        { conn with outbuffer := conn.outbuffer.drop (sizeOfInt n) }) := by
  rw [ConnApi.outBufferRemove, Proc.run_bind_done (run_api_deref h)]
  change (deref p >>= fun c =>
    store p { c with outbuffer := conn.outbuffer.drop (sizeOfInt n) }).run w = _
  rw [Proc.run_bind_done (run_deref h), run_store h]
  rfl

/-! ## `HandlerExcept` -/

theorem removeConnection_gone (h : (removeConnection refuses k).run w = .done () w') :
    w'.connections k = none := by
  rw [removeConnection, Proc.run_get_bind] at h
  cases hentry : w.connections k with
  | none =>
      rw [hentry] at h
      cases h
      exact hentry
  | some q =>
      rw [hentry] at h
      obtain ⟨_, w₁, -, h⟩ := Proc.run_bind_eq_done.mp h
      obtain ⟨_, w₂, -, h⟩ := Proc.run_bind_eq_done.mp h
      obtain ⟨_, w₃, -, h⟩ := Proc.run_bind_eq_done.mp h
      cases h
      exact Function.update_self ..

theorem callExcepter_gone (hk : Owns p k w)
    (h : (callExcepter (api refuses p)).run w = .done () w') :
    w'.connections k = none := by
  obtain ⟨conn, hheap, rfl⟩ := hk
  rw [callExcepter, Proc.run_bind_done (run_api_deref hheap)] at h
  cases hexcepter : conn.excepter with
  | none =>
      rw [hexcepter] at h
      cases h
  | some e =>
      cases e with
      | handlerExcept =>
          rw [hexcepter] at h
          dsimp only [handlerExcept] at h
          rw [Proc.run_bind_done (run_record _ _)] at h
          change (deref p >>= fun c => reactorOf c >>= fun _ =>
            removeConnection refuses c.sockfd).run _ = _ at h
          rw [Proc.run_bind_done (run_deref (by exact hheap))] at h
          obtain ⟨_, w₁, -, h⟩ := Proc.run_bind_eq_done.mp h
          exact removeConnection_gone h

/-! ## `HandlerRecv` -/

variable (refuses) in
theorem recvLoop_data (hk : Owns p k w) (func : Proc Fault World Unit) (chunk : Chunk) :
    ∃ w₁, Owns p k w₁ ∧ ∀ results errno,
      (recvLoop (api refuses p) func (.data chunk :: results) errno).run w =
        (recvLoop (api refuses p) func results errno).run w₁ := by
  obtain ⟨conn, hheap, rfl⟩ := hk
  refine ⟨(w.recorded p (.received (.data chunk))).holding p
      { conn with inbuffer := conn.inbuffer ++ ofCString chunk.bytes },
    ⟨_, heap_holding _ _ _, rfl⟩, fun results errno => ?_⟩
  rw [recvLoop, Proc.run_bind_done (run_api_deref hheap), Proc.run_bind_done (run_record _ _),
    Proc.run_bind_done (run_appendInbuff (by exact hheap) _)]

variable (refuses) in
theorem recvLoop_stopped (hk : Owns p k w) (func : Proc Fault World Unit)
    {result : RecvResult} (hdata : ∀ chunk, result ≠ .data chunk) :
    ∃ w₁, Owns p k w₁ ∧ ∀ results errno,
      (recvLoop (api refuses p) func (result :: results) errno).run w =
        (recvStopped (api refuses p) func
          (recvLoop (api refuses p) func results (errnoAfter errno result))
          (errnoAfter errno result)).run w₁ := by
  obtain ⟨conn, hheap, rfl⟩ := hk
  refine ⟨w.recorded p (.received result), ⟨conn, hheap, rfl⟩, fun results errno => ?_⟩
  cases result with
  | data chunk => exact absurd rfl (hdata chunk)
  | eof =>
      rw [recvLoop, Proc.run_bind_done (run_api_deref hheap),
        Proc.run_bind_done (run_record _ _)]
      simp
  | fail e =>
      rw [recvLoop, Proc.run_bind_done (run_api_deref hheap),
        Proc.run_bind_done (run_record _ _)]
      simp

theorem eq_fail_of_errnoAfter {result : RecvResult} {errno : Nat} (herrno : errno ≠ eagain)
    (hdata : ∀ chunk, result ≠ .data chunk) (h : errnoAfter errno result = eagain) :
    result = .fail eagain := by
  cases result with
  | data chunk => exact absurd rfl (hdata chunk)
  | eof => exact absurd h herrno
  | fail e => exact congrArg _ h

/-- `errno` is never `EAGAIN` but from the `recv` just made: a call that had it
before would have left the loop. -/
theorem recvLoop_drained {func : Proc Fault World Unit} {results : List RecvResult}
    {errno : Nat} (hk : Owns p k w) (herrno : errno ≠ eagain)
    (hrun : (recvLoop (api refuses p) func results errno).run w = .done () w')
    (hreg : w'.connections k ≠ none) :
    LastAnswer (fun rs => recvLoop (api refuses p) func rs errno) w results
      (.fail eagain) := by
  induction results generalizing w errno with
  | nil => cases hrun
  | cons result results ih =>
      have again : ∀ {errno₁ w₁}, errno₁ ≠ eagain → Owns p k w₁ →
          (∀ more, (recvLoop (api refuses p) func (result :: more) errno).run w =
            (recvLoop (api refuses p) func more errno₁).run w₁) →
          LastAnswer (fun rs => recvLoop (api refuses p) func rs errno) w
            (result :: results) (.fail eagain) := by
        intro errno₁ w₁ herrno₁ hk₁ hmore
        rw [hmore] at hrun
        exact LastAnswer.later hmore (ih hk₁ herrno₁ hrun)
      by_cases hdata : ∃ chunk, result = .data chunk
      · obtain ⟨chunk, rfl⟩ := hdata
        obtain ⟨w₁, hk₁, hstep⟩ := recvLoop_data refuses hk func chunk
        exact again herrno hk₁ fun more => hstep more errno
      have hno : ∀ chunk, result ≠ .data chunk := fun chunk h => hdata ⟨chunk, h⟩
      obtain ⟨w₁, hk₁, hstep⟩ := recvLoop_stopped refuses hk func hno
      simp only [recvStopped] at hstep
      by_cases hagain : errnoAfter errno result = eagain
      · obtain rfl := eq_fail_of_errnoAfter herrno hno hagain
        simp only [errnoAfter, or_true, if_true] at hstep
        refine LastAnswer.here (by simp [recvLoop]) ?_
        rw [hstep] at hrun ⊢
        simp [hrun]
      have hnot : ¬ (errnoAfter errno result = ewouldblock ∨
          errnoAfter errno result = eagain) := fun h => hagain (h.elim id id)
      by_cases hintr : errnoAfter errno result = eintr
      · refine again hagain hk₁ fun more => ?_
        rw [hstep, if_neg hnot, if_pos hintr]
      · rw [hstep, if_neg hnot, if_neg hintr] at hrun
        exact absurd (callExcepter_gone hk₁ hrun) hreg

/-! ## `HandlerSend` -/

theorem enableReadWrite_keeps {conn : Connection} (hheap : w.heap p = some conn)
    {wr rd : Bool} {fd : Fd} (h : (enableReadWrite refuses fd wr rd).run w = .done () w') :
    ∃ conn', w'.heap p = some conn' ∧ conn'.outbuffer = conn.outbuffer := by
  cases hentry : w.connections fd with
  | none =>
      rw [run_enableReadWrite_none refuses hentry] at h
      cases h
      exact ⟨conn, hheap, rfl⟩
  | some q =>
      cases hq : w.heap q with
      | none =>
          rw [enableReadWrite, Proc.run_get_bind, hentry] at h
          dsimp only at h
          rw [Proc.run_bind_raised (run_deref_none hq)] at h
          cases h
      | some c =>
          rw [run_enableReadWrite_toggled refuses hentry hq] at h
          cases h
          by_cases hpq : p = q
          · subst hpq
            obtain rfl : conn = c := Option.some.inj (hheap.symm.trans hq)
            exact ⟨_, Function.update_self .., rfl⟩
          · exact ⟨conn, (Function.update_of_ne hpq ..).trans hheap, rfl⟩

theorem toggleWrite_keeps {conn : Connection} (hheap : w.heap p = some conn)
    (h : (toggleWrite (api refuses p)).run w = .done () w') :
    ∃ conn', w'.heap p = some conn' ∧ conn'.outbuffer = conn.outbuffer := by
  have enables : ∀ wr, ((api refuses p).enableReadWrite wr true).run w = .done () w' →
      ∃ conn', w'.heap p = some conn' ∧ conn'.outbuffer = conn.outbuffer := by
    intro wr h
    change (deref p >>= fun c => reactorOf c >>= fun _ =>
      enableReadWrite refuses c.sockfd wr true).run w = _ at h
    rw [Proc.run_bind_done (run_deref hheap), reactorOf] at h
    split at h
    · exact enableReadWrite_keeps hheap h
    · cases h
  rw [toggleWrite, Proc.run_bind_done (run_api_deref hheap)] at h
  split at h
  · exact enables true h
  · exact enables false h

theorem sendCount_eq_zero {room : Nat} {out : Bytes} (hroom : room ≠ 0)
    (h : sendCount room out.length = 0) : out = [] := by
  have hmax : 0 < maxRwCount := by decide
  unfold sendCount at h
  exact List.length_eq_zero_iff.mp (by omega)

variable (refuses) in
/-- One `send` that did not fail: the loop goes on, or it is left, with nothing
to send if the call did send something. -/
theorem sendLoop_sent (hk : Owns p k w) (room : Nat) :
    ∃ w₁, Owns p k w₁ ∧
      ((∀ results, (sendLoop (api refuses p) (.sent room :: results)).run w =
          (sendLoop (api refuses p) results).run w₁) ∨
        (∀ results, (sendLoop (api refuses p) (.sent room :: results)).run w =
          (toggleWrite (api refuses p)).run w₁) ∧
        ∃ conn, w₁.heap p = some conn ∧ (room ≠ 0 → conn.outbuffer = [])) := by
  obtain ⟨conn, hheap, rfl⟩ := hk
  have hfirst : ∀ results, (sendLoop (api refuses p) (.sent room :: results)).run w =
      (if 0 < sendCount room conn.outbuffer.length then do
        (api refuses p).outBufferRemove
          (Int32.ofNat (sendCount room conn.outbuffer.length))
        let conn ← (api refuses p).deref
        if conn.outbuffer = [] then toggleWrite (api refuses p)
        else sendLoop (api refuses p) results
      else toggleWrite (api refuses p)).run
        (w.recorded p (.sent (conn.outbuffer.take
          (sendCount room conn.outbuffer.length)))) := by
    intro results
    rw [sendLoop, Proc.run_bind_done (run_api_deref hheap)]
    dsimp only
    rw [Proc.run_bind_done (run_record _ _)]
  by_cases hn : 0 < sendCount room conn.outbuffer.length
  · simp only [if_pos hn] at hfirst
    let left : Connection := { conn with
      outbuffer := conn.outbuffer.drop
        (sizeOfInt (Int32.ofNat (sendCount room conn.outbuffer.length))) }
    let w₁ := (w.recorded p (.sent (conn.outbuffer.take
      (sendCount room conn.outbuffer.length)))).holding p left
    have hheap₁ : w₁.heap p = some left := heap_holding _ _ _
    have hsecond : ∀ results, (sendLoop (api refuses p) (.sent room :: results)).run w =
        (if left.outbuffer = [] then toggleWrite (api refuses p)
        else sendLoop (api refuses p) results).run w₁ := by
      intro results
      rw [hfirst, Proc.run_bind_done (run_outBufferRemove (by exact hheap) _),
        Proc.run_bind_done (run_api_deref hheap₁)]
    refine ⟨w₁, ⟨left, hheap₁, rfl⟩, ?_⟩
    by_cases hleft : left.outbuffer = []
    · simp only [if_pos hleft] at hsecond
      exact .inr ⟨hsecond, left, hheap₁, fun _ => hleft⟩
    · simp only [if_neg hleft] at hsecond
      exact .inl hsecond
  · simp only [if_neg hn] at hfirst
    refine ⟨w.recorded p _, ⟨conn, hheap, rfl⟩, .inr ⟨hfirst, conn, hheap, fun hroom => ?_⟩⟩
    exact sendCount_eq_zero hroom (Nat.eq_zero_of_not_pos hn)

variable (refuses) in
theorem sendLoop_fail (hk : Owns p k w) (errno : Nat) :
    ∃ w₁, Owns p k w₁ ∧
      ∀ results, (sendLoop (api refuses p) (.fail errno :: results)).run w =
        (if errno = ewouldblock ∨ errno = eagain then toggleWrite (api refuses p)
        else if errno = eintr then sendLoop (api refuses p) results
        else callExcepter (api refuses p)).run w₁ := by
  obtain ⟨conn, hheap, rfl⟩ := hk
  refine ⟨w.recorded p (.sendFailed errno), ⟨conn, hheap, rfl⟩, fun results => ?_⟩
  rw [sendLoop, Proc.run_bind_done (run_api_deref hheap), Proc.run_bind_done (run_record _ _)]

theorem sendLoop_drained {results : List SendResult} (hk : Owns p k w)
    (hsends : .sent 0 ∉ results)
    (hrun : (sendLoop (api refuses p) results).run w = .done () w')
    (hreg : w'.connections k ≠ none) :
    (∃ conn, w'.heap p = some conn ∧ conn.outbuffer = []) ∨
      LastAnswer (sendLoop (api refuses p)) w results (.fail eagain) := by
  induction results generalizing w with
  | nil => cases hrun
  | cons result results ih =>
      have hlater : .sent 0 ∉ results := fun h => hsends (List.mem_cons_of_mem _ h)
      have again : ∀ {w₁}, Owns p k w₁ →
          (∀ more, (sendLoop (api refuses p) (result :: more)).run w =
            (sendLoop (api refuses p) more).run w₁) →
          (∃ conn, w'.heap p = some conn ∧ conn.outbuffer = []) ∨
            LastAnswer (sendLoop (api refuses p)) w (result :: results) (.fail eagain) := by
        intro w₁ hk₁ hmore
        rw [hmore] at hrun
        rcases ih hk₁ hlater hrun with hempty | hlast
        · exact .inl hempty
        · exact .inr (LastAnswer.later hmore hlast)
      cases result with
      | sent room =>
          have hroom : room ≠ 0 := fun h => hsends (by simp [h])
          obtain ⟨w₁, hk₁, hmore | ⟨htoggles, conn, hheap, hout⟩⟩ :=
            sendLoop_sent refuses hk room
          · exact again hk₁ hmore
          · rw [htoggles] at hrun
            obtain ⟨conn', hheap', hsame⟩ := toggleWrite_keeps hheap hrun
            exact .inl ⟨conn', hheap', hsame.trans (hout hroom)⟩
      | fail errno =>
          obtain ⟨w₁, hk₁, hstep⟩ := sendLoop_fail refuses hk errno
          by_cases hagain : errno = eagain
          · subst hagain
            simp only [or_true, if_true] at hstep
            refine .inr (LastAnswer.here (by simp [sendLoop]) ?_)
            rw [hstep] at hrun ⊢
            simp [hrun]
          have hnot : ¬ (errno = ewouldblock ∨ errno = eagain) :=
            fun h => hagain (h.elim id id)
          by_cases hintr : errno = eintr
          · refine again hk₁ fun more => ?_
            rw [hstep, if_neg hnot, if_pos hintr]
          · rw [hstep, if_neg hnot, if_neg hintr] at hrun
            exact absurd (callExcepter_gone hk₁ hrun) hreg

/-! ## `AddConnection` and `Accepter` -/

/-- The entry is made whether the kernel takes the new descriptor or not. -/
theorem addConnection_spec (refuses : Nat → Bool) (w : World) (fd : Fd) (events : Mask)
    (recver : Option Recver) (sender : Option Sender) (excepter : Option Excepter) :
    ∃ w', (addConnection refuses fd events recver sender excepter).run w = .done () w' ∧
      (∀ k, w.connections k ≠ none → w'.connections k ≠ none) ∧
      (w'.interest = w.interest ∨
        w'.interest = Function.update w.interest fd (some events)) := by
  refine ⟨_, run_addConnection_joined refuses w fd events recver sender excepter, ?_, ?_⟩
  · intro k hk
    change Function.update w.connections fd _ k ≠ none
    by_cases hfd : k = fd
    · rw [hfd, Function.update_self]
      exact Option.some_ne_none _
    · rw [Function.update_of_ne hfd]
      exact hk
  · have hinterest : (w.joined refuses (made fd events recver sender excepter)).interest =
        if w.adds refuses fd then Function.update w.interest fd (some events)
        else w.interest := rfl
    rw [hinterest]
    cases w.adds refuses fd with
    | false => exact .inl rfl
    | true => exact .inr rfl

theorem keeps_deref {I : World → Prop} (p : Ptr) : Proc.Keeps I (deref p) := by
  apply Proc.Keeps.get.bind
  intro w
  cases w.heap p with
  | none => exact Proc.Keeps.raise _
  | some conn => exact Proc.Keeps.pure conn

theorem keeps_reactorOf {I : World → Prop} (conn : Connection) :
    Proc.Keeps I (reactorOf conn) := by
  unfold reactorOf
  split
  · exact Proc.Keeps.pure _
  · exact Proc.Keeps.raise _

theorem keeps_accepter {I : World → Prop}
    (hopen : ∀ fd w, I w → I { w with opened := Function.update w.opened fd true })
    (hadd : ∀ fd, Proc.Keeps I (addConnection refuses fd (epollIn ||| epollEt)
      (some .handlerRecv) (some .handlerSend) (some .handlerExcept)))
    (results : List AcceptResult) : Proc.Keeps I (accepter refuses p results) := by
  apply (keeps_deref p).bind
  intro _
  induction results with
  | nil => exact Proc.Keeps.block
  | cons result results ih =>
      cases result with
      | conn fd =>
          have hone : Proc.Keeps I (acceptOne refuses p fd) :=
            (Proc.Keeps.modify (hopen fd)).bind fun _ => (keeps_deref p).bind fun conn =>
              (keeps_reactorOf conn).bind fun _ => hadd fd
          exact hone.bind fun _ => ih
      | fail errno =>
          rw [acceptLoop]
          split
          · exact Proc.Keeps.pure _
          split
          · exact ih
          · exact Proc.Keeps.pure _

/-- The answers of `accept` that end the loop: all failures but an interrupt. -/
def stops : AcceptResult → Bool
  | .conn _ => false
  | .fail errno => errno ≠ eintr

theorem acceptLoop_ended {results : List AcceptResult}
    (hrun : (acceptLoop refuses p results).run w = .done () w') :
    ∃ errno, results.find? stops = some (.fail errno) ∧
      LastAnswer (acceptLoop refuses p) w results (.fail errno) := by
  induction results generalizing w with
  | nil => cases hrun
  | cons result results ih =>
      cases result with
      | conn fd =>
          rw [acceptLoop] at hrun
          obtain ⟨_, w₁, hone, hrun⟩ := Proc.run_bind_eq_done.mp hrun
          obtain ⟨errno, hfind, hlast⟩ := ih hrun
          refine ⟨errno, by simpa [stops] using hfind, LastAnswer.later (fun more => ?_) hlast⟩
          rw [acceptLoop, Proc.run_bind_done hone]
      | fail errno =>
          by_cases hintr : errno = eintr
          · subst hintr
            have hmore : ∀ more, acceptLoop refuses p (.fail eintr :: more) =
                acceptLoop refuses p more := by
              intro more
              rw [acceptLoop, if_neg (by decide), if_pos rfl]
            rw [hmore] at hrun
            obtain ⟨errno, hfind, hlast⟩ := ih hrun
            refine ⟨errno, by simpa [stops] using hfind, LastAnswer.later (fun more => ?_) hlast⟩
            rw [hmore]
          · refine ⟨errno, by simp [stops, hintr], LastAnswer.here (by simp [acceptLoop]) ?_⟩
            rw [acceptLoop, if_neg hintr, ite_self]
            simp

theorem acceptLoop_append {results : List AcceptResult}
    (hends : ¬ ((acceptLoop refuses p results).run w).IsBlocked) (more : List AcceptResult) :
    (acceptLoop refuses p (results ++ more)).run w = (acceptLoop refuses p results).run w := by
  induction results generalizing w with
  | nil => exact absurd (by simp [acceptLoop]) hends
  | cons result results ih =>
      cases result with
      | conn fd =>
          rw [acceptLoop, Proc.run_bind] at hends
          rw [List.cons_append, acceptLoop, acceptLoop, Proc.run_bind, Proc.run_bind]
          cases hone : (acceptOne refuses p fd).run w with
          | blocked w₁ => rfl
          | raised e w₁ => rfl
          | done _ w₁ =>
              rw [hone] at hends
              exact ih hends
      | fail errno =>
          rw [acceptLoop] at hends
          rw [List.cons_append, acceptLoop, acceptLoop]
          split
          · rfl
          split
          · next hnot hintr =>
            rw [if_neg hnot, if_pos hintr] at hends
            exact ih hends
          · rfl

theorem acceptLoop_drained_iff {results : List AcceptResult}
    (hrun : (acceptLoop refuses p results).run w = .done () w') :
    LastAnswer (acceptLoop refuses p) w results (.fail eagain) ↔
      results.find? stops = some (.fail eagain) := by
  obtain ⟨errno, hfind, hlast⟩ := acceptLoop_ended hrun
  rw [hfind]
  constructor
  · intro h
    have hsame := LastAnswer.unique (fun answers more hends => ?_) hlast h
    · rw [hsame]
    · rw [acceptLoop_append hends]
      exact hends
  · intro h
    rw [← Option.some.inj h]
    exact hlast

theorem accepter_run {conn : Connection} (hheap : w.heap p = some conn)
    (results : List AcceptResult) :
    (accepter refuses p results).run w = (acceptLoop refuses p results).run w := by
  rw [accepter, Proc.run_bind_done (run_deref hheap)]

theorem lastAnswer_accepter_iff {conn : Connection} (hheap : w.heap p = some conn)
    {results : List AcceptResult} {answer : AcceptResult} :
    LastAnswer (accepter refuses p) w results answer ↔
      LastAnswer (acceptLoop refuses p) w results answer := by
  simp only [LastAnswer, accepter_run hheap]

end Handlers

/-! ## The masks in the interest set -/

def EdgeTriggered (w : World) : Prop :=
  ∀ fd events, w.interest fd = some events → events &&& epollEt ≠ 0

theorem EdgeTriggered.update {w w' : World} (h : EdgeTriggered w) {fd : Fd} {events : Mask}
    (hevents : events &&& epollEt ≠ 0)
    (hw' : w'.interest = w.interest ∨
      w'.interest = Function.update w.interest fd (some events)) : EdgeTriggered w' := by
  rcases hw' with hw' | hw'
  · intro fd' events' h'
    exact h fd' events' (hw' ▸ h')
  · intro fd' events' h'
    rw [hw'] at h'
    by_cases hfd : fd' = fd
    · subst hfd
      rw [Function.update_self] at h'
      exact Option.some.inj h' ▸ hevents
    · rw [Function.update_of_ne hfd] at h'
      exact h fd' events' h'

theorem EdgeTriggered.drop {w w' : World} (h : EdgeTriggered w) {fd : Fd}
    (hw' : w'.interest = Function.update w.interest fd none) : EdgeTriggered w' := by
  intro fd' events' h'
  rw [hw'] at h'
  by_cases hfd : fd' = fd
  · subst hfd
    rw [Function.update_self] at h'
    cases h'
  · rw [Function.update_of_ne hfd] at h'
    exact h fd' events' h'

section Masks

variable (refuses : Nat → Bool)

theorem keeps_store (p : Ptr) (conn : Connection) :
    Proc.Keeps EdgeTriggered (store p conn) :=
  (keeps_deref p).bind fun _ => Proc.Keeps.modify fun _ hw => hw

theorem keeps_delete (p : Ptr) : Proc.Keeps EdgeTriggered (delete p) :=
  (keeps_deref p).bind fun _ => Proc.Keeps.modify fun _ hw => hw

theorem keeps_epollCtl (valid : World → Bool) {change : World → World}
    (hchange : ∀ w, EdgeTriggered w → EdgeTriggered (change w)) :
    Proc.Keeps EdgeTriggered (epollCtl refuses valid change) := by
  apply Proc.Keeps.get.bind
  intro w
  refine Proc.Keeps.bind (Proc.Keeps.modify fun _ hw => hw) fun _ => ?_
  split
  · exact (Proc.Keeps.modify hchange).bind fun _ => Proc.Keeps.pure _
  · exact Proc.Keeps.pure _

theorem keeps_enableReadWrite (fd : Fd) (wr rd : Bool) :
    Proc.Keeps EdgeTriggered (enableReadWrite refuses fd wr rd) := by
  apply Proc.Keeps.get.bind
  intro w
  cases w.connections fd with
  | none => exact Proc.Keeps.pure _
  | some p =>
      apply (keeps_deref p).bind
      intro conn
      apply (keeps_store p _).bind
      intro _
      refine (keeps_epollCtl refuses _ fun w hw => ?_).bind fun _ => Proc.Keeps.pure _
      exact hw.update (readWriteMask_et wr rd) (.inr rfl)

theorem keeps_close (fd : Fd) : Proc.Keeps EdgeTriggered (close fd) := by
  apply Proc.Keeps.get.bind
  intro w
  split
  · exact Proc.Keeps.modify fun w hw => hw.drop rfl
  · exact Proc.Keeps.raise _

theorem keeps_removeConnection (fd : Fd) :
    Proc.Keeps EdgeTriggered (removeConnection refuses fd) := by
  apply Proc.Keeps.get.bind
  intro w
  cases w.connections fd with
  | none => exact Proc.Keeps.pure _
  | some p =>
      apply (keeps_epollCtl refuses _ fun w hw => hw.drop rfl).bind
      intro _
      apply (keeps_close fd).bind
      intro _
      apply (keeps_delete p).bind
      intro _
      exact Proc.Keeps.modify fun _ hw => hw

theorem sim_api_self (p : Ptr) :
    ConnApi.Sim (fun w w' => w = w' ∧ EdgeTriggered w) (api refuses p)
      (api refuses p) where
  deref := Proc.Keeps.iff_sim.mp (keeps_deref p)
  setInbuffer _ := Proc.Keeps.iff_sim.mp ((keeps_deref p).bind fun _ => keeps_store p _)
  setOutbuffer _ := Proc.Keeps.iff_sim.mp ((keeps_deref p).bind fun _ => keeps_store p _)
  enableReadWrite wr rd := Proc.Keeps.iff_sim.mp <| (keeps_deref p).bind fun conn =>
    (keeps_reactorOf conn).bind fun _ => keeps_enableReadWrite refuses _ wr rd
  removeConnection := Proc.Keeps.iff_sim.mp <| (keeps_deref p).bind fun conn =>
    (keeps_reactorOf conn).bind fun _ => keeps_removeConnection refuses _
  record _ := Proc.Keeps.iff_sim.mp (Proc.Keeps.modify fun _ hw => hw)

theorem keeps_addConnection (fd : Fd) {events : Mask} (hevents : events &&& epollEt ≠ 0)
    (recver : Option Recver) (sender : Option Sender) (excepter : Option Excepter) :
    Proc.Keeps EdgeTriggered (addConnection refuses fd events recver sender excepter) := by
  intro w hw
  obtain ⟨w', hrun, -, hinterest⟩ :=
    addConnection_spec refuses w fd events recver sender excepter
  rw [hrun]
  exact hw.update hevents hinterest

variable (build : Build) (execute : Request → Except Exn Response)

theorem keeps_dispatch (answers : Answers) (call : Dispatch) :
    Proc.Keeps EdgeTriggered (dispatch refuses build execute answers call) := by
  cases call with
  | read fd =>
      apply Proc.Keeps.get.bind
      intro w
      cases w.connections fd with
      | none => exact Proc.Keeps.pure _
      | some p =>
          apply (keeps_deref p).bind
          intro conn
          have hapi := sim_api_self refuses p
          cases conn.recver with
          | none => exact Proc.Keeps.pure _
          | some r =>
              cases r with
              | accepter =>
                  exact keeps_accepter (fun _ _ hw => hw)
                    (fun fd => keeps_addConnection refuses fd (by decide) _ _ _) _
              | handlerRecv =>
                  exact Proc.Keeps.iff_sim.mpr
                    (sim_handlerRecv hapi (sim_parse build execute hapi _ _) _)
  | write fd =>
      apply Proc.Keeps.get.bind
      intro w
      cases w.connections fd with
      | none => exact Proc.Keeps.pure _
      | some p =>
          apply (keeps_deref p).bind
          intro conn
          cases conn.sender with
          | none => exact Proc.Keeps.pure _
          | some r => exact Proc.Keeps.iff_sim.mpr (sim_sendLoop (sim_api_self refuses p) _)

variable {refuses build execute}

theorem reachable_edge {w : World} {calls : List Dispatch}
    (h : Reachable refuses build execute w calls) : EdgeTriggered w := by
  induction h with
  | @main opened listensock w _ hrun =>
      have hstart : EdgeTriggered (start opened) := by simp [EdgeTriggered, start]
      exact (keeps_addConnection refuses listensock (by decide) _ _ _).run hstart hrun
  | wait _ _ ih => exact ih
  | step _ _ hrun ih => exact (keeps_dispatch refuses build execute _ _).run ih hrun

end Masks

/-! ## Draining -/

theorem keeps_registered {refuses : Nat → Bool} (k : Fd) (p : Ptr)
    (results : List AcceptResult) :
    Proc.Keeps (fun w => w.connections k ≠ none) (accepter refuses p results) := by
  refine keeps_accepter (fun _ _ hw => hw) (fun fd w hw => ?_) results
  obtain ⟨w', hrun, hlisted, -⟩ := addConnection_spec refuses w fd (epollIn ||| epollEt)
    (some .handlerRecv) (some .handlerSend) (some .handlerExcept)
  rw [hrun]
  exact hlisted k hw

theorem accepter_drained_iff {refuses : Nat → Bool} {p : Ptr} {k : Fd} {w w' : World}
    (hk : Owns p k w) (hreg : w.connections k ≠ none) {results : List AcceptResult}
    (hrun : (accepter refuses p results).run w = .done () w') :
    (w'.connections k ≠ none →
        LastAnswer (accepter refuses p) w results (.fail eagain)) ↔
      results.find? stops = some (.fail eagain) := by
  obtain ⟨conn, hheap, -⟩ := hk
  have hreg' : w'.connections k ≠ none := (keeps_registered k p results).run hreg hrun
  rw [accepter_run hheap] at hrun
  rw [lastAnswer_accepter_iff hheap, ← acceptLoop_drained_iff hrun]
  exact ⟨fun h => h hreg', fun h _ => h⟩

/--
Every mask the kernel is given has `EPOLLET`.  A handler that returns with its
connection in the table has drained it: the last `recv` of `HandlerRecv` failed
with `EAGAIN`, and `HandlerSend` has nothing left or its last `send` failed with
`EAGAIN`.  `Accepter` has drained the listening socket exactly when the first
failure of `accept`, interrupts aside, is `EAGAIN`.
-/
theorem edge_triggered_drain_iff (refuses : Nat → Bool) (build : Build)
    (execute : Request → Except Exn Response) :
    (∀ w calls, Reachable refuses build execute w calls → EdgeTriggered w) ∧
    ∀ p k w w', Owns p k w →
      (∀ func results, (handlerRecv (api refuses p) func results).run w = .done () w' →
        w'.connections k ≠ none →
        LastAnswer (handlerRecv (api refuses p) func) w results (.fail eagain)) ∧
      (∀ results, .sent 0 ∉ results →
        (handlerSend (api refuses p) results).run w = .done () w' →
        w'.connections k ≠ none →
        (∃ conn, w'.heap p = some conn ∧ conn.outbuffer = []) ∨
          LastAnswer (handlerSend (api refuses p)) w results (.fail eagain)) ∧
      ∀ results, w.connections k ≠ none →
        (accepter refuses p results).run w = .done () w' →
        ((w'.connections k ≠ none →
            LastAnswer (accepter refuses p) w results (.fail eagain)) ↔
          results.find? stops = some (.fail eagain)) := by
  refine ⟨fun w calls => reachable_edge, fun p k w w' hk => ⟨?_, ?_, ?_⟩⟩
  · intro func results hrun hreg
    exact recvLoop_drained hk (by decide) hrun hreg
  · intro results hsends hrun hreg
    exact sendLoop_drained hk hsends hrun hreg
  · intro results hreg hrun
    exact accepter_drained_iff hk hreg hrun

theorem owns_afterAdd (w : World) (conn : Connection) :
    Owns w.fresh conn.sockfd (w.afterAdd conn) ∧
      (w.afterAdd conn).connections conn.sockfd ≠ none := by
  refine ⟨⟨conn, Function.update_self .., rfl⟩, ?_⟩
  have hentry : (w.afterAdd conn).connections conn.sockfd = some w.fresh :=
    Function.update_self ..
  rw [hentry]
  exact Option.some_ne_none _

def serving : World :=
  { listening with opened := Function.update listening.opened 4 true }.afterAdd
    (Session.opened 4).conn

theorem owns_listening : Owns 0 3 listening ∧ listening.connections 3 ≠ none :=
  owns_afterAdd _ _

theorem run_accepter_serving :
    (accepter willing 0 [.conn 4, .fail eagain]).run listening = .done () serving := rfl

theorem edge_triggered_drain_iff_serving :
    LastAnswer (accepter willing 0) listening [.conn 4, .fail eagain] (.fail eagain) ∧
    LastAnswer (handlerRecv (api willing 1) (pure ())) serving [.fail eintr, .fail eagain]
      (.fail eagain) := by
  have h := edge_triggered_drain_iff willing .self Calculate.execute
  obtain ⟨hlistening, hlistens⟩ := owns_listening
  have hserving : Owns 1 4 serving ∧ serving.connections 4 ≠ none := owns_afterAdd _ _
  constructor
  · exact ((h.2 0 3 listening serving hlistening).2.2 _ hlistens
      run_accepter_serving).mpr (by decide) hlistens
  · exact (h.2 1 4 serving _ hserving.1).1 (pure ()) _ rfl hserving.2

/-- The kernel reports a connection that was aborted before it was accepted with
errno 103; the one behind it stays in the queue. -/
theorem aborted_connection_strands : ¬ ∀ (opened : Fd → Bool) (listensock : Fd)
    (w w' : World) (results : List AcceptResult), opened listensock = true →
    (addConnection willing listensock (epollIn ||| epollEt) (some .accepter) none
      none).run (start opened) = .done () w →
    (accepter willing 0 results).run w = .done () w' →
    w'.connections listensock ≠ none →
    LastAnswer (accepter willing 0) w results (.fail eagain) := by
  intro hdrains
  obtain ⟨hlistening, hlistens⟩ := owns_listening
  have hlast := hdrains _ 3 listening listening [.fail 103, .conn 4, .fail eagain]
    (show decide (3 < 4) = true from rfl) (run_addConnection rfl rfl rfl _ _ _ _) rfl hlistens
  have hfind := (accepter_drained_iff hlistening hlistens rfl).mp fun _ => hlast
  exact absurd hfind (by decide)

end World

end LinuxAdvance.Reactor
