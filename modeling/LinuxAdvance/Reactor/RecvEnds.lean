import LinuxAdvance.Reactor.Receive

/-!
# When `HandlerRecv` sees the end of the stream

A `recv` that returns zero leaves `errno` alone, and the loop looks at `errno`
all the same.  What it finds there is zero from the entry, or `EINTR` from a
failure earlier in the call; and with `EINTR` it goes round again, at the end of
the stream for ever.
-/

namespace LinuxAdvance.Reactor

open LinuxAdvance.Foundation
open LinuxAdvance.Cxx
open LinuxAdvance.System

namespace Session

@[simp] theorem errnoAfter_eof (errno : Nat) : errnoAfter errno .eof = errno := rfl

theorem errno_of_quiet {quiet : List RecvResult} (hquiet : ∀ r ∈ quiet, Quiet r)
    (errno : Nat) :
    quiet.foldl errnoAfter errno = if .fail eintr ∈ quiet then eintr else errno := by
  induction quiet generalizing errno with
  | nil => simp
  | cons r quiet ih =>
      rw [List.foldl_cons, ih (fun q hq => hquiet q (by simp [hq]))]
      have hr := hquiet r (by simp)
      cases r with
      | data chunk => simp [errnoAfter]
      | eof => exact False.elim hr
      | fail e =>
          cases hr
          simp [errnoAfter]

section Ends

variable {func : Proc Fault Session Unit} {s : Session} {quiet : List RecvResult}

theorem recvLoop_eof (h : s.registered = true) (hwired : Wired s.conn)
    (results : List RecvResult) :
    (recvLoop api func (.eof :: results) 0).run s =
      .done () (s.afterRecvs [.eof]).removed := by
  rw [recvLoop_stopped h (by simp), errnoAfter_eof, recvStopped, if_neg (by decide),
    if_neg (by decide), run_callExcepter (by exact h) (wired_afterRecvs s _ hwired)]

theorem recvLoop_eof_interrupted (h : s.registered = true) (k : Nat) :
    ((recvLoop api func (List.replicate k .eof) eintr).run s).IsBlocked := by
  induction k generalizing s with
  | zero => simp [recvLoop]
  | succ k ih =>
      rw [List.replicate_succ, recvLoop_stopped h (by simp), errnoAfter_eof, recvStopped,
        if_neg (by decide), if_pos rfl]
      exact ih (by exact h)

theorem handlerRecv_closed (h : s.registered = true) (hwired : Wired s.conn)
    (hquiet : ∀ r ∈ quiet, Quiet r) (hintr : .fail eintr ∉ quiet)
    (results : List RecvResult) :
    (handlerRecv api func (quiet ++ .eof :: results)).run s =
      .done () (s.afterRecvs (quiet ++ [.eof])).removed := by
  rw [handlerRecv, recvLoop_quiet h hquiet, errno_of_quiet hquiet, if_neg hintr,
    recvLoop_eof (by exact h) (wired_afterRecvs s quiet hwired), afterRecvs_append]

variable (func) in
/-- One interrupt before it is enough, whatever came in between. -/
theorem handlerRecv_never_ends (h : s.registered = true)
    (hquiet : ∀ r ∈ quiet, Quiet r) (hintr : .fail eintr ∈ quiet) (k : Nat) :
    ((handlerRecv api func (quiet ++ List.replicate k .eof)).run s).IsBlocked := by
  rw [handlerRecv, recvLoop_quiet h hquiet, errno_of_quiet hquiet, if_pos hintr]
  exact recvLoop_eof_interrupted (by exact h) k

theorem count_excepted_removed (results : List RecvResult) :
    ((s.afterRecvs results).removed).history.count .excepted =
      s.history.count .excepted + 1 := by
  have hrecvs : (results.map IoEvent.received).count .excepted = 0 := by
    rw [List.count_eq_zero]
    simp
  simp [removed, afterRecvs, hrecvs]

end Ends

/--
Chunks and interrupts in any order, and then the end of the stream for ever:
`HandlerRecv` calls the excepter once and returns exactly when there was no
interrupt, and else it is still in its loop however often it has called `recv`.
With `EAGAIN` behind them it returns exactly when its callback does, called with
what was received.
-/
theorem handlerRecv_ends_iff (func : Proc Fault Session Unit) (s : Session)
    (quiet : List RecvResult) (h : s.registered = true) (hwired : Wired s.conn)
    (hquiet : ∀ r ∈ quiet, Quiet r) :
    ((∃ k s', (handlerRecv api func (quiet ++ List.replicate k .eof)).run s =
        .done () s' ∧
        s'.history.count .excepted = s.history.count .excepted + 1) ↔
      .fail eintr ∉ quiet) ∧
    (.fail eintr ∈ quiet → ∀ k,
      ((handlerRecv api func (quiet ++ List.replicate k .eof)).run s).IsBlocked) ∧
    ∀ results,
      (∃ s', (handlerRecv api func (quiet ++ .fail eagain :: results)).run s = .done () s') ↔
        ∃ s', func.run (s.afterRecvs (quiet ++ [.fail eagain])) = .done () s' := by
  refine ⟨⟨?_, ?_⟩, handlerRecv_never_ends func h hquiet, fun results => ?_⟩
  · rintro ⟨k, s', hrun, -⟩ hintr
    have hblocked := handlerRecv_never_ends func h hquiet hintr k
    rw [hrun] at hblocked
    exact hblocked
  · intro hintr
    exact ⟨1, _, handlerRecv_closed h hwired hquiet hintr [], count_excepted_removed _⟩
  · rw [handlerRecv_eagain h hquiet]

def oneByte : Chunk := ⟨text "1", by decide, by decide⟩

theorem handlerRecv_ends_iff_chunk :
    (∃ k s', (handlerRecv api (pure ()) ([.data oneByte] ++ List.replicate k .eof)).run
      (opened 5) = .done () s' ∧ s'.history.count .excepted = 1) ∧
    ∃ s', (handlerRecv api (pure ()) [.data oneByte, .fail eintr, .fail eagain]).run
      (opened 5) = .done () s' := by
  have hwired : Wired (opened 5).conn := ⟨rfl, rfl, rfl, rfl⟩
  have hchunk := handlerRecv_ends_iff (pure ()) (opened 5) [.data oneByte] rfl hwired
    (by simp [Quiet])
  have hagain := handlerRecv_ends_iff (pure ()) (opened 5) [.data oneByte, .fail eintr] rfl
    hwired (by simp [Quiet])
  exact ⟨hchunk.1.mpr (by simp), (hagain.2.2 []).mpr ⟨_, rfl⟩⟩

/-- Data, an interrupt, and then the peer has closed. -/
theorem interrupted_then_closed : ¬ ∀ quiet : List RecvResult, (∀ r ∈ quiet, Quiet r) →
    ∃ k s', (handlerRecv api (pure ()) (quiet ++ List.replicate k .eof)).run
      (opened 5) = .done () s' ∧ s'.history.count .excepted = 1 := by
  intro hends
  have hquiet : ∀ r ∈ [.data oneByte, .fail eintr], Quiet r := by simp [Quiet]
  obtain ⟨k, s', hrun, -⟩ := hends _ hquiet
  have hblocked := handlerRecv_never_ends (pure ()) (s := opened 5) rfl hquiet (by simp) k
  rw [hrun] at hblocked
  exact hblocked

end Session

end LinuxAdvance.Reactor
