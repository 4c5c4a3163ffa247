import LinuxAdvance.Calculator.Calculate
import LinuxAdvance.Reactor.Table

/-!
# Runs of `LoopOnce`

Every call of a handler keeps the invariant of the table, whatever it does to
the connection it runs on, and never uses a deleted object, an empty callback, a
null pointer or a closed descriptor.  Between two calls a client has interest in
writing exactly when it has output waiting.
-/

namespace LinuxAdvance.Reactor

open LinuxAdvance.Foundation
open LinuxAdvance.Cxx
open LinuxAdvance.System
open LinuxAdvance.Calculator

/-- The run is still waiting, or an exception of the parser has ended it. -/
def Harmless (e : Option Fault) : Prop :=
  e = none ∨ ∃ x, e = some (.exn x)

namespace World

section Dispatch

variable {build : Build} {execute : Request → Except Exn Response}

theorem client_inv {w : World} (h : Inv build execute w) {p : Ptr} {k : Fd}
    {conn : Connection} (hp : w.connections k = some p)
    (hheap : w.heap p = some conn) (hclient : IsClient build execute w p conn)
    {f : Proc Fault World Unit} {g : Proc Fault Session Unit}
    (hsim : Proc.Sim (Embedded w p k) f g) (wake : Wake)
    (hwake : ∀ s : Session, s.registered = true → Session.Wired s.conn →
      (Session.handle build execute wake).run s = g.run s) :
    (f.run w).Ends (fun _ => Inv build execute) (fun e _ => Harmless e) := by
  obtain ⟨wakes, s, hrun, hreg, rfl, htrace⟩ := hclient
  obtain ⟨conn, hconn, rfl, hmask, hopen⟩ := h.entry k p hp
  obtain rfl : conn = s.conn := Option.some.inj (hconn.symm.trans hheap)
  have hgood := Session.good_of_run hrun
  have hself := embed_self hreg hheap hp hmask hopen htrace.symm
  have hrel := hsim w s ⟨rfl, w.ctlCalls, hself.symm⟩
  have hends := Session.handle_good wake s hgood
  rw [← hwake s hreg hgood.sound.wired] at hrel
  refine (hrel.ends hends).mono ?_ ?_
  · rintro _ w' ⟨s', ⟨hk, calls, rfl⟩, hdone, -⟩
    refine inv_embed h hheap (wakes ++ [wake]) ?_ hk
    rw [Session.runWakes, Proc.forEach_append_done hrun, Proc.forEach_cons,
      Proc.run_bind_done hdone]
    rfl
  · rintro e w' ⟨s', -, hthrew⟩
    exact hthrew.1

variable (build execute) in
theorem dispatch_inv {w : World} (h : Inv build execute w) {answers : Answers}
    (hfresh : FreshAccepts w answers.accepts) (call : Dispatch) :
    ((dispatch willing build execute answers call).run w).Ends
      (fun _ => Inv build execute) (fun e _ => Harmless e) := by
  cases call with
  | read sockfd =>
      rw [dispatch, Proc.run_get_bind]
      cases hp : w.connections sockfd with
      | none => exact h
      | some p =>
          obtain ⟨conn, hheap, -⟩ := h.entry sockfd p hp
          dsimp only
          rw [Proc.run_bind_done (run_deref hheap)]
          rcases h.kind p conn hheap with hlistener | hclient
          · rw [hlistener.recver]
            exact (accepter_inv h hheap hlistener.attached hfresh).mono
              (fun _ _ hw => hw) (fun _ _ he => .inl he)
          · have hwired := hclient.wired
            rw [hwired.recver]
            have hsim := api_sim w p sockfd
            refine client_inv h hp hheap hclient
              (sim_handlerRecv hsim
                (sim_parse build execute hsim answers.uninit answers.sends) _)
              (.read answers.recvs answers.sends answers.uninit) ?_
            intro s hreg hw
            rw [Session.handle, Proc.run_get_bind, if_pos ⟨hreg, hw.recver⟩]
  | write sockfd =>
      rw [dispatch, Proc.run_get_bind]
      cases hp : w.connections sockfd with
      | none => exact h
      | some p =>
          obtain ⟨conn, hheap, -⟩ := h.entry sockfd p hp
          dsimp only
          rw [Proc.run_bind_done (run_deref hheap)]
          rcases h.kind p conn hheap with hlistener | hclient
          · rw [hlistener.sender]
            exact h
          · rw [hclient.wired.sender]
            refine client_inv h hp hheap hclient
              (sim_sendLoop (api_sim w p sockfd) answers.sends)
              (.write answers.sends) ?_
            intro s hreg hw
            rw [Session.handle, Proc.run_get_bind, if_pos ⟨hreg, hw.sender⟩]
            rfl

/-! ## From `main` on -/

theorem inv_of_reachable {w : World} {calls : List Dispatch}
    (h : Reachable willing build execute w calls) : Inv build execute w := by
  induction h with
  | @main opened listensock w hopen hrun =>
      rw [run_addConnection (by exact hopen) rfl rfl] at hrun
      cases hrun
      exact inv_afterAdd (inv_start opened) _ hopen rfl (.inl ⟨rfl, rfl, rfl⟩)
  | wait _ _ ih => exact ih
  | @step w w' call calls answers _ hfresh hrun ih =>
      have hends := dispatch_inv build execute ih hfresh call
      rw [hrun] at hends
      exact hends

def FreshRun (refuses : Nat → Bool) (build : Build)
    (execute : Request → Except Exn Response) : World → List (Dispatch × Answers) → Prop
  | _, [] => True
  | w, call :: calls => FreshAccepts w call.2.accepts ∧
      ∀ w', (dispatch refuses build execute call.2 call.1).run w = .done () w' →
        FreshRun refuses build execute w' calls

theorem reachable_loopOnce {refuses : Nat → Bool} {w w' : World}
    {calls : List (Dispatch × Answers)}
    (h : Reachable refuses build execute w (calls.map Prod.fst))
    (hfresh : FreshRun refuses build execute w calls)
    (hrun : (loopOnce refuses build execute calls).run w = .done () w') :
    Reachable refuses build execute w' [] := by
  induction calls generalizing w with
  | nil =>
      cases hrun
      exact h
  | cons call calls ih =>
      rw [loopOnce, Proc.forEach_cons, Proc.run_bind_eq_done] at hrun
      obtain ⟨_, w₁, hcall, hrest⟩ := hrun
      exact ih (h.step hfresh.1 hcall) (hfresh.2 w₁ hcall) hrest

/-! ## The table -/

/-- The table, the kernel and the heap agree, and no object or descriptor was
given back twice. -/
structure Agrees (w : World) : Prop where
  keys : ∀ fd, (w.connections fd).isSome ↔ (w.interest fd).isSome
  entry : ∀ fd p, w.connections fd = some p → ∃ conn, w.heap p = some conn ∧
    conn.sockfd = fd ∧ w.interest fd = some conn.events
  once : ∀ p < w.fresh,
    (∃ conn, w.heap p = some conn ∧ w.connections conn.sockfd = some p ∧
      (w.deleted.map Prod.fst).count p = 0) ∨
    w.heap p = none ∧ (w.deleted.map Prod.fst).count p = 1
  closed : w.closed = w.deleted.map Prod.snd
  balance : ∀ fd, w.added.count fd =
    w.closed.count fd + if (w.connections fd).isSome then 1 else 0

theorem Inv.agrees {w : World} (h : Inv build execute w) : Agrees w where
  keys := by
    intro fd
    cases hp : w.connections fd with
    | none => simp [h.unwatched fd hp]
    | some p =>
        obtain ⟨conn, -, -, hmask, -⟩ := h.entry fd p hp
        simp [hmask]
  entry := by
    intro fd p hp
    obtain ⟨conn, hheap, hsock, hmask, -⟩ := h.entry fd p hp
    exact ⟨conn, hheap, hsock, hmask⟩
  once := by
    intro p hp
    have hdel := h.deletedIff p
    cases hheap : w.heap p with
    | none =>
        refine .inr ⟨rfl, ?_⟩
        exact List.count_eq_one_of_mem h.deletedOnce (hdel.mpr ⟨hp, hheap⟩)
    | some conn =>
        refine .inl ⟨conn, rfl, h.listed p conn hheap, ?_⟩
        refine List.count_eq_zero_of_not_mem fun hmem => ?_
        have := (hdel.mp hmem).2
        rw [hheap] at this
        cases this
  closed := h.closedOnce
  balance := h.balance

/-- Between any two calls of a run from `main` the table agrees with the kernel
and the heap, and the next call uses nothing that is not there. -/
theorem table_agrees {refuses : Nat → Bool} (hctl : ∀ n, refuses n = false)
    {w : World} {calls : List Dispatch}
    (h : Reachable refuses build execute w calls) :
    Agrees w ∧ ∀ call answers, FreshAccepts w answers.accepts →
      ((dispatch refuses build execute answers call).run w).Ends
        (fun _ w' => Agrees w') (fun e _ => Harmless e) := by
  obtain rfl : refuses = willing := funext hctl
  have hinv := inv_of_reachable h
  refine ⟨hinv.agrees, fun call answers hfresh => ?_⟩
  exact (dispatch_inv build execute hinv hfresh call).mono
    (fun _ _ hw => hw.agrees) (fun _ _ he => he)

end Dispatch

/-! ## A run with one client -/

def listening : World :=
  (start fun fd => fd < 4).afterAdd
    (made 3 (epollIn ||| epollEt) (some .accepter) none none)

def acceptAnswers : Answers :=
  ⟨[.conn 4, .fail eagain], [], [], ⟨0, 0, 0⟩⟩

def oneClient : World :=
  ((dispatch willing .self Calculate.execute acceptAnswers (.read 3)).run
    listening).state

/-- A request, of whose reply the socket takes three bytes. -/
def requestAnswers : Answers :=
  ⟨[], [.data ⟨text "5\r\n1 + 2\r\n", by decide, by decide⟩, .fail eagain],
    [.sent 3, .fail eagain], ⟨0, 0, 0⟩⟩

def oneRequest : World :=
  ((dispatch willing .self Calculate.execute requestAnswers (.read 4)).run
    oneClient).state

theorem reachable_listening :
    Reachable willing .self Calculate.execute listening [] :=
  .main (show decide (3 < 4) = true from rfl) (run_addConnection rfl rfl rfl _ _ _ _)

theorem reachable_oneClient :
    Reachable willing .self Calculate.execute oneClient [] := by
  have hbatch : Batch listening [(3, epollIn)] :=
    ⟨by decide, by decide, by decide⟩
  have hfresh : FreshAccepts listening acceptAnswers.accepts :=
    ⟨by decide, by decide⟩
  exact (reachable_listening.wait hbatch).step hfresh
    (Outcome.eq_done_of_isDone (by decide))

theorem reachable_oneRequest :
    Reachable willing .self Calculate.execute oneRequest [] := by
  have hbatch : Batch oneClient [(4, epollIn)] :=
    ⟨by decide, by decide, by decide⟩
  have hfresh : FreshAccepts oneClient requestAnswers.accepts :=
    ⟨by decide, by decide⟩
  exact (reachable_oneClient.wait hbatch).step hfresh
    (Outcome.eq_done_of_isDone (by decide))

theorem table_agrees_oneRequest :
    Agrees oneRequest ∧ ∀ call answers, FreshAccepts oneRequest answers.accepts →
      ((dispatch willing .self Calculate.execute answers call).run oneRequest).Ends
        (fun _ w' => Agrees w') (fun e _ => Harmless e) :=
  table_agrees (fun _ => rfl) reachable_oneRequest

section Output

variable {build : Build} {execute : Request → Except Exn Response}

/-- Between any two calls a registered client is watched for writing exactly
when it has output, and what was sent and what is waiting is what was
appended. -/
theorem no_stranded_output {refuses : Nat → Bool} (hctl : ∀ n, refuses n = false)
    {w : World} {calls : List Dispatch}
    (h : Reachable refuses build execute w calls) {fd : Fd} {p : Ptr}
    {conn : Connection} (hp : w.connections fd = some p)
    (hheap : w.heap p = some conn) (hclient : conn.recver = some .handlerRecv) :
    (∃ mask, w.interest fd = some mask ∧ mask &&& epollIn ≠ 0 ∧ mask &&& epollEt ≠ 0 ∧
      (mask &&& epollOut ≠ 0 ↔ conn.outbuffer ≠ [])) ∧
    (w.traces p).flatMap IoEvent.sentBytes ++ conn.outbuffer =
      ((w.traces p).filterMap IoEvent.round).flatMap Round.frame := by
  obtain rfl : refuses = willing := funext hctl
  have hinv := inv_of_reachable h
  obtain ⟨conn', hheap', hsock, hmask, -⟩ := hinv.entry fd p hp
  obtain rfl : conn' = conn := Option.some.inj (hheap'.symm.trans hheap)
  rcases hinv.kind p conn' hheap with hlistener | ⟨wakes, s, hrun, hreg, rfl, htrace⟩
  · rw [hlistener.recver] at hclient
    cases hclient
  · have hgood := Session.good_of_run hrun
    have hsettled := hgood.settled hreg
    refine ⟨⟨_, hmask, hsettled.reads, hsettled.edge, hsettled.writes⟩, ?_⟩
    rw [← htrace]
    exact hgood.sound.ledger

end Output

theorem no_stranded_output_oneRequest :
    ∃ conn, oneRequest.heap 1 = some conn ∧ conn.outbuffer ≠ [] ∧
      ∃ mask, oneRequest.interest 4 = some mask ∧
        (mask &&& epollOut ≠ 0 ↔ conn.outbuffer ≠ []) := by
  have hstranded := no_stranded_output (fun _ => rfl) reachable_oneRequest
    (show oneRequest.connections 4 = some 1 from rfl) rfl (by decide)
  obtain ⟨⟨mask, hmask, -, -, hout⟩, -⟩ := hstranded
  exact ⟨_, rfl, by decide, mask, hmask, hout⟩

end World

end LinuxAdvance.Reactor
