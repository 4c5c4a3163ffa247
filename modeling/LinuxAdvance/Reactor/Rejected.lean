import LinuxAdvance.Reactor.EdgeTrigger

/-!
# Updates the kernel rejects

`Epoller` says whether `epoll_ctl` succeeded; `Reactor` does not ask.  A connection
is put into the table whether the kernel watches it or not, and its mask is
overwritten before the kernel is asked to change its own.
-/

namespace LinuxAdvance.Reactor

open LinuxAdvance.Foundation
open LinuxAdvance.Cxx
open LinuxAdvance.System
open LinuxAdvance.Calculator

namespace World

def recordedMask (w : World) (fd : Fd) : Option Mask :=
  (w.connections fd).bind fun p => (w.heap p).map Connection.events

/-- Every key is watched, with the mask of its connection, and nothing else is. -/
def InStep (w : World) : Prop := ∀ fd, w.recordedMask fd = w.interest fd

/-- Whatever the kernel has rejected: an entry leads to a live object for an open
descriptor. -/
structure Linked (w : World) : Prop where
  entry : ∀ {fd p}, w.connections fd = some p →
    ∃ conn, w.heap p = some conn ∧ conn.sockfd = fd ∧ w.opened fd = true
  beyond : ∀ {p}, w.fresh ≤ p → w.heap p = none

def Unrefused (refuses : Nat → Bool) (w : World) : Prop := ∀ n < w.ctlCalls, refuses n = false

/-! ## The masks after an update -/

section Masks

variable {refuses : Nat → Bool} {w w' : World} {fd k : Fd} {p : Ptr} {conn conn' : Connection}

theorem recordedMask_of_entry (hentry : w.connections fd = some p)
    (hheap : w.heap p = some conn) : w.recordedMask fd = some conn.events := by
  simp [recordedMask, hentry, hheap]

theorem recordedMask_of_none (hentry : w.connections fd = none) : w.recordedMask fd = none := by
  simp [recordedMask, hentry]

theorem recordedMask_congr (hentry : w'.connections fd = w.connections fd)
    (hheap : ∀ q, w.connections fd = some q → w'.heap q = w.heap q) :
    w'.recordedMask fd = w.recordedMask fd := by
  cases hq : w.connections fd with
  | none => simp [recordedMask, hentry, hq]
  | some q => simp [recordedMask, hentry, hq, hheap q hq]

theorem Linked.ptr_ne (h : Linked w) (hp : w.connections fd = some p) (hne : k ≠ fd) {q : Ptr}
    (hq : w.connections k = some q) : q ≠ p := by
  rintro rfl
  obtain ⟨c, hc, hsock, -⟩ := h.entry hp
  obtain ⟨c', hc', hsock', -⟩ := h.entry hq
  rw [hc] at hc'
  cases hc'
  exact hne (hsock'.symm.trans hsock)

theorem Linked.ne_fresh (h : Linked w) (hp : w.connections fd = some p) : p ≠ w.fresh := by
  rintro rfl
  obtain ⟨c, hc, -⟩ := h.entry hp
  rw [h.beyond (Nat.le_refl _)] at hc
  cases hc

theorem recordedMask_toggled (hentry : w.connections fd = some p) (mask : Mask) :
    (w.toggled refuses fd p conn mask).recordedMask fd = some mask := by
  have hheap : (w.toggled refuses fd p conn mask).heap p = some (conn.setEvent mask) :=
    Function.update_self ..
  have hkept : (w.toggled refuses fd p conn mask).connections fd = some p := hentry
  exact recordedMask_of_entry hkept hheap

theorem recordedMask_toggled_of_ne (h : Linked w) (hentry : w.connections fd = some p)
    (mask : Mask) (hne : k ≠ fd) :
    (w.toggled refuses fd p conn mask).recordedMask k = w.recordedMask k :=
  recordedMask_congr rfl fun _ hq => Function.update_of_ne (h.ptr_ne hentry hne hq) ..

theorem recordedMask_joined_of_ne (h : Linked w) (hne : k ≠ conn.sockfd) :
    (w.joined refuses conn).recordedMask k = w.recordedMask k :=
  recordedMask_congr (Function.update_of_ne hne ..)
    fun _ hq => Function.update_of_ne (h.ne_fresh hq) ..

theorem recordedMask_dropped_of_ne (h : Linked w) (hentry : w.connections fd = some p)
    (hne : k ≠ fd) : (w.dropped fd p).recordedMask k = w.recordedMask k :=
  recordedMask_congr (Function.update_of_ne hne ..)
    fun _ hq => Function.update_of_ne (h.ptr_ne hentry hne hq) ..

end Masks

/-! ## When an update is consistent -/

section Consistent

variable (refuses : Nat → Bool)

/-- After `AddConnection` the descriptor is a key exactly if the kernel accepted
it; if it did not, the table and the recorded masks are as before. -/
def AddsConsistently (w : World) (fd : Fd) (events : Mask) (recver : Option Recver)
    (sender : Option Sender) (excepter : Option Excepter) : Prop :=
  ∃ w', (addConnection refuses fd events recver sender excepter).run w = .done () w' ∧
    ((w'.connections fd).isSome ↔ w.adds refuses fd = true) ∧
    (w.adds refuses fd = false →
      w'.connections = w.connections ∧ w'.recordedMask = w.recordedMask)

/-- After `EnableReadWrite` the recorded mask is the kernel's; if the kernel
refused, the table and the recorded masks are as before. -/
def TogglesConsistently (w : World) (fd : Fd) (wr rd : Bool) : Prop :=
  ∃ w', (enableReadWrite refuses fd wr rd).run w = .done () w' ∧
    ((w'.connections fd).isSome → w'.recordedMask fd = w'.interest fd) ∧
    (w.mods refuses fd = false →
      w'.connections = w.connections ∧ w'.recordedMask = w.recordedMask)

theorem addsConsistently_iff (w : World) (fd : Fd) (events : Mask) (recver : Option Recver)
    (sender : Option Sender) (excepter : Option Excepter) :
    AddsConsistently refuses w fd events recver sender excepter ↔ w.adds refuses fd = true := by
  have hrun := run_addConnection_joined refuses w fd events recver sender excepter
  have hkey : ((w.joined refuses (made fd events recver sender excepter)).connections
      fd).isSome = true := by
    have hentry : (w.joined refuses (made fd events recver sender excepter)).connections fd =
        some ((w.connections fd).getD w.fresh) := Function.update_self ..
    rw [hentry]
    rfl
  constructor
  · rintro ⟨w', hrun', hiff, -⟩
    rw [hrun] at hrun'
    cases hrun'
    exact hiff.mp hkey
  · intro hadds
    refine ⟨_, hrun, ⟨fun _ => hadds, fun _ => hkey⟩, fun hnot => ?_⟩
    rw [hadds] at hnot
    cases hnot

theorem togglesConsistently_iff {w : World} (h : Linked w) (fd : Fd) (wr rd : Bool) :
    TogglesConsistently refuses w fd wr rd ↔
      w.connections fd = none ∨ w.mods refuses fd = true ∨
        w.recordedMask fd = some (readWriteMask wr rd) ∧
          w.interest fd = some (readWriteMask wr rd) := by
  cases hentry : w.connections fd with
  | none =>
      simp only [true_or, iff_true]
      refine ⟨w, run_enableReadWrite_none refuses hentry wr rd, ?_, fun _ => ⟨rfl, rfl⟩⟩
      simp [hentry]
  | some p =>
      obtain ⟨conn, hheap, -⟩ := h.entry hentry
      have hrun := run_enableReadWrite_toggled refuses hentry hheap wr rd
      have hmask : (w.toggled refuses fd p conn (readWriteMask wr rd)).recordedMask fd =
          some (readWriteMask wr rd) := recordedMask_toggled hentry _
      simp only [reduceCtorEq, false_or]
      cases hmods : w.mods refuses fd with
      | true =>
          simp only [true_or, iff_true]
          refine ⟨_, hrun, fun _ => ?_, by simp [hmods]⟩
          rw [hmask]
          simp [toggled, hmods]
      | false =>
          have hinterest : (w.toggled refuses fd p conn (readWriteMask wr rd)).interest =
              w.interest := by simp [toggled, hmods]
          simp only [Bool.false_eq_true, false_or]
          constructor
          · rintro ⟨w', hrun', hsame, hbefore⟩
            rw [hrun] at hrun'
            cases hrun'
            have hnow := hsame (by simp [toggled, hentry])
            rw [hmask, hinterest] at hnow
            exact ⟨(congrFun (hbefore hmods).2 fd).symm.trans hmask, hnow.symm⟩
          · rintro ⟨hrecorded, hkernel⟩
            refine ⟨_, hrun, fun _ => ?_, fun _ => ⟨rfl, funext fun k => ?_⟩⟩
            · rw [hmask, hinterest, hkernel]
            · by_cases hk : k = fd
              · rw [hk, hmask, hrecorded]
              · exact recordedMask_toggled_of_ne h hentry _ hk

end Consistent

/-! ## In every run -/

/-- What a run keeps: the links always, and the masks until a call is refused. -/
structure Tracks (refuses : Nat → Bool) (w : World) : Prop where
  linked : Linked w
  inStep : Unrefused refuses w → InStep w

section Runs

variable {refuses : Nat → Bool} {w w' : World} {fd : Fd} {p : Ptr} {conn conn' : Connection}

theorem unrefused_succ (h : ∀ n < w.ctlCalls + 1, refuses n = false) :
    Unrefused refuses w ∧ refuses w.ctlCalls = false :=
  ⟨fun n hn => h n (Nat.lt_succ_of_lt hn), h w.ctlCalls (Nat.lt_succ_self _)⟩

theorem tracks_start (opened : Fd → Bool) : Tracks refuses (start opened) where
  linked := ⟨by simp [start], fun _ => rfl⟩
  inStep := fun _ _ => rfl

theorem tracks_open (h : Tracks refuses w) (fd : Fd) :
    Tracks refuses { w with opened := Function.update w.opened fd true } := by
  refine ⟨⟨fun {k q} hq => ?_, h.linked.beyond⟩, h.inStep⟩
  obtain ⟨c, hc, hsock, hopen⟩ := h.linked.entry hq
  refine ⟨c, hc, hsock, ?_⟩
  by_cases hk : k = fd
  · subst hk
    exact Function.update_self ..
  · exact (Function.update_of_ne hk ..).trans hopen

theorem tracks_joined (h : Tracks refuses w) (hopen : w.opened conn.sockfd = true)
    (hnew : w.connections conn.sockfd = none) : Tracks refuses (w.joined refuses conn) := by
  have hentry : (w.joined refuses conn).connections conn.sockfd = some w.fresh := by
    simp [joined, hnew]
  have hheap : (w.joined refuses conn).heap w.fresh = some conn := Function.update_self ..
  refine ⟨⟨fun {k q} hq => ?_, fun {q} hq => ?_⟩, fun hunrefused k => ?_⟩
  · by_cases hk : k = conn.sockfd
    · subst hk
      rw [hentry] at hq
      cases hq
      exact ⟨conn, hheap, rfl, hopen⟩
    · have hold : w.connections k = some q := (Function.update_of_ne hk ..).symm.trans hq
      obtain ⟨c, hc, hrest⟩ := h.linked.entry hold
      exact ⟨c, (Function.update_of_ne (h.linked.ne_fresh hold) ..).trans hc, hrest⟩
  · have hne : q ≠ w.fresh := (Nat.lt_of_succ_le hq).ne'
    exact (Function.update_of_ne hne ..).trans (h.linked.beyond (Nat.le_of_succ_le hq))
  · -- the descriptor was not watched, so the kernel takes it
    obtain ⟨hbefore, hcall⟩ := unrefused_succ hunrefused
    have hunwatched : w.interest conn.sockfd = none := by
      rw [← h.inStep hbefore, recordedMask_of_none hnew]
    have hadds : w.adds refuses conn.sockfd = true := by simp [adds, hopen, hunwatched, hcall]
    by_cases hk : k = conn.sockfd
    · rw [hk, recordedMask_of_entry hentry hheap]
      simp [joined, hadds]
    · rw [recordedMask_joined_of_ne h.linked hk, h.inStep hbefore]
      simp [joined, hadds, hk]

theorem tracks_toggled (h : Tracks refuses w) (hentry : w.connections fd = some p)
    (hheap : w.heap p = some conn) (mask : Mask) :
    Tracks refuses (w.toggled refuses fd p conn mask) := by
  obtain ⟨c, hc, hsock, hopen⟩ := h.linked.entry hentry
  obtain rfl : conn = c := Option.some.inj (hheap.symm.trans hc)
  refine ⟨⟨fun {k q} hq => ?_, fun {q} hq => ?_⟩, fun hunrefused k => ?_⟩
  · by_cases hk : k = fd
    · obtain rfl : p = q := Option.some.inj (hentry.symm.trans (hk ▸ hq))
      exact ⟨conn.setEvent mask, Function.update_self .., hsock.trans hk.symm, hk ▸ hopen⟩
    · obtain ⟨c, hc, hrest⟩ := h.linked.entry hq
      exact ⟨c, (Function.update_of_ne (h.linked.ptr_ne hentry hk hq) ..).trans hc, hrest⟩
  · have hne : q ≠ p := by
      rintro rfl
      rw [h.linked.beyond hq] at hheap
      cases hheap
    exact (Function.update_of_ne hne ..).trans (h.linked.beyond hq)
  · -- the descriptor is watched, so the kernel changes its mask
    obtain ⟨hbefore, hcall⟩ := unrefused_succ hunrefused
    have hwatched : w.interest fd = some conn.events := by
      rw [← h.inStep hbefore, recordedMask_of_entry hentry hheap]
    have hmods : w.mods refuses fd = true := by simp [mods, hopen, hwatched, hcall]
    by_cases hk : k = fd
    · rw [hk, recordedMask_toggled hentry]
      simp [toggled, hmods]
    · rw [recordedMask_toggled_of_ne h.linked hentry mask hk, h.inStep hbefore]
      simp [toggled, hmods, hk]

theorem tracks_dropped (h : Tracks refuses w) (hentry : w.connections fd = some p) :
    Tracks refuses (w.dropped fd p) := by
  refine ⟨⟨fun {k q} hq => ?_, fun {q} hq => ?_⟩, fun hunrefused k => ?_⟩
  · have hk : k ≠ fd := by
      rintro rfl
      simp [dropped] at hq
    have hold : w.connections k = some q := (Function.update_of_ne hk ..).symm.trans hq
    obtain ⟨c, hc, hsock, hopen⟩ := h.linked.entry hold
    exact ⟨c, (Function.update_of_ne (h.linked.ptr_ne hentry hk hold) ..).trans hc, hsock,
      (Function.update_of_ne hk ..).trans hopen⟩
  · by_cases hp : q = p
    · subst hp
      exact Function.update_self ..
    · exact (Function.update_of_ne hp ..).trans (h.linked.beyond hq)
  · obtain ⟨hbefore, -⟩ := unrefused_succ hunrefused
    have hgone : (w.dropped fd p).connections fd = none := Function.update_self ..
    by_cases hk : k = fd
    · have hunwatched : (w.dropped fd p).interest fd = none := Function.update_self ..
      rw [hk, recordedMask_of_none hgone, hunwatched]
    · rw [recordedMask_dropped_of_ne h.linked hentry hk, h.inStep hbefore]
      exact (Function.update_of_ne hk ..).symm

theorem tracks_holding (h : Tracks refuses w) (hheap : w.heap p = some conn)
    (hsock : conn'.sockfd = conn.sockfd) (hevents : conn'.events = conn.events) :
    Tracks refuses (w.holding p conn') := by
  refine ⟨⟨fun {k q} hq => ?_, fun {q} hq => ?_⟩, fun hunrefused k => ?_⟩
  · obtain ⟨c, hc, hsame, hopen⟩ := h.linked.entry hq
    by_cases hp : q = p
    · subst hp
      obtain rfl : conn = c := Option.some.inj (hheap.symm.trans hc)
      exact ⟨conn', Function.update_self .., hsock.trans hsame, hopen⟩
    · exact ⟨c, (Function.update_of_ne hp ..).trans hc, hsame, hopen⟩
  · have hne : q ≠ p := by
      rintro rfl
      rw [h.linked.beyond hq] at hheap
      cases hheap
    exact (Function.update_of_ne hne ..).trans (h.linked.beyond hq)
  · have hmasks : (w.holding p conn').recordedMask k = w.recordedMask k := by
      cases hq : w.connections k with
      | none => rw [recordedMask_of_none hq, recordedMask_of_none (by exact hq)]
      | some q =>
          by_cases hp : q = p
          · subst hp
            have hnow : (w.holding q conn').recordedMask k = some conn'.events :=
              recordedMask_of_entry (by exact hq) (heap_holding w q conn')
            rw [hnow, recordedMask_of_entry hq hheap, hevents]
          · refine recordedMask_congr rfl fun q' hq' => ?_
            rw [hq] at hq'
            cases hq'
            exact Function.update_of_ne hp ..
    exact hmasks.trans (h.inStep hunrefused k)

/-! ## The handlers -/

variable (refuses) in
theorem tracks_update (p : Ptr) {f : Connection → Connection}
    (hsock : ∀ c, (f c).sockfd = c.sockfd) (hevents : ∀ c, (f c).events = c.events) :
    Proc.Keeps (Tracks refuses) (deref p >>= fun conn => store p (f conn)) := by
  intro w hw
  cases hheap : w.heap p with
  | none =>
      rw [Proc.run_bind_raised (run_deref_none hheap)]
      exact hw
  | some conn =>
      rw [Proc.run_bind_done (run_deref hheap), run_store hheap]
      exact tracks_holding hw hheap (hsock conn) (hevents conn)

variable (refuses) in
theorem tracks_enableReadWrite (fd : Fd) (wr rd : Bool) :
    Proc.Keeps (Tracks refuses) (enableReadWrite refuses fd wr rd) := by
  intro w hw
  cases hentry : w.connections fd with
  | none =>
      rw [run_enableReadWrite_none refuses hentry]
      exact hw
  | some p =>
      obtain ⟨conn, hheap, -⟩ := hw.linked.entry hentry
      rw [run_enableReadWrite_toggled refuses hentry hheap]
      exact tracks_toggled hw hentry hheap _

variable (refuses) in
theorem tracks_removeConnection (fd : Fd) :
    Proc.Keeps (Tracks refuses) (removeConnection refuses fd) := by
  intro w hw
  cases hentry : w.connections fd with
  | none =>
      rw [removeConnection, Proc.run_get_bind, hentry]
      exact hw
  | some p =>
      obtain ⟨conn, hheap, hsock, hopen⟩ := hw.linked.entry hentry
      rw [run_removeConnection_dropped refuses hentry hheap hsock hopen]
      exact tracks_dropped hw hentry

variable (refuses) in
theorem tracks_api (p : Ptr) :
    ConnApi.Sim (fun w w' => w = w' ∧ Tracks refuses w) (api refuses p) (api refuses p) where
  deref := Proc.Keeps.iff_sim.mp (keeps_deref p)
  setInbuffer _ := Proc.Keeps.iff_sim.mp
    (tracks_update refuses p (fun _ => rfl) (fun _ => rfl))
  setOutbuffer _ := Proc.Keeps.iff_sim.mp
    (tracks_update refuses p (fun _ => rfl) (fun _ => rfl))
  enableReadWrite wr rd := Proc.Keeps.iff_sim.mp <| (keeps_deref p).bind fun conn =>
    (keeps_reactorOf conn).bind fun _ => tracks_enableReadWrite refuses _ wr rd
  removeConnection := Proc.Keeps.iff_sim.mp <| (keeps_deref p).bind fun conn =>
    (keeps_reactorOf conn).bind fun _ => tracks_removeConnection refuses _
  record _ := Proc.Keeps.iff_sim.mp
    (Proc.Keeps.modify fun _ hw => ⟨⟨hw.linked.entry, hw.linked.beyond⟩, hw.inStep⟩)

theorem tracks_acceptOne (h : Tracks refuses w) (hclosed : w.opened fd = false)
    (hrun : (acceptOne refuses p fd).run w = .done () w') :
    Tracks refuses w' ∧ w'.opened = Function.update w.opened fd true := by
  have hnew : w.connections fd = none := by
    cases hentry : w.connections fd with
    | none => rfl
    | some q =>
        obtain ⟨c, -, -, hopen⟩ := h.linked.entry hentry
        rw [hclosed] at hopen
        cases hopen
  rw [acceptOne, Proc.run_modify_bind] at hrun
  obtain ⟨conn, w₁, hderef, hrest⟩ := Proc.run_bind_eq_done.mp hrun
  have hsame : { w with opened := Function.update w.opened fd true } = w₁ := by
    cases hheap : w.heap p with
    | none =>
        rw [run_deref_none (by exact hheap)] at hderef
        cases hderef
    | some c =>
        rw [run_deref (by exact hheap)] at hderef
        cases hderef
        rfl
  subst hsame
  rw [reactorOf] at hrest
  split at hrest
  · rw [Proc.pure_bind, run_addConnection_joined] at hrest
    cases hrest
    exact ⟨tracks_joined (tracks_open h fd) (Function.update_self ..) hnew, rfl⟩
  · cases hrest

theorem tracks_acceptLoop {results : List AcceptResult} (h : Tracks refuses w)
    (hfresh : FreshAccepts w results)
    (hrun : (acceptLoop refuses p results).run w = .done () w') : Tracks refuses w' := by
  induction results generalizing w with
  | nil => cases hrun
  | cons result results ih =>
      cases result with
      | conn fd =>
          obtain ⟨hdistinct, hclosed⟩ := hfresh
          have hfds : acceptedFds (.conn fd :: results) = fd :: acceptedFds results := rfl
          rw [hfds] at hdistinct hclosed
          rw [acceptLoop] at hrun
          obtain ⟨_, w₁, hone, hrest⟩ := Proc.run_bind_eq_done.mp hrun
          obtain ⟨htracks, hopened⟩ := tracks_acceptOne h (hclosed fd (by simp)) hone
          refine ih htracks ⟨hdistinct.of_cons, fun k hk => ?_⟩ hrest
          have hne : k ≠ fd := by
            rintro rfl
            exact (List.nodup_cons.mp hdistinct).1 hk
          rw [hopened, Function.update_of_ne hne]
          exact hclosed k (List.mem_cons_of_mem _ hk)
      | fail errno =>
          rw [acceptLoop] at hrun
          split at hrun
          · cases hrun
            exact h
          split at hrun
          · exact ih h ⟨hfresh.distinct, hfresh.closed⟩ hrun
          · cases hrun
            exact h

variable {build : Build} {execute : Request → Except Exn Response}

theorem tracks_dispatch (h : Tracks refuses w) {answers : Answers}
    (hfresh : FreshAccepts w answers.accepts) {call : Dispatch}
    (hrun : (dispatch refuses build execute answers call).run w = .done () w') :
    Tracks refuses w' := by
  cases call with
  | read fd =>
      rw [dispatch, Proc.run_get_bind] at hrun
      cases hentry : w.connections fd with
      | none =>
          rw [hentry] at hrun
          cases hrun
          exact h
      | some p =>
          obtain ⟨conn, hheap, -⟩ := h.linked.entry hentry
          rw [hentry] at hrun
          dsimp only at hrun
          rw [Proc.run_bind_done (run_deref hheap)] at hrun
          have hapi := tracks_api refuses p
          cases hrecver : conn.recver with
          | none =>
              rw [hrecver] at hrun
              cases hrun
              exact h
          | some r =>
              rw [hrecver] at hrun
              cases r with
              | accepter =>
                  dsimp only at hrun
                  rw [accepter_run hheap] at hrun
                  exact tracks_acceptLoop h hfresh hrun
              | handlerRecv =>
                  exact (Proc.Keeps.iff_sim.mpr
                    (sim_handlerRecv hapi (sim_parse build execute hapi _ _) _)).run h hrun
  | write fd =>
      rw [dispatch, Proc.run_get_bind] at hrun
      cases hentry : w.connections fd with
      | none =>
          rw [hentry] at hrun
          cases hrun
          exact h
      | some p =>
          obtain ⟨conn, hheap, -⟩ := h.linked.entry hentry
          rw [hentry] at hrun
          dsimp only at hrun
          rw [Proc.run_bind_done (run_deref hheap)] at hrun
          cases hsender : conn.sender with
          | none =>
              rw [hsender] at hrun
              cases hrun
              exact h
          | some r =>
              rw [hsender] at hrun
              exact (Proc.Keeps.iff_sim.mpr (sim_sendLoop (tracks_api refuses p) _)).run h hrun

theorem tracks_of_reachable {calls : List Dispatch}
    (h : Reachable refuses build execute w calls) : Tracks refuses w := by
  induction h with
  | @main opened listensock w hopen hrun =>
      rw [run_addConnection_joined] at hrun
      cases hrun
      exact tracks_joined (tracks_start opened) hopen rfl
  | wait _ _ ih => exact ih
  | step _ hfresh hrun ih => exact tracks_dispatch ih hfresh hrun

end Runs

/-- In a run in which the kernel has refused nothing, the table and its masks are
the kernel's.  `AddConnection` is consistent exactly when the kernel accepts, and
`EnableReadWrite` exactly when the kernel accepts, or there is no connection, or
both masks were the new one already. -/
theorem rejected_updates_iff (refuses : Nat → Bool) (build : Build)
    (execute : Request → Except Exn Response) :
    (∀ w calls, Reachable refuses build execute w calls →
      Linked w ∧ (Unrefused refuses w → InStep w)) ∧
    ∀ w, Linked w →
      (∀ fd events recver sender excepter,
        AddsConsistently refuses w fd events recver sender excepter ↔
          w.adds refuses fd = true) ∧
      ∀ fd wr rd, TogglesConsistently refuses w fd wr rd ↔
        w.connections fd = none ∨ w.mods refuses fd = true ∨
          w.recordedMask fd = some (readWriteMask wr rd) ∧
            w.interest fd = some (readWriteMask wr rd) := by
  refine ⟨fun w calls h => ?_, fun w h => ⟨?_, ?_⟩⟩
  · have htracks := tracks_of_reachable h
    exact ⟨htracks.linked, htracks.inStep⟩
  · exact addsConsistently_iff refuses w
  · exact togglesConsistently_iff refuses h

def refusesSecond (n : Nat) : Bool := decide (n = 1)

def unwatchedClient : World :=
  ((dispatch refusesSecond .self Calculate.execute acceptAnswers (.read 3)).run
    listening).state

theorem reachable_unwatchedClient :
    Reachable refusesSecond .self Calculate.execute unwatchedClient [] := by
  have hadd : (addConnection refusesSecond 3 (epollIn ||| epollEt) (some .accepter) none
      none).run (start fun fd => fd < 4) = .done () listening := by
    rw [run_addConnection_joined]
    rfl
  have hmain : Reachable refusesSecond .self Calculate.execute listening [] :=
    .main (show decide (3 < 4) = true from rfl) hadd
  have hbatch : Batch listening [(3, epollIn)] :=
    ⟨by decide, by decide, by decide⟩
  have hfresh : FreshAccepts listening acceptAnswers.accepts :=
    ⟨by decide, by decide⟩
  exact (hmain.wait hbatch).step hfresh (Outcome.eq_done_of_isDone (by decide))

/-- It is a key all the same; and when it is to be watched for writing, its mask is
recorded, while the kernel has none. -/
theorem unwatched_client_listed :
    Reachable refusesSecond .self Calculate.execute unwatchedClient [] ∧
      (unwatchedClient.connections 4).isSome ∧ unwatchedClient.interest 4 = none ∧
      ¬ AddsConsistently refusesSecond
        { listening with opened := Function.update listening.opened 4 true } 4
        (epollIn ||| epollEt) (some .handlerRecv) (some .handlerSend) (some .handlerExcept) ∧
      ¬ TogglesConsistently refusesSecond unwatchedClient 4 true true := by
  have hlinked := (tracks_of_reachable reachable_unwatchedClient).linked
  refine ⟨reachable_unwatchedClient, by decide, by decide, ?_, ?_⟩
  · rw [addsConsistently_iff]
    decide
  · rw [togglesConsistently_iff refusesSecond hlinked]
    decide

end World

end LinuxAdvance.Reactor
