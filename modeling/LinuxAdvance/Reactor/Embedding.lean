import LinuxAdvance.Reactor.Updates
import LinuxAdvance.Reactor.Wakes

/-!
# A connection of the reactor is a session

While a handler of one connection runs, the world changes only where the
connection is: its object, its entry, its mask, its descriptor, its trace.  So
the world is a function of a `Session`, and every operation a handler has on the
heap does to the world what it does to the session.  This is shown for a kernel
that refuses nothing.
-/

namespace LinuxAdvance.Reactor

open LinuxAdvance.Foundation
open LinuxAdvance.Cxx
open LinuxAdvance.System
open LinuxAdvance.Calculator

namespace World

/-- A kernel that accepts every call with valid arguments. -/
def willing : Nat → Bool := fun _ => false

/-! ## The world as a function of a session -/

/-- `w` with the object at `p` and the descriptor `k` as the session has them. -/
def embed (w : World) (p : Ptr) (k : Fd) (calls : Nat) (s : Session) : World :=
  { w with
    heap := Function.update w.heap p (if s.registered then some s.conn else none)
    connections :=
      Function.update w.connections k (if s.registered then some p else none)
    interest :=
      Function.update w.interest k (if s.registered then some s.conn.events else none)
    opened := Function.update w.opened k s.registered
    ctlCalls := calls
    deleted := if s.registered then w.deleted else w.deleted ++ [(p, k)]
    closed := if s.registered then w.closed else w.closed ++ [k]
    traces := Function.update w.traces p s.history }

def Embedded (w₀ : World) (p : Ptr) (k : Fd) (w : World) (s : Session) : Prop :=
  s.conn.sockfd = k ∧ ∃ calls, w = embed w₀ p k calls s

section Embed

variable {w₀ : World} {p : Ptr} {k : Fd} {calls : Nat} {s : Session}

theorem embed_heap (h : s.registered = true) :
    (embed w₀ p k calls s).heap p = some s.conn := by
  simp [embed, h]

theorem embed_heap_none (h : s.registered = false) :
    (embed w₀ p k calls s).heap p = none := by
  simp [embed, h]

theorem embed_connections (h : s.registered = true) :
    (embed w₀ p k calls s).connections k = some p := by
  simp [embed, h]

theorem embed_opened (h : s.registered = true) :
    (embed w₀ p k calls s).opened k = true := by
  simp [embed, h]

theorem embed_interest (h : s.registered = true) :
    (embed w₀ p k calls s).interest k = some s.conn.events := by
  simp [embed, h]

/-- Both raise when the object is gone; a registered one has to be looked at. -/
theorem sim_live {α : Type} {f : Connection → Proc Fault World α}
    {g : Connection → Proc Fault Session α}
    (hfg : ∀ w s, Embedded w₀ p k w s → s.registered = true →
      w.heap p = some s.conn → ((f s.conn).run w).Rel (Embedded w₀ p k) ((g s.conn).run s)) :
    Proc.Sim (Embedded w₀ p k) (deref p >>= f) (Session.live >>= g) := by
  rintro w s ⟨hk, calls, rfl⟩
  by_cases h : s.registered = true
  · rw [Proc.run_bind_done (run_deref (embed_heap h)),
      Proc.run_bind_done (Session.run_live h)]
    exact hfg _ s ⟨hk, calls, rfl⟩ h (embed_heap h)
  · have h' : s.registered = false := by simpa using h
    have hlive : Session.live.run s = .raised .useAfterFree s := by
      simp [Session.live, h']
    rw [Proc.run_bind_raised (run_deref_none (embed_heap_none h')),
      Proc.run_bind_raised hlive]
    exact ⟨rfl, hk, calls, rfl⟩

theorem embed_store (h : s.registered = true) (conn : Connection)
    (hevents : conn.events = s.conn.events) :
    { embed w₀ p k calls s with
      heap := Function.update (embed w₀ p k calls s).heap p (some conn) } =
      embed w₀ p k calls { s with conn } := by
  simp [embed, h, hevents]

theorem run_enableReadWrite (h : s.registered = true) (hk : s.conn.sockfd = k)
    (wr rd : Bool) :
    (enableReadWrite willing s.conn.sockfd wr rd).run (embed w₀ p k calls s) =
      .done () (embed w₀ p k (calls + 1)
        { s with conn := s.conn.setEvent (readWriteMask wr rd) }) := by
  rw [hk, run_enableReadWrite_toggled willing (embed_connections h) (embed_heap h)]
  simp [toggled, mods, embed, h, willing, Connection.setEvent]

theorem run_removeConnection (h : s.registered = true) (hk : s.conn.sockfd = k) :
    (removeConnection willing s.conn.sockfd).run (embed w₀ p k calls s) =
      .done () (embed w₀ p k (calls + 1) { s with registered := false }) := by
  rw [hk, run_removeConnection_dropped willing (embed_connections h) (embed_heap h) hk
    (embed_opened h)]
  simp [dropped, embed, h]

theorem api_sim (w₀ : World) (p : Ptr) (k : Fd) :
    ConnApi.Sim (Embedded w₀ p k) (api willing p) Session.api where
  deref := by
    rintro w s ⟨hk, calls, rfl⟩
    by_cases h : s.registered = true
    · change ((deref p).run _).Rel _ (Session.live.run s)
      rw [run_deref (embed_heap h), Session.run_live h]
      exact ⟨rfl, hk, calls, rfl⟩
    · have h' : s.registered = false := by simpa using h
      change ((deref p).run _).Rel _ (Session.live.run s)
      rw [run_deref_none (embed_heap_none h')]
      simp only [Session.live, Proc.run_get_bind, h']
      exact ⟨rfl, hk, calls, rfl⟩
  setInbuffer inbuffer := by
    apply sim_live
    rintro w s ⟨hk, calls, rfl⟩ h hheap
    rw [run_store hheap]
    exact ⟨rfl, hk, calls, embed_store h _ rfl⟩
  setOutbuffer outbuffer := by
    apply sim_live
    rintro w s ⟨hk, calls, rfl⟩ h hheap
    rw [run_store hheap]
    exact ⟨rfl, hk, calls, embed_store h _ rfl⟩
  enableReadWrite wr rd := by
    apply sim_live
    rintro w s ⟨hk, calls, rfl⟩ h hheap
    by_cases hattached : s.conn.attached = true
    · simp only [reactorOf, Session.reactorOf, if_pos hattached, Proc.pure_bind]
      rw [run_enableReadWrite h hk]
      exact ⟨rfl, hk, calls + 1, rfl⟩
    · simp only [reactorOf, Session.reactorOf, if_neg hattached, Proc.raise_bind]
      exact ⟨rfl, hk, calls, rfl⟩
  removeConnection := by
    apply sim_live
    rintro w s ⟨hk, calls, rfl⟩ h hheap
    by_cases hattached : s.conn.attached = true
    · simp only [reactorOf, Session.reactorOf, if_pos hattached, Proc.pure_bind]
      rw [run_removeConnection h hk]
      exact ⟨rfl, hk, calls + 1, rfl⟩
    · simp only [reactorOf, Session.reactorOf, if_neg hattached, Proc.raise_bind]
      exact ⟨rfl, hk, calls, rfl⟩
  record e := by
    rintro w s ⟨hk, calls, rfl⟩
    refine ⟨rfl, hk, calls, ?_⟩
    simp [embed]

end Embed

end World

end LinuxAdvance.Reactor
