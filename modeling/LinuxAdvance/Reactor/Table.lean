import LinuxAdvance.Reactor.Embedding

/-!
# The table of the reactor

The invariant between two calls of handlers: the keys of `_connections` are the
interest set, every entry leads to a live object with that descriptor and that
mask, every object that was ever made is in the table or has been deleted once,
and every client is a session that some wake-ups have made.
-/

namespace LinuxAdvance.Reactor

open LinuxAdvance.Foundation
open LinuxAdvance.Cxx
open LinuxAdvance.System
open LinuxAdvance.Calculator

namespace World

/-- What `main` registers for the listening socket. -/
structure IsListener (conn : Connection) : Prop where
  recver : conn.recver = some .accepter
  sender : conn.sender = none
  attached : conn.attached = true

/-- The object at `p` and its trace are what some wake-ups make of a newly
accepted connection. -/
def IsClient (build : Build) (execute : Request → Except Exn Response) (w : World)
    (p : Ptr) (conn : Connection) : Prop :=
  ∃ wakes s, (Session.runWakes build execute wakes).run
      (Session.opened conn.sockfd) = .done () s ∧
    s.registered = true ∧ s.conn = conn ∧ s.history = w.traces p

structure Inv (build : Build) (execute : Request → Except Exn Response)
    (w : World) : Prop where
  entry : ∀ fd p, w.connections fd = some p → ∃ conn, w.heap p = some conn ∧
    conn.sockfd = fd ∧ w.interest fd = some conn.events ∧ w.opened fd = true
  unwatched : ∀ fd, w.connections fd = none → w.interest fd = none
  listed : ∀ p conn, w.heap p = some conn → w.connections conn.sockfd = some p
  kind : ∀ p conn, w.heap p = some conn →
    IsListener conn ∨ IsClient build execute w p conn
  beyond : ∀ p, w.fresh ≤ p → w.heap p = none ∧ w.traces p = []
  deletedOnce : (w.deleted.map Prod.fst).Nodup
  deletedIff : ∀ p, p ∈ w.deleted.map Prod.fst ↔ p < w.fresh ∧ w.heap p = none
  closedOnce : w.closed = w.deleted.map Prod.snd
  balance : ∀ fd, w.added.count fd =
    w.closed.count fd + if (w.connections fd).isSome then 1 else 0

section Table

variable {build : Build} {execute : Request → Except Exn Response}

theorem IsClient.wired {w : World} {p : Ptr} {conn : Connection}
    (h : IsClient build execute w p conn) : Session.Wired conn := by
  obtain ⟨wakes, s, hrun, -, rfl, -⟩ := h
  exact (Session.good_of_run hrun).sound.wired

theorem inv_start (opened : Fd → Bool) : Inv build execute (start opened) where
  entry := by simp [start]
  unwatched := by simp [start]
  listed := by simp [start]
  kind := by simp [start]
  beyond := by simp [start]
  deletedOnce := by simp [start]
  deletedIff := by simp [start]
  closedOnce := rfl
  balance := by simp [start]

/-! ## Consequences for one object -/

section Object

variable {w : World} (h : Inv build execute w) {p : Ptr} {conn : Connection}
  (hp : w.heap p = some conn)

include h hp

theorem Inv.lt_fresh : p < w.fresh := by
  by_contra hge
  rw [(h.beyond p (Nat.not_lt.mp hge)).1] at hp
  cases hp

theorem Inv.notMem_deleted : p ∉ w.deleted.map Prod.fst := by
  rw [h.deletedIff]
  rintro ⟨-, hnone⟩
  rw [hp] at hnone
  cases hnone

theorem Inv.ptr_ne {fd : Fd} {p' : Ptr} (hfd : fd ≠ conn.sockfd)
    (hp' : w.connections fd = some p') : p' ≠ p := by
  rintro rfl
  obtain ⟨c, hc, hsock, -⟩ := h.entry fd p' hp'
  rw [hp] at hc
  cases hc
  exact hfd hsock.symm

theorem Inv.sockfd_ne {p' : Ptr} {c : Connection} (hne : p' ≠ p)
    (hc : w.heap p' = some c) : c.sockfd ≠ conn.sockfd := by
  intro heq
  have hlisted := h.listed p' c hc
  rw [heq, h.listed p conn hp] at hlisted
  exact hne (Option.some.inj hlisted).symm

end Object

/-! ## Adding a connection -/

def afterAdd (w : World) (conn : Connection) : World :=
  { w with
    added := w.added ++ [conn.sockfd]
    heap := Function.update w.heap w.fresh (some conn)
    fresh := w.fresh + 1
    ctlCalls := w.ctlCalls + 1
    interest := Function.update w.interest conn.sockfd (some conn.events)
    connections := Function.update w.connections conn.sockfd (some w.fresh) }

theorem run_addConnection {w : World} {sockfd : Fd}
    (hopen : w.opened sockfd = true) (hnew : w.connections sockfd = none)
    (hwatch : w.interest sockfd = none) (events : Mask) (recver : Option Recver)
    (sender : Option Sender) (excepter : Option Excepter) :
    (addConnection willing sockfd events recver sender excepter).run w =
      .done () (w.afterAdd (made sockfd events recver sender excepter)) := by
  have hadds : w.adds willing sockfd = true := by simp [adds, hopen, hwatch, willing]
  rw [run_addConnection_joined]
  simp [joined, afterAdd, made, Connection.setSelf, Connection.register, Connection.setEvent,
    hadds, hnew]

theorem inv_afterAdd {w : World} (h : Inv build execute w) (conn : Connection)
    (hopen : w.opened conn.sockfd = true) (hnew : w.connections conn.sockfd = none)
    (hkind : IsListener conn ∨ conn = (Session.opened conn.sockfd).conn) :
    Inv build execute (w.afterAdd conn) where
  entry := by
    intro fd p hp
    by_cases hfd : fd = conn.sockfd
    · subst hfd
      obtain rfl : w.fresh = p := by simpa [afterAdd] using hp
      exact ⟨conn, Function.update_self .., rfl, Function.update_self .., hopen⟩
    · simp only [afterAdd, Function.update_of_ne hfd] at hp ⊢
      obtain ⟨c, hc, hrest⟩ := h.entry fd p hp
      rw [Function.update_of_ne (h.lt_fresh hc).ne]
      exact ⟨c, hc, hrest⟩
  unwatched := by
    intro fd hfd
    by_cases heq : fd = conn.sockfd
    · subst heq
      simp [afterAdd] at hfd
    · simp only [afterAdd, Function.update_of_ne heq] at hfd ⊢
      exact h.unwatched fd hfd
  listed := by
    intro p c hc
    by_cases hp : p = w.fresh
    · subst hp
      obtain rfl : conn = c := by simpa [afterAdd] using hc
      exact Function.update_self ..
    · simp only [afterAdd, Function.update_of_ne hp] at hc ⊢
      -- a live object on the new descriptor would be in the table
      have hne : c.sockfd ≠ conn.sockfd := by
        intro heq
        have hlisted := h.listed p c hc
        rw [heq, hnew] at hlisted
        cases hlisted
      rw [Function.update_of_ne hne]
      exact h.listed p c hc
  kind := by
    intro p c hc
    by_cases hp : p = w.fresh
    · subst hp
      obtain rfl : conn = c := by simpa [afterAdd] using hc
      refine hkind.imp id fun hclient => ?_
      exact ⟨[], _, rfl, rfl, hclient.symm, (h.beyond w.fresh (Nat.le_refl _)).2.symm⟩
    · simp only [afterAdd, Function.update_of_ne hp] at hc
      exact h.kind p c hc
  beyond := by
    intro p hp
    have hne : p ≠ w.fresh := (Nat.lt_of_succ_le hp).ne'
    simp only [afterAdd, Function.update_of_ne hne]
    exact h.beyond p (Nat.le_of_succ_le hp)
  deletedOnce := h.deletedOnce
  deletedIff := by
    intro p
    have hdel := h.deletedIff p
    by_cases hp : p = w.fresh
    · subst hp
      simp only [Nat.lt_irrefl, false_and, iff_false] at hdel
      simp [afterAdd, hdel]
    · simp only [afterAdd, Function.update_of_ne hp]
      rw [hdel, Nat.lt_succ_iff_lt_or_eq, or_iff_left hp]
  closedOnce := h.closedOnce
  balance := by
    intro fd
    have hbal := h.balance fd
    by_cases hfd : fd = conn.sockfd
    · subst hfd
      simp [hnew] at hbal
      simp [afterAdd, hbal]
    · simp only [afterAdd, Function.update_of_ne hfd, List.count_append]
      have hnot : fd ∉ [conn.sockfd] := by simpa using hfd
      rw [List.count_eq_zero_of_not_mem hnot]
      exact hbal

/-! ## Accepting -/

theorem inv_open {w : World} (h : Inv build execute w) {fd : Fd}
    (hclosed : w.opened fd = false) :
    Inv build execute { w with opened := Function.update w.opened fd true } ∧
      w.connections fd = none := by
  have hnone : w.connections fd = none := by
    cases hp : w.connections fd with
    | none => rfl
    | some p =>
        obtain ⟨c, -, -, -, hopen⟩ := h.entry fd p hp
        rw [hclosed] at hopen
        cases hopen
  refine ⟨⟨?_, h.unwatched, h.listed, h.kind, h.beyond, h.deletedOnce, h.deletedIff,
    h.closedOnce, h.balance⟩, hnone⟩
  intro fd' p hp
  obtain ⟨c, hc, hsock, hmask, hopen⟩ := h.entry fd' p hp
  refine ⟨c, hc, hsock, hmask, ?_⟩
  by_cases hfd : fd' = fd
  · subst hfd
    exact Function.update_self ..
  · exact (Function.update_of_ne hfd ..).trans hopen

theorem acceptOne_inv {w : World} (h : Inv build execute w) {p : Ptr}
    {conn : Connection} (hp : w.heap p = some conn) (hattached : conn.attached = true)
    {fd : Fd} (hclosed : w.opened fd = false) :
    ∃ w', (acceptOne willing p fd).run w = .done () w' ∧ Inv build execute w' ∧
      w'.heap p = some conn ∧ w'.opened = Function.update w.opened fd true := by
  obtain ⟨hinv, hnone⟩ := inv_open h hclosed
  refine ⟨_, ?_, inv_afterAdd hinv (Session.opened fd).conn (Function.update_self ..)
    hnone (.inr rfl), ?_, rfl⟩
  · rw [acceptOne, Proc.run_modify_bind, Proc.run_bind_done (run_deref (by exact hp)),
      reactorOf, if_pos hattached, Proc.pure_bind]
    exact run_addConnection
      (w := { w with opened := Function.update w.opened fd true })
      (Function.update_self ..) hnone (h.unwatched fd hnone) _ _ _ _
  · exact (Function.update_of_ne (h.lt_fresh hp).ne ..).trans hp

theorem accepter_inv {w : World} (h : Inv build execute w) {p : Ptr}
    {conn : Connection} (hp : w.heap p = some conn) (hattached : conn.attached = true)
    {results : List AcceptResult} (hfresh : FreshAccepts w results) :
    ((accepter willing p results).run w).Ends (fun _ => Inv build execute)
      (fun e _ => e = none) := by
  rw [accepter, Proc.run_bind_done (run_deref hp)]
  induction results generalizing w with
  | nil => exact rfl
  | cons result results ih =>
      cases result with
      | conn fd =>
          have hdistinct := List.nodup_cons.mp hfresh.distinct
          obtain ⟨w', hrun, hinv, hp', hopened⟩ :=
            acceptOne_inv h hp hattached (hfresh.closed fd (by simp [acceptedFds]))
          rw [acceptLoop, Proc.run_bind_done hrun]
          refine ih hinv hp' ⟨hdistinct.2, fun fd' hfd' => ?_⟩
          have hne : fd' ≠ fd := fun heq => hdistinct.1 (heq ▸ hfd')
          rw [hopened, Function.update_of_ne hne]
          exact hfresh.closed fd' (List.mem_cons_of_mem fd hfd')
      | fail errno =>
          rw [acceptLoop]
          split
          · exact h
          split
          · exact ih h hp ⟨hfresh.distinct, hfresh.closed⟩
          · exact h

/-! ## A client -/

theorem embed_self {w : World} {p : Ptr} {k : Fd} {s : Session}
    (hreg : s.registered = true) (hheap : w.heap p = some s.conn)
    (hconn : w.connections k = some p) (hmask : w.interest k = some s.conn.events)
    (hopen : w.opened k = true) (htrace : w.traces p = s.history) :
    embed w p k w.ctlCalls s = w := by
  have heq : ∀ {α β : Type} [DecidableEq α] (f : α → β) (a : α) (b : β),
      f a = b → Function.update f a b = f := by
    rintro α β _ f a _ rfl
    exact Function.update_eq_self a f
  simp only [embed, hreg, if_true, heq _ _ _ hheap, heq _ _ _ hconn, heq _ _ _ hmask,
    heq _ _ _ hopen, heq _ _ _ htrace]

section Embed

variable {w : World} (h : Inv build execute w) {p : Ptr} {conn : Connection}
  (hp : w.heap p = some conn) {calls : Nat} {s : Session}

include h hp

theorem Inv.entry_embed_of_ne {fd : Fd} (hfd : fd ≠ conn.sockfd) {p' : Ptr}
    (hp' : (embed w p conn.sockfd calls s).connections fd = some p') :
    ∃ c, (embed w p conn.sockfd calls s).heap p' = some c ∧ c.sockfd = fd ∧
      (embed w p conn.sockfd calls s).interest fd = some c.events ∧
      (embed w p conn.sockfd calls s).opened fd = true := by
  simp only [embed, Function.update_of_ne hfd] at hp' ⊢
  obtain ⟨c, hc, hrest⟩ := h.entry fd p' hp'
  rw [Function.update_of_ne (h.ptr_ne hp hfd hp')]
  exact ⟨c, hc, hrest⟩

theorem Inv.listed_embed_of_ne {p' : Ptr} (hp' : p' ≠ p) {c : Connection}
    (hc : (embed w p conn.sockfd calls s).heap p' = some c) :
    (embed w p conn.sockfd calls s).connections c.sockfd = some p' := by
  simp only [embed, Function.update_of_ne hp'] at hc ⊢
  rw [Function.update_of_ne (h.sockfd_ne hp hp' hc)]
  exact h.listed p' c hc

omit hp in
theorem Inv.unwatched_embed_of_ne {fd : Fd} (hfd : fd ≠ conn.sockfd)
    (hnone : (embed w p conn.sockfd calls s).connections fd = none) :
    (embed w p conn.sockfd calls s).interest fd = none := by
  simp only [embed, Function.update_of_ne hfd] at hnone ⊢
  exact h.unwatched fd hnone

omit hp in
theorem Inv.kind_embed_of_ne {p' : Ptr} (hp' : p' ≠ p) {c : Connection}
    (hc : (embed w p conn.sockfd calls s).heap p' = some c) :
    IsListener c ∨ IsClient build execute (embed w p conn.sockfd calls s) p' c := by
  simp only [embed, Function.update_of_ne hp'] at hc
  refine (h.kind p' c hc).imp id ?_
  rintro ⟨wakes, s', hrun, hreg, hconn, hhist⟩
  refine ⟨wakes, s', hrun, hreg, hconn, ?_⟩
  rw [hhist]
  exact (Function.update_of_ne hp' ..).symm

theorem Inv.beyond_embed {p' : Ptr} (hp' : w.fresh ≤ p') :
    (embed w p conn.sockfd calls s).heap p' = none ∧
      (embed w p conn.sockfd calls s).traces p' = [] := by
  have hne : p' ≠ p := (Nat.lt_of_lt_of_le (h.lt_fresh hp) hp').ne'
  simp only [embed, Function.update_of_ne hne]
  exact h.beyond p' hp'

theorem inv_embed_registered (hreg : s.registered = true) (hk : s.conn.sockfd = conn.sockfd)
    (hclient : IsClient build execute (embed w p conn.sockfd calls s) p s.conn) :
    Inv build execute (embed w p conn.sockfd calls s) where
  entry := by
    intro fd p' hp'
    by_cases hfd : fd = conn.sockfd
    · subst hfd
      obtain rfl : p = p' := by simpa [embed, hreg] using hp'
      exact ⟨s.conn, embed_heap hreg, hk, embed_interest hreg, embed_opened hreg⟩
    · exact h.entry_embed_of_ne hp hfd hp'
  unwatched := by
    intro fd hnone
    by_cases hfd : fd = conn.sockfd
    · subst hfd
      simp [embed, hreg] at hnone
    · exact h.unwatched_embed_of_ne hfd hnone
  listed := by
    intro p' c hc
    by_cases hp' : p' = p
    · subst hp'
      obtain rfl : s.conn = c := by simpa [embed, hreg] using hc
      rw [hk]
      exact embed_connections hreg
    · exact h.listed_embed_of_ne hp hp' hc
  kind := by
    intro p' c hc
    by_cases hp' : p' = p
    · subst hp'
      obtain rfl : s.conn = c := by simpa [embed, hreg] using hc
      exact .inr hclient
    · exact h.kind_embed_of_ne hp' hc
  beyond := fun _ => h.beyond_embed hp
  deletedOnce := by simpa [embed, hreg] using h.deletedOnce
  deletedIff := by
    intro p'
    by_cases hp' : p' = p
    · subst hp'
      simp [embed, hreg, h.notMem_deleted hp]
    · simp only [embed, hreg, if_true, Function.update_of_ne hp']
      exact h.deletedIff p'
  closedOnce := by simpa [embed, hreg] using h.closedOnce
  balance := by
    intro fd
    have hbal := h.balance fd
    by_cases hfd : fd = conn.sockfd
    · subst hfd
      rw [h.listed p conn hp] at hbal
      simpa [embed, hreg] using hbal
    · simpa [embed, hreg, Function.update_of_ne hfd] using hbal

theorem inv_embed_removed (hreg : s.registered = false) :
    Inv build execute (embed w p conn.sockfd calls s) where
  entry := by
    intro fd p' hp'
    by_cases hfd : fd = conn.sockfd
    · subst hfd
      simp [embed, hreg] at hp'
    · exact h.entry_embed_of_ne hp hfd hp'
  unwatched := by
    intro fd hnone
    by_cases hfd : fd = conn.sockfd
    · subst hfd
      simp [embed, hreg]
    · exact h.unwatched_embed_of_ne hfd hnone
  listed := by
    intro p' c hc
    by_cases hp' : p' = p
    · subst hp'
      simp [embed, hreg] at hc
    · exact h.listed_embed_of_ne hp hp' hc
  kind := by
    intro p' c hc
    by_cases hp' : p' = p
    · subst hp'
      simp [embed, hreg] at hc
    · exact h.kind_embed_of_ne hp' hc
  beyond := fun _ => h.beyond_embed hp
  deletedOnce := by
    have hdisjoint : ∀ a ∈ w.deleted.map Prod.fst, ∀ b ∈ [p], a ≠ b := by
      intro a ha b hb hab
      rw [hab, List.mem_singleton.mp hb] at ha
      exact h.notMem_deleted hp ha
    simp only [embed, hreg, Bool.false_eq_true, if_false, List.map_append]
    exact List.nodup_append.mpr ⟨h.deletedOnce, List.nodup_singleton p, hdisjoint⟩
  deletedIff := by
    intro p'
    by_cases hp' : p' = p
    · subst hp'
      simp [embed, hreg, h.lt_fresh hp]
    · simp only [embed, hreg, Bool.false_eq_true, if_false, List.map_append,
        Function.update_of_ne hp', List.mem_append]
      rw [h.deletedIff p']
      simp [hp']
  closedOnce := by simp [embed, hreg, h.closedOnce]
  balance := by
    intro fd
    have hbal := h.balance fd
    by_cases hfd : fd = conn.sockfd
    · subst hfd
      rw [h.listed p conn hp] at hbal
      simpa [embed, hreg] using hbal
    · simp only [embed, hreg, Bool.false_eq_true, if_false, Function.update_of_ne hfd,
        List.count_append]
      have hnot : fd ∉ [conn.sockfd] := by simpa using hfd
      rw [List.count_eq_zero_of_not_mem hnot]
      exact hbal

theorem inv_embed (wakes : List Wake)
    (hrun : (Session.runWakes build execute wakes).run
      (Session.opened conn.sockfd) = .done () s)
    (hk : s.conn.sockfd = conn.sockfd) :
    Inv build execute (embed w p conn.sockfd calls s) := by
  cases hreg : s.registered with
  | true =>
      have hclient : IsClient build execute (embed w p conn.sockfd calls s) p s.conn :=
        ⟨wakes, s, hk ▸ hrun, hreg, rfl, by simp [embed]⟩
      exact inv_embed_registered h hp hreg hk hclient
  | false => exact inv_embed_removed h hp hreg

end Embed

end Table

end World

end LinuxAdvance.Reactor
