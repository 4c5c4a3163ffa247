import LinuxAdvance.Reactor.Receive

/-!
# The wake-ups of a connection

A wake-up is one call of a handler by `LoopOnce`, with the answers its system
calls get.  A run of a connection is any list of wake-ups.  The invariant below
holds between the wake-ups of every run: the connection is wired, its events say
whether output is waiting, what was sent and what is waiting is what was
appended, and every round of the parser answered its package.
-/

namespace LinuxAdvance.Reactor

open LinuxAdvance.Foundation
open LinuxAdvance.Cxx
open LinuxAdvance.System
open LinuxAdvance.Calculator

/-- `uninit` is what the `Request` of `Parse` holds before it is assigned. -/
inductive Wake where
  | read (recvs : List RecvResult) (sends : List SendResult) (uninit : Request)
  | write (sends : List SendResult)
  deriving DecidableEq, Repr

def Wake.recvs : Wake → List RecvResult
  | read recvs _ _ => recvs
  | write _ => []

namespace Session

section Wakes

variable (build : Build) (execute : Request → Except Exn Response)

def handle : Wake → Proc Fault Session Unit
  | .read recvs sends uninit => do
      let s ← Proc.get
      if s.registered = true ∧ s.conn.recver = some .handlerRecv then
        handlerRecv api (parse api build execute uninit sends) recvs
  | .write sends => do
      let s ← Proc.get
      if s.registered = true ∧ s.conn.sender = some .handlerSend then
        handlerSend api sends

def runWakes : List Wake → Proc Fault Session Unit :=
  Proc.forEach (handle build execute)

/-! ## The invariant -/

structure Sound (fd : Fd) (s : Session) : Prop where
  sockfd : s.conn.sockfd = fd
  wired : Wired s.conn
  ledger : s.sentBytes ++ s.conn.outbuffer = s.appendedBytes
  nulFree : (0 : UInt8) ∉ s.conn.inbuffer
  answered : ∀ round ∈ s.rounds, Answered build execute round

structure Good (fd : Fd) (s : Session) : Prop where
  sound : Sound build execute fd s
  settled : s.registered = true → Settled s.conn

variable {build execute} {fd : Fd} {s s' : Session}

theorem notMem_stored (r : RecvResult) : (0 : UInt8) ∉ stored r := by
  cases r with
  | data chunk => exact notMem_ofCString _
  | eof => simp [stored]
  | fail e => simp [stored]

theorem Sound.afterRecvs (h : Sound build execute fd s) (results : List RecvResult) :
    Sound build execute fd (s.afterRecvs results) where
  sockfd := h.sockfd
  wired := wired_afterRecvs s results h.wired
  ledger := by
    have := h.ledger
    simpa [appendedBytes] using this
  nulFree := by
    simp only [afterRecvs_inbuffer, List.mem_append, List.mem_flatMap, not_or]
    refine ⟨h.nulFree, ?_⟩
    rintro ⟨r, -, hr⟩
    exact notMem_stored r hr
  answered := by
    rw [afterRecvs_rounds]
    exact h.answered

theorem Sound.withInbuffer (h : Sound build execute fd s) {package rest : Bytes}
    (hdecode : decode s.conn.inbuffer = .ok (package, rest)) :
    Sound build execute fd (s.withInbuffer rest) where
  sockfd := h.sockfd
  wired := h.wired.update _ _ _
  ledger := h.ledger
  nulFree := fun h0 => h.nulFree ((decode_subset hdecode).2 h0)
  answered := h.answered

theorem Sound.afterRound (h : Sound build execute fd s) {round : Round}
    (hround : Answered build execute round) :
    Sound build execute fd (s.afterRound round) where
  sockfd := h.sockfd
  wired := h.wired.update _ _ _
  ledger := by
    rw [afterRound_sentBytes, afterRound_outbuffer, ← List.append_assoc, h.ledger,
      appendedBytes, appendedBytes, afterRound_rounds, List.flatMap_append]
    simp
  nulFree := h.nulFree
  answered := by
    rw [afterRound_rounds]
    intro r hr
    rcases List.mem_append.mp hr with hr | hr
    · exact h.answered r hr
    · exact List.mem_singleton.mp hr ▸ hround

theorem Sound.sends (h : Sound build execute fd s) (hs : Sends s s') :
    Sound build execute fd s' where
  sockfd := hs.sockfd.trans h.sockfd
  wired := hs.wired h.wired
  ledger := by
    rw [hs.ledger, h.ledger, appendedBytes, appendedBytes, hs.rounds]
  nulFree := hs.inbuffer ▸ h.nulFree
  answered := hs.rounds ▸ h.answered

theorem settled_opened (fd : Fd) : Settled (opened fd).conn := by
  have hevents : (opened fd).conn.events = epollIn ||| epollEt := rfl
  have hout : (opened fd).conn.outbuffer = [] := rfl
  refine ⟨?_, ?_, ?_⟩ <;> rw [hevents]
  · decide
  · decide
  · rw [hout]
    decide

variable (build execute) in
theorem good_opened (fd : Fd) : Good build execute fd (opened fd) where
  sound := {
    sockfd := rfl
    wired := ⟨rfl, rfl, rfl, rfl⟩
    ledger := rfl
    nulFree := by simp [opened, Connection.setEvent, Connection.register,
      Connection.setSelf]
    answered := by simp [opened, rounds] }
  settled := fun _ => settled_opened fd

/-! ## One wake-up -/

/-- Inside the parser: output may have been appended since the events were
set, but none has gone. -/
structure Appending (conn : Connection) : Prop where
  reads : conn.events &&& epollIn ≠ 0
  edge : conn.events &&& epollEt ≠ 0
  writes : conn.events &&& epollOut ≠ 0 → conn.outbuffer ≠ []

theorem handlerSend_good (sends : List SendResult) :
    Proc.Triple (fun s => Sound build execute fd s ∧ s.registered = true)
      (handlerSend api sends) (fun _ => Good build execute fd)
      (Threw (Sound build execute fd)) := by
  rintro s ⟨hs, h⟩
  exact (handlerSend_ends sends h hs.wired).mono
    (fun _ s' hs' => ⟨hs.sends hs'.1, hs'.2⟩)
    (fun _ s' hs' => ⟨.inl hs'.1, hs.sends hs'.2⟩)

variable (build execute) in
theorem parse_good (uninit : Request) (sends : List SendResult) :
    Proc.Triple
      (fun s => Sound build execute fd s ∧ s.registered = true ∧ Settled s.conn)
      (parse api build execute uninit sends) (fun _ => Good build execute fd)
      (Threw (Sound build execute fd)) := by
  have hdrain := drain_parse_ends (I := fun s => Sound build execute fd s ∧ s.registered = true ∧ Appending s.conn)
    (fun s hs => hs.2.1)
    (fun s package rest hs hd => ⟨hs.1.withInbuffer hd, hs.2.1,
      hs.2.2.reads, hs.2.2.edge, hs.2.2.writes⟩)
    (by
      rintro s round rest ⟨hs, h, happ⟩ hd hne hanswers
      have hround : Answered build execute round :=
        ⟨hanswers, hne, fun h0 => hs.nulFree ((decode_subset hd).1 h0),
          decode_length_lt hd⟩
      refine ⟨(hs.withInbuffer hd).afterRound hround, h, happ.reads, happ.edge, ?_⟩
      intro hout
      have := happ.writes hout
      simp [Session.afterRound, Session.withInbuffer, this])
    uninit
  apply Proc.Triple.bind (M := fun _ s =>
    Sound build execute fd s ∧ s.registered = true ∧ Appending s.conn)
  · exact hdrain.consequence
      (fun s hs => ⟨hs.1, hs.2.1, hs.2.2.reads, hs.2.2.edge, hs.2.2.writes.mp⟩)
      (fun _ s hs => hs) (fun e s hs => ⟨hs.1, hs.2.1⟩)
  · rintro req s ⟨hs, h, happ⟩
    rw [Proc.run_bind_done (run_deref h)]
    by_cases hout : s.conn.outbuffer = []
    · rw [if_neg (not_not_intro hout)]
      refine ⟨hs, fun _ => ⟨happ.reads, happ.edge, happ.writes, ?_⟩⟩
      exact fun hne => absurd hout hne
    · rw [if_pos hout, run_callSender h hs.wired]
      exact handlerSend_good sends s ⟨hs, h⟩

/-- One wake-up keeps the invariant; it can end in an exception of the parser,
but in no other error. -/
theorem handle_good (w : Wake) :
    Proc.Triple (Good build execute fd) (handle build execute w)
      (fun _ => Good build execute fd) (Threw (Sound build execute fd)) := by
  intro s hs
  cases w with
  | read recvs sends uninit =>
      rw [handle, Proc.run_get_bind]
      split
      · next hguard =>
        refine handlerRecv_ends
          (I := fun s => Sound build execute fd s ∧ s.registered = true ∧ Settled s.conn)
          (fun s hs => ⟨hs.2.1, hs.1.wired⟩)
          (fun s r hs => ⟨hs.1.afterRecvs [r], hs.2.1, hs.2.2.reads, hs.2.2.edge, ?_⟩)
          (parse_good build execute uninit sends) ?_ (fun s hs => ⟨.inl rfl, hs.1⟩) recvs s
          ⟨hs.sound, hguard.1, hs.settled hguard.1⟩
        · exact hs.2.2.writes
        · intro s hs
          exact ⟨hs.1.sends (sends_removed s), fun h => by simp [removed] at h⟩
      · exact hs
  | write sends =>
      rw [handle, Proc.run_get_bind]
      split
      · next hguard => exact handlerSend_good sends s ⟨hs.sound, hguard.1⟩
      · exact hs

/-! ## Whole runs -/

theorem runWakes_good (wakes : List Wake) :
    Proc.Triple (Good build execute fd) (runWakes build execute wakes)
      (fun _ => Good build execute fd) (Threw (Sound build execute fd)) :=
  Proc.Triple.forEach fun w _ => handle_good w

theorem good_of_run {wakes : List Wake}
    (h : (runWakes build execute wakes).run (opened fd) = .done () s) :
    Good build execute fd s := by
  have hends := runWakes_good wakes (opened fd) (good_opened build execute fd)
  rw [h] at hends
  exact hends

end Wakes

end Session

end LinuxAdvance.Reactor
