import LinuxAdvance.Reactor.Session

/-!
# Receiving and parsing on one connection

What the loop of `HandlerRecv` and the loop of `Parse` do to a `Session`: step
by step as equations, and for whole loops as rules for a property of the session
that every step keeps.
-/

namespace LinuxAdvance.Reactor

open LinuxAdvance.Foundation
open LinuxAdvance.Cxx
open LinuxAdvance.System
open LinuxAdvance.Calculator

namespace Session

/-! ## The loop of `HandlerRecv` -/

/-- What a result of `recv` adds to `_inbuffer`: the chunk is appended as a C
string. -/
def stored : RecvResult → Bytes
  | .data chunk => ofCString chunk.bytes
  | _ => []

def afterRecvs (s : Session) (results : List RecvResult) : Session :=
  { s with
    conn := { s.conn with inbuffer := s.conn.inbuffer ++ results.flatMap stored }
    history := s.history ++ results.map .received }

section AfterRecvs

variable (s : Session) (results : List RecvResult)

@[simp] theorem afterRecvs_nil : s.afterRecvs [] = s := by
  simp [afterRecvs]

@[simp] theorem afterRecvs_append (results' : List RecvResult) :
    (s.afterRecvs results).afterRecvs results' =
      s.afterRecvs (results ++ results') := by
  simp [afterRecvs]

@[simp] theorem afterRecvs_registered :
    (s.afterRecvs results).registered = s.registered := rfl

@[simp] theorem afterRecvs_inbuffer :
    (s.afterRecvs results).conn.inbuffer =
      s.conn.inbuffer ++ results.flatMap stored := rfl

@[simp] theorem afterRecvs_outbuffer :
    (s.afterRecvs results).conn.outbuffer = s.conn.outbuffer := rfl

@[simp] theorem afterRecvs_receivedBytes :
    (s.afterRecvs results).receivedBytes =
      s.receivedBytes ++ results.flatMap RecvResult.bytes := by
  simp [afterRecvs, receivedBytes, List.flatMap_map, IoEvent.receivedBytes]

@[simp] theorem afterRecvs_rounds : (s.afterRecvs results).rounds = s.rounds := by
  simp [afterRecvs, rounds, List.filterMap_map, Function.comp_def, IoEvent.round]

@[simp] theorem afterRecvs_sentBytes :
    (s.afterRecvs results).sentBytes = s.sentBytes := by
  simp [afterRecvs, sentBytes, List.flatMap_map, IoEvent.sentBytes]

theorem wired_afterRecvs (h : Wired s.conn) : Wired (s.afterRecvs results).conn :=
  h.update _ _ _

end AfterRecvs

section RecvLoop

variable {func : Proc Fault Session Unit}

theorem recvLoop_data {s : Session} (h : s.registered = true) (chunk : Chunk)
    (results : List RecvResult) (errno : Nat) :
    (recvLoop api func (.data chunk :: results) errno).run s =
      (recvLoop api func results errno).run (s.afterRecvs [.data chunk]) := by
  rw [recvLoop, Proc.run_bind_done (run_deref h), Proc.run_bind_done (run_record _),
    Proc.run_bind_done (run_appendInbuff (by exact h) _)]
  simp [afterRecvs, stored]

theorem recvLoop_stopped {s : Session} (h : s.registered = true)
    {result : RecvResult} (hdata : ∀ chunk, result ≠ .data chunk)
    (results : List RecvResult) (errno : Nat) :
    (recvLoop api func (result :: results) errno).run s =
      (recvStopped api func
        (recvLoop api func results (errnoAfter errno result))
        (errnoAfter errno result)).run (s.afterRecvs [result]) := by
  have hstate : ∀ e, stored e = [] → s.afterRecvs [e] =
      { s with history := s.history ++ [.received e] } := by
    intro e he
    simp [afterRecvs, he]
  cases result with
  | data chunk => exact absurd rfl (hdata chunk)
  | eof =>
      rw [recvLoop, Proc.run_bind_done (run_deref h),
        Proc.run_bind_done (run_record _), hstate _ rfl]
      simp
  | fail e =>
      rw [recvLoop, Proc.run_bind_done (run_deref h),
        Proc.run_bind_done (run_record _), hstate _ rfl]
      simp

def Quiet : RecvResult → Prop
  | .data _ => True
  | .eof => False
  | .fail errno => errno = eintr

theorem recvLoop_quiet {s : Session} (h : s.registered = true)
    {quiet : List RecvResult} (hquiet : ∀ r ∈ quiet, Quiet r)
    (results : List RecvResult) (errno : Nat) :
    (recvLoop api func (quiet ++ results) errno).run s =
      (recvLoop api func results (quiet.foldl errnoAfter errno)).run
        (s.afterRecvs quiet) := by
  induction quiet generalizing s errno with
  | nil => simp
  | cons r quiet ih =>
      have hr := hquiet r (by simp)
      have hrest := ih (s := s.afterRecvs [r]) (by exact h)
        (fun q hq => hquiet q (by simp [hq])) (errnoAfter errno r)
      rw [afterRecvs_append, List.singleton_append] at hrest
      rw [List.foldl_cons, ← hrest, List.cons_append]
      cases r with
      | data chunk => exact recvLoop_data h chunk _ errno
      | eof => exact False.elim hr
      | fail e =>
          cases hr
          rw [recvLoop_stopped h (by simp), recvStopped, errnoAfter,
            if_neg (by decide), if_pos rfl]

theorem recvLoop_eagain {s : Session} (h : s.registered = true)
    (results : List RecvResult) (errno : Nat) :
    (recvLoop api func (.fail eagain :: results) errno).run s =
      func.run (s.afterRecvs [.fail eagain]) := by
  rw [recvLoop_stopped h (by simp), recvStopped, if_pos (.inr rfl)]

theorem handlerRecv_eagain {s : Session} (h : s.registered = true)
    {quiet : List RecvResult} (hquiet : ∀ r ∈ quiet, Quiet r)
    (results : List RecvResult) :
    (handlerRecv api func (quiet ++ .fail eagain :: results)).run s =
      func.run (s.afterRecvs (quiet ++ [.fail eagain])) := by
  rw [handlerRecv, recvLoop_quiet h hquiet, recvLoop_eagain (by exact h),
    afterRecvs_append]

/-- The rule of the loop: the callback runs, or the connection is removed, or
the loop waits, each time in a session that has only received. -/
theorem handlerRecv_ends {I : Session → Prop} {Q : Unit → Session → Prop}
    {X : Option Fault → Session → Prop}
    (hlive : ∀ s, I s → s.registered = true ∧ Wired s.conn)
    (hrecv : ∀ s r, I s → I (s.afterRecvs [r]))
    (hfunc : Proc.Triple I func Q X) (hremoved : ∀ s, I s → Q () s.removed)
    (hwait : ∀ s, I s → X none s) (results : List RecvResult) :
    Proc.Triple I (handlerRecv api func results) Q X := by
  unfold handlerRecv
  generalize (0 : Nat) = errno
  induction results generalizing errno with
  | nil => exact Proc.Triple.block hwait
  | cons r results ih =>
      intro s hs
      have hs' := hrecv s r hs
      obtain ⟨h, hwired⟩ := hlive s hs
      have stops : ∀ errno', ((recvStopped api func
          (recvLoop api func results errno') errno').run
            (s.afterRecvs [r])).Ends Q X := by
        intro errno'
        unfold recvStopped
        split
        · exact hfunc _ hs'
        split
        · exact ih errno' _ hs'
        · rw [run_callExcepter (by exact h) (wired_afterRecvs s _ hwired)]
          exact hremoved _ hs'
      cases r with
      | data chunk =>
          rw [recvLoop_data h]
          exact ih errno _ hs'
      | eof =>
          rw [recvLoop_stopped h (by simp)]
          exact stops _
      | fail e =>
          rw [recvLoop_stopped h (by simp)]
          exact stops _

end RecvLoop

/-! ## The loop of `Parse` -/

def afterRound (s : Session) (round : Round) : Session :=
  { s with
    conn := { s.conn with outbuffer := s.conn.outbuffer ++ round.frame }
    history := s.history ++ [.answered round] }

def withInbuffer (s : Session) (inbuffer : Bytes) : Session :=
  { s with conn := { s.conn with inbuffer } }

section AfterRound

variable (s : Session) (round : Round)

@[simp] theorem afterRound_receivedBytes :
    (s.afterRound round).receivedBytes = s.receivedBytes := by
  simp [afterRound, receivedBytes, IoEvent.receivedBytes]

@[simp] theorem afterRound_rounds :
    (s.afterRound round).rounds = s.rounds ++ [round] := by
  simp [afterRound, rounds, IoEvent.round]

@[simp] theorem afterRound_sentBytes :
    (s.afterRound round).sentBytes = s.sentBytes := by
  simp [afterRound, sentBytes, IoEvent.sentBytes]

@[simp] theorem afterRound_outbuffer :
    (s.afterRound round).conn.outbuffer = s.conn.outbuffer ++ round.frame := rfl

end AfterRound

section Parse

variable {build : Build} {execute : Request → Except Exn Response}

theorem parseBody_of_answer {s : Session} (h : s.registered = true)
    {package : Bytes} {req : Request} {round : Round}
    (hanswer : (answer build execute package req).run s = .done round s) :
    (parseBody api build execute package req).run s =
      .done round.req (s.afterRound round) := by
  rw [parseBody, Proc.run_bind_done hanswer, Proc.run_bind_done (run_record _),
    Proc.run_bind_done (run_appendOutbuff (by exact h) _)]
  rfl

theorem parseBody_cases {s : Session} (h : s.registered = true)
    (package : Bytes) (req : Request) :
    (∃ round, Answers build execute round ∧ round.package = package ∧
      (parseBody api build execute package req).run s =
        .done round.req (s.afterRound round)) ∨
    ∃ e, (parseBody api build execute package req).run s = .raised (.exn e) s := by
  rcases answer_cases package req s with ⟨round, hrun, hanswers, hpkg⟩ | ⟨e, hrun⟩
  · exact .inl ⟨round, hanswers, hpkg, parseBody_of_answer h hrun⟩
  · exact .inr ⟨e, by rw [parseBody, Proc.run_bind_raised hrun]⟩

abbrev parseRound (build : Build) (execute : Request → Except Exn Response)
    (req : Request) : Proc Fault Session (Request ⊕ Request) :=
  drainRound api.inbuffer api.setInbuffer (parseBody api build execute) req

variable (build execute) in
theorem parseRound_cases {s : Session} (h : s.registered = true) (req : Request) :
    (∃ e s', (parseRound build execute req).run s = .raised (.exn e) s' ∧
      (s' = s ∨ ∃ package rest, decode s.conn.inbuffer = .ok (package, rest) ∧
        s' = s.withInbuffer rest)) ∨
    (∃ rest, decode s.conn.inbuffer = .ok ([], rest) ∧
      (parseRound build execute req).run s =
        .done (.inr req) (s.withInbuffer rest)) ∨
    ∃ round rest, decode s.conn.inbuffer = .ok (round.package, rest) ∧
      round.package ≠ [] ∧ Answers build execute round ∧
      (parseRound build execute req).run s =
        .done (.inl round.req) ((s.withInbuffer rest).afterRound round) := by
  rw [parseRound, drainRound, Proc.run_bind_done (run_inbuffer h)]
  cases hdecode : decode s.conn.inbuffer with
  | error e => exact .inl ⟨e, s, rfl, .inl rfl⟩
  | ok r =>
      obtain ⟨package, rest⟩ := r
      rw [eval_ok, Proc.pure_bind]
      dsimp only
      rw [Proc.run_bind_done (run_setInbuffer h rest)]
      by_cases hpackage : package = []
      · subst hpackage
        rw [if_pos rfl]
        exact .inr (.inl ⟨rest, rfl, rfl⟩)
      · rw [if_neg hpackage]
        rcases parseBody_cases (s := s.withInbuffer rest) (by exact h) package req with
          ⟨round, hanswers, rfl, hrun⟩ | ⟨e, hrun⟩
        · refine .inr (.inr ⟨round, rest, rfl, hpackage, hanswers, ?_⟩)
          exact Proc.run_bind_done hrun _
        · exact .inl ⟨e, _, Proc.run_bind_raised hrun _, .inr ⟨package, rest, rfl, rfl⟩⟩

/-- An exception of the parser or a loop that has not ended, and no other
error. -/
def Threw (I : Session → Prop) (e : Option Fault) (s : Session) : Prop :=
  (e = none ∨ ∃ x, e = some (.exn x)) ∧ I s

section ParseRounds

variable {I : Session → Prop} (hlive : ∀ s, I s → s.registered = true)
  (hdecode : ∀ s package rest, I s →
    decode s.conn.inbuffer = .ok (package, rest) → I (s.withInbuffer rest))
  (hround : ∀ s round rest, I s →
    decode s.conn.inbuffer = .ok (round.package, rest) → round.package ≠ [] →
    Answers build execute round → I ((s.withInbuffer rest).afterRound round))

include hlive hdecode hround

variable (build execute) in
/-- The rule of the loop: what survives a call of `decode` and an answered round
holds however the loop ends. -/
theorem parseRounds_ends (n : Nat) (req : Request) :
    Proc.Triple I (Proc.iterate (parseRound build execute) n req) (fun _ => I)
      (Threw I) := by
  apply drainRounds_ends fun s => s.conn.inbuffer
  · exact fun s hs => run_inbuffer (hlive s hs)
  · exact fun s hs => ⟨.inl rfl, hs⟩
  · exact fun e s hs => ⟨.inr ⟨e, rfl⟩, hs⟩
  · intro s rest hs hd
    rw [run_setInbuffer (hlive s hs)]
    exact hdecode s [] rest hs hd
  · intro s package rest req hs hd hne
    rw [Proc.run_bind_done (run_setInbuffer (hlive s hs) rest)]
    rcases parseBody_cases (hlive (s.withInbuffer rest) (hdecode s package rest hs hd))
      package req with ⟨round, hanswers, rfl, hrun⟩ | ⟨e, hrun⟩
    · exact hrun ▸ hround s round rest hs hd hne hanswers
    · exact hrun ▸ ⟨.inr ⟨e, rfl⟩, hdecode s package rest hs hd⟩

theorem drain_parse_ends (req : Request) :
    Proc.Triple I
      (drain api.inbuffer api.setInbuffer (parseBody api build execute) req)
      (fun _ => I) (Threw I) := by
  intro s hs
  rw [drain, Proc.run_bind_done (run_inbuffer (hlive s hs))]
  exact parseRounds_ends build execute hlive hdecode hround _ req s hs

end ParseRounds

theorem run_callSender {s : Session} (h : s.registered = true)
    (hwired : Wired s.conn) (sends : List SendResult) :
    (callSender api sends).run s = (handlerSend api sends).run s := by
  rw [callSender, Proc.run_bind_done (run_deref h), hwired.sender]

end Parse

end Session

end LinuxAdvance.Reactor
