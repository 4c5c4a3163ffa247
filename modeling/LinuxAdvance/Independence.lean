import LinuxAdvance.Calculator.Calculate
import LinuxAdvance.Serving

/-!
# What a response depends on

The `Request` object is declared outside the loop over the packages, and what
`DeSerialize` returns is not looked at.  So a package that sets every field is
answered by itself, and a package that is turned down is answered with whatever
the object held.
-/

namespace LinuxAdvance

open LinuxAdvance.Foundation
open LinuxAdvance.Cxx
open LinuxAdvance.System
open LinuxAdvance.Calculator
open LinuxAdvance.Reactor

section Independence

variable (build : Build) (execute : Request → Except Exn Response)

def ReactorRun (rounds : List Round) : Prop :=
  ∃ fd wakes,
    rounds = ((Session.runWakes build execute wakes).run (Session.opened fd)).state.rounds

def ServiceRun (rounds : List Round) : Prop :=
  ∃ turns, rounds = ((Conversation.addService build execute turns).run {}).state.rounds

/-- Whenever the package is the `k`-th of two runs, the `k`-th frames agree. -/
def Determined (Runs : List Round → Prop) (package : Bytes) : Prop :=
  ∀ rounds rounds', Runs rounds → Runs rounds' →
    ∀ (k : Nat) (round round' : Round), rounds[k]? = some round →
      rounds'[k]? = some round' → round.package = package →
      round'.package = package → round.frame = round'.frame

variable {build execute}

theorem answered_of_reactorRun {rounds : List Round}
    (h : ReactorRun build execute rounds) :
    ∀ round ∈ rounds, Answered build execute round := by
  obtain ⟨fd, wakes, rfl⟩ := h
  have hends := Session.runWakes_good wakes (Session.opened fd)
    (Session.good_opened build execute fd)
  cases hrun : (Session.runWakes build execute wakes).run (Session.opened fd) with
  | done u s =>
      rw [hrun] at hends
      exact hends.sound.answered
  | blocked s =>
      rw [hrun] at hends
      exact hends.2.answered
  | raised e s =>
      rw [hrun] at hends
      exact hends.2.answered

theorem answered_of_serviceRun {rounds : List Round}
    (h : ServiceRun build execute rounds) :
    ∀ round ∈ rounds, Answered build execute round := by
  obtain ⟨turns, rfl⟩ := h
  have hends := Conversation.addService_sound build execute turns {}
    ⟨by simp, by simp⟩
  cases hrun : (Conversation.addService build execute turns).run {} <;>
    rw [hrun] at hends <;> exact hends.answered

theorem frame_eq_of_not_rejected {round round' : Round}
    (h : Answers build execute round) (h' : Answers build execute round')
    (hsame : round'.package = round.package)
    (hkept : ¬ Rejected (Request.deSerialize round.package build)) :
    round.frame = round'.frame := by
  obtain ⟨⟨object, verdict, hrun⟩, ⟨resp, hexec, hframe⟩⟩ := h
  obtain ⟨⟨object', verdict', hrun'⟩, ⟨resp', hexec', hframe'⟩⟩ := h'
  rw [hsame] at hrun'
  rcases Request.deSerialize_cases round.package build with
    ⟨q, haccepted⟩ | hrejected | ⟨e, hthrows⟩
  · have hreq : round.req = round'.req := by
      rw [haccepted object] at hrun
      rw [haccepted object'] at hrun'
      exact (Outcome.done.inj hrun).2.symm.trans (Outcome.done.inj hrun').2
    rw [← hreq, hexec] at hexec'
    cases hexec'
    rw [hframe, hframe']
  · exact absurd hrejected hkept
  · obtain ⟨object₁, hraised⟩ := hthrows object
    rw [hrun] at hraised
    cases hraised

theorem determined_of_not_rejected {package : Bytes}
    (hkept : ¬ Rejected (Request.deSerialize package build)) :
    Determined (fun rounds => ReactorRun build execute rounds ∨
      ServiceRun build execute rounds) package := by
  intro rounds rounds' hrun hrun' k round round' hk hk' hpkg hpkg'
  have hround := hrun.elim answered_of_reactorRun answered_of_serviceRun round
    (List.mem_of_getElem? hk)
  have hround' := hrun'.elim answered_of_reactorRun answered_of_serviceRun round'
    (List.mem_of_getElem? hk')
  exact frame_eq_of_not_rejected hround.answers hround'.answers
    (hpkg'.trans hpkg.symm) (hpkg ▸ hkept)

/-! ## A package that is turned down -/

/-- The answer given with the operands `a` that were there before. -/
def Stale (a : Request) (frame : Bytes) (m : Payload) (round : Round) : Prop :=
  round = ⟨m.bytes, a, frame⟩

theorem serves_stale {a : Request} {resp : Response} (ha : execute a = .ok resp)
    {m : Payload} (hrejected : Rejected (Request.deSerialize m.bytes build)) :
    Serves build execute (fun req => req = a)
      (Stale a (encode (resp.serialize build))) m := by
  rintro req rfl
  refine ⟨⟨m.bytes, req, encode (resp.serialize build)⟩, rfl, rfl, ?_⟩
  intro σ s
  rw [answer_deSerialized (hrejected req), ha]
  rfl

def byteChunks (bytes : Bytes) : List Chunk :=
  bytes.map fun b => ⟨[b], by simp, by simp⟩

theorem byteChunks_bytes (bytes : Bytes) :
    (byteChunks bytes).flatMap Chunk.bytes = bytes := by
  induction bytes with
  | nil => rfl
  | cons b bytes ih =>
      rw [byteChunks, List.map_cons, List.flatMap_cons]
      exact congrArg (b :: ·) ih

theorem rounds_of_stale {a : Request} {frame : Bytes} {m : Payload}
    {rounds : List Round} (h : List.Forall₂ (Stale a frame) [m] rounds) :
    rounds = [⟨m.bytes, a, frame⟩] := by
  obtain ⟨round, rest, hround, hrest, rfl⟩ := List.forall₂_cons_left_iff.mp h
  rw [List.forall₂_nil_left_iff.mp hrest, hround]

theorem reactorRun_stale {a : Request} {resp : Response} (ha : execute a = .ok resp)
    {m : Payload} (hnul : (0 : UInt8) ∉ m.bytes)
    (hrejected : Rejected (Request.deSerialize m.bytes build)) :
    ReactorRun build execute [⟨m.bytes, a, encode (resp.serialize build)⟩] := by
  have hserves := serves_stale ha hrejected
  let wake : Wake := .read
    ((byteChunks (framing.frames [m])).map .data ++ [.fail eagain]) [.fail eagain] a
  have hbytes : wakeBytes wake = framing.frames [m] := by
    rw [wakeBytes, Wake.recvs, List.flatMap_append, List.flatMap_map]
    exact (List.append_nil _).trans (byteChunks_bytes _)
  have hregular : Regular wake := by
    refine ⟨⟨_, rfl, ?_⟩, ?_⟩
    · simp [Session.Quiet]
    · simp [Session.Patient, Session.Retryable]
  have huninit : UninitIn (fun req => req = a) wake := rfl
  obtain ⟨s, hrun, hs⟩ := reactor_serves 5 (List.forall_mem_singleton.mpr hserves)
    (notMem_frames (List.forall_mem_singleton.mpr hnul))
    (List.forall_mem_singleton.mpr hregular)
    (List.forall_mem_singleton.mpr huninit)
    ((List.append_nil _).trans hbytes)
  refine ⟨5, [wake], ?_⟩
  rw [hrun, Outcome.state_done, rounds_of_stale hs.served]

theorem serviceRun_stale {a : Request} {resp : Response} (ha : execute a = .ok resp)
    {m : Payload} (hnul : (0 : UInt8) ∉ m.bytes)
    (hrejected : Rejected (Request.deSerialize m.bytes build)) :
    ServiceRun build execute [⟨m.bytes, a, encode (resp.serialize build)⟩] := by
  have hserves := serves_stale ha hrejected
  let chunks := (byteChunks (framing.frames [m])).map fun chunk => (chunk, a)
  have hbytes : chunks.flatMap (fun turn => turn.1.bytes) = framing.frames [m] := by
    rw [List.flatMap_map]
    exact byteChunks_bytes _
  have huninit : ∀ turn ∈ chunks, turn.2 = a := by
    simp [chunks]
  obtain ⟨c, hrun, -, hserved⟩ := service_serves huninit
    (List.forall_mem_singleton.mpr hserves)
    (notMem_frames (List.forall_mem_singleton.mpr hnul)) hbytes
  refine ⟨chunks.map (fun turn => (.data turn.1, turn.2)) ++ [(.eof, a)], ?_⟩
  rw [Conversation.addService_chunks hrun, ← rounds_of_stale hserved]
  rfl

end Independence

/--
For every package that `DeSerialize` does not turn down, the response is the same
in all runs of both servers in which the package has the same place.  For the
packages the protocol can carry in a frame the condition is necessary too, in
each of the servers, as soon as `Execute` has two requests with different
responses.
-/
theorem response_determined_iff (build : Build)
    (execute : Request → Except Exn Response) {a b : Request} {ra rb : Response}
    (ha : execute a = .ok ra) (hb : execute b = .ok rb)
    (hdiffer : encode (ra.serialize build) ≠ encode (rb.serialize build)) :
    (∀ package, ¬ Rejected (Request.deSerialize package build) →
      Determined (fun rounds => ReactorRun build execute rounds ∨
        ServiceRun build execute rounds) package) ∧
    ∀ m : Payload, (0 : UInt8) ∉ m.bytes →
      (Determined (ReactorRun build execute) m.bytes ↔
        ¬ Rejected (Request.deSerialize m.bytes build)) ∧
      (Determined (ServiceRun build execute) m.bytes ↔
        ¬ Rejected (Request.deSerialize m.bytes build)) := by
  refine ⟨fun package hkept => determined_of_not_rejected hkept, fun m hnul => ?_⟩
  refine ⟨⟨fun hdet hrejected => ?_, fun hkept => ?_⟩,
    ⟨fun hdet hrejected => ?_, fun hkept => ?_⟩⟩
  · exact hdiffer (hdet _ _ (reactorRun_stale ha hnul hrejected)
      (reactorRun_stale hb hnul hrejected) 0 _ _ rfl rfl rfl rfl)
  · exact fun rounds rounds' h h' =>
      determined_of_not_rejected hkept rounds rounds' (.inl h) (.inl h')
  · exact hdiffer (hdet _ _ (serviceRun_stale ha hnul hrejected)
      (serviceRun_stale hb hnul hrejected) 0 _ _ rfl rfl rfl rfl)
  · exact fun rounds rounds' h h' =>
      determined_of_not_rejected hkept rounds rounds' (.inr h) (.inr h')

theorem response_determined_iff_abc :
    ¬ Determined (ReactorRun .self Calculate.execute) (text "abc") ∧
      ¬ Determined (ServiceRun .self Calculate.execute) (text "abc") := by
  have hrejected : Rejected (Request.deSerialize (text "abc") .self) := fun _ => rfl
  have hone : Calculate.execute ⟨1, 1, 43⟩ = .ok ⟨2, 0, text "1 + 1 = 2"⟩ := by decide
  have htwo : Calculate.execute ⟨2, 2, 43⟩ = .ok ⟨4, 0, text "2 + 2 = 4"⟩ := by decide
  have h := (response_determined_iff .self Calculate.execute hone htwo (by decide)).2
    ⟨text "abc", by decide, by decide⟩ (by decide)
  exact ⟨fun hdet => h.1.mp hdet hrejected, fun hdet => h.2.mp hdet hrejected⟩

/-- Two clients, each with one request before the same `"abc"`: the second
response is computed from the operands of the first request. -/
theorem stale_operands :
    ¬ ∀ package, Determined (ReactorRun .self Calculate.execute) package := by
  intro h
  let client (bytes : Bytes) (hne : bytes ≠ []) (hlen : bytes.length ≤ 1023) : List Wake :=
    [.read [.data ⟨bytes, hne, hlen⟩, .fail eagain] [.fail eagain] ⟨0, 0, 0⟩]
  have hdet := h (text "abc") _ _
    ⟨5, client (text "5\r\n1 + 1\r\n3\r\nabc\r\n") (by decide) (by decide), rfl⟩
    ⟨5, client (text "5\r\n2 + 2\r\n3\r\nabc\r\n") (by decide) (by decide), rfl⟩ 1
    ⟨text "abc", ⟨1, 1, 43⟩, encode (text "2 0 1 + 1 = 2")⟩
    ⟨text "abc", ⟨2, 2, 43⟩, encode (text "4 0 2 + 2 = 4")⟩
    (by decide) (by decide) rfl rfl
  revert hdet
  decide

end LinuxAdvance
