import LinuxAdvance.Exchange

/-!
# What the calculator client prints

When `Send` takes all it is given and a reply comes in one piece, the client prints
the answers to its requests, in order, however its requests are cut on their way;
every one of them comes after a bounded number of steps.  A request of which `Send`
takes only a part is never answered: the server waits for the rest of it, and the
client for the reply.
-/

namespace LinuxAdvance

open LinuxAdvance.Foundation
open LinuxAdvance.Cxx
open LinuxAdvance.System
open LinuxAdvance.Calculator

def Solves (rand : Nat × Nat × Nat) (resp : Response) : Prop :=
  Calculate.execute (drawn rand) = .ok resp

def Replied (build : Build) (m : Payload) (round : Round) : Prop :=
  ∃ q resp, Accepted (Request.deSerialize m.bytes build) q ∧
    Calculate.execute q = .ok resp ∧ round.frame = encode (resp.serialize build)

theorem Replied.unique {build : Build} {m : Payload} {round : Round} {q : Request}
    {resp : Response} (h : Replied build m round)
    (haccepted : Accepted (Request.deSerialize m.bytes build) q)
    (hexecute : Calculate.execute q = .ok resp) :
    round.frame = encode (resp.serialize build) := by
  obtain ⟨q', resp', haccepted', hexecute', hframe⟩ := h
  obtain rfl : q' = q :=
    (Outcome.done.inj ((haccepted' q).symm.trans (haccepted q))).2
  obtain rfl := Except.ok.inj (hexecute'.symm.trans hexecute)
  exact hframe

namespace Exchange

section Server

variable {build : Build}

theorem encode_payload (hcodec : Codec build) (rand : Nat × Nat × Nat) :
    framing.encode (hcodec.request rand).payload = encode ((drawn rand).serialize build) := rfl

theorem serves_drawn (hcodec : Codec build) (rand : Nat × Nat × Nat) :
    Serves build Calculate.execute (fun _ => True) (Replied build)
      (hcodec.request rand).payload := by
  obtain ⟨resp, hexecute⟩ := execute_drawn rand
  have haccepted := (hcodec.request rand).accepted
  intro req _
  exact ⟨_, ⟨_, resp, haccepted, hexecute, rfl⟩, trivial, fun s =>
    answer_accepted haccepted hexecute req s⟩

theorem serveChunk_part {c : Conversation} (turn : Chunk × Request) {m : Payload}
    {ms : List Payload} (hserved : List.Forall₂ (Replied build) ms c.rounds)
    (hnul : (0 : UInt8) ∉ framing.encode m)
    (hbegins : c.recvmessage ++ turn.1.bytes <+: framing.encode m)
    (hne : c.recvmessage ++ turn.1.bytes ≠ framing.encode m) :
    ∃ c', (Conversation.serveChunk build Calculate.execute turn).run c = .done () c' ∧
      c'.recvmessage = c.recvmessage ++ turn.1.bytes ∧ newFrames c c' = [] ∧
      List.Forall₂ (Replied build) ms c'.rounds := by
  have hbytes : c.recvmessage ++ turn.1.bytes =
      framing.frames [] ++ (c.recvmessage ++ turn.1.bytes) := rfl
  have hnulChunk : (0 : UInt8) ∉ turn.1.bytes := fun h0 =>
    hnul (hbegins.subset (List.mem_append_right _ h0))
  have hserves : ∀ m ∈ ([] : List Payload),
      Serves build Calculate.execute (fun _ => True) (Replied build) m := by
    simp
  obtain ⟨c', hrun, hmessage, hrounds⟩ := serveChunk_serves trivial rfl hserved hnulChunk
    hbytes (.inr ⟨m, hbegins, hne⟩) hserves
  rw [List.append_nil] at hrounds
  refine ⟨c', hrun, hmessage, ?_, hrounds⟩
  rw [newFrames, ← hserved.length_eq, hrounds.length_eq, List.drop_length, List.map_nil]

theorem serveChunk_whole (hcodec : Codec build) {c : Conversation} (turn : Chunk × Request)
    {rand : Nat × Nat × Nat} {ms : List Payload}
    (hserved : List.Forall₂ (Replied build) ms c.rounds)
    (hbytes : c.recvmessage ++ turn.1.bytes = encode ((drawn rand).serialize build))
    {resp : Response} (hsolves : Solves rand resp) :
    ∃ c', (Conversation.serveChunk build Calculate.execute turn).run c = .done () c' ∧
      c'.recvmessage = [] ∧ newFrames c c' = [encode (resp.serialize build)] ∧
      ∃ ms', List.Forall₂ (Replied build) ms' c'.rounds := by
  have hframes : c.recvmessage ++ turn.1.bytes =
      framing.frames [(hcodec.request rand).payload] ++ [] := by
    simpa [Survives.payload] using hbytes
  have hnulChunk : (0 : UInt8) ∉ turn.1.bytes := fun h0 =>
    (hcodec.request rand).nul_notMem_encode (hbytes ▸ List.mem_append_right _ h0)
  have hserves : ∀ m ∈ [(hcodec.request rand).payload],
      Serves build Calculate.execute (fun _ => True) (Replied build) m := by
    intro m hm
    rw [List.mem_singleton.mp hm]
    exact serves_drawn hcodec rand
  obtain ⟨c', hrun, hmessage, hrounds⟩ := serveChunk_serves trivial rfl hserved hnulChunk
    hframes (.inl rfl) hserves
  refine ⟨c', hrun, hmessage, ?_, _, hrounds⟩
  have hnew := List.forall₂_drop c.rounds.length hrounds
  rw [← hserved.length_eq, List.drop_left] at hnew
  obtain ⟨round, rest, hround, hrest, hdrop⟩ := List.forall₂_cons_left_iff.mp hnew
  obtain rfl := List.forall₂_nil_left_iff.mp hrest
  rw [newFrames, ← hserved.length_eq, hdrop, List.map_singleton,
    hround.unique (hcodec.request rand).accepted hsolves]

theorem serve_down (s : Exchange) (n : Nat) (chunk : Chunk) (uninit : Request)
    (rooms : List Nat) :
    (s.serve build n chunk uninit rooms).down = s.down ++
      sendAll (newFrames s.server (s.serve build n chunk uninit rooms).server) rooms := rfl

theorem serve_of_run {s : Exchange} {n : Nat} {chunk : Chunk} {uninit : Request}
    {c' : Conversation} (rooms : List Nat)
    (hrun : (Conversation.serveChunk build Calculate.execute (chunk, uninit)).run s.server =
      .done () c') :
    (s.serve build n chunk uninit rooms).serving = true ∧
      (s.serve build n chunk uninit rooms).server = c' := by
  rw [serve, hrun]
  exact ⟨rfl, rfl⟩

theorem serve_part (hcodec : Codec build) {s : Exchange} {rand : Nat × Nat × Nat} {n : Nat}
    {chunk : Chunk} {ms : List Payload}
    (hserved : List.Forall₂ (Replied build) ms s.server.rounds)
    (hheld : s.server.recvmessage ++ s.up <+: encode ((drawn rand).serialize build))
    (hchunk : chunk.bytes = s.up.take n)
    (hne : s.server.recvmessage ++ s.up.take n ≠ encode ((drawn rand).serialize build))
    (uninit : Request) (rooms : List Nat) :
    (s.serve build n chunk uninit rooms).serving = true ∧
      (s.serve build n chunk uninit rooms).server.recvmessage ++ s.up.drop n =
        s.server.recvmessage ++ s.up ∧
      newFrames s.server (s.serve build n chunk uninit rooms).server = [] ∧
      List.Forall₂ (Replied build) ms (s.serve build n chunk uninit rooms).server.rounds := by
  have hbegins : s.server.recvmessage ++ chunk.bytes <+:
      framing.encode (hcodec.request rand).payload := by
    rw [hchunk, encode_payload hcodec]
    exact ((List.prefix_append_right_inj _).mpr (List.take_prefix n s.up)).trans hheld
  have hshort : s.server.recvmessage ++ chunk.bytes ≠
      framing.encode (hcodec.request rand).payload := by
    rwa [hchunk, encode_payload hcodec]
  have hnul : (0 : UInt8) ∉ framing.encode (hcodec.request rand).payload := by
    rw [encode_payload hcodec]
    exact (hcodec.request rand).nul_notMem_encode
  obtain ⟨c', hrun, hmessage, hnew, hrounds⟩ := serveChunk_part (chunk, uninit) hserved hnul
    hbegins hshort
  obtain ⟨hserving, hserver⟩ := serve_of_run (n := n) rooms hrun
  refine ⟨hserving, ?_, ?_, ?_⟩
  · rw [hserver, hmessage, hchunk, List.append_assoc, List.take_append_drop]
  · rw [hserver, hnew]
  · rw [hserver]
    exact hrounds

theorem serve_whole (hcodec : Codec build) {s : Exchange} {rand : Nat × Nat × Nat} {n : Nat}
    {chunk : Chunk} {ms : List Payload} {resp : Response}
    (hserved : List.Forall₂ (Replied build) ms s.server.rounds)
    (hsolves : Solves rand resp) (hchunk : chunk.bytes = s.up.take n)
    (hheld : s.server.recvmessage ++ s.up.take n = encode ((drawn rand).serialize build))
    (uninit : Request) (rooms : List Nat) :
    (s.serve build n chunk uninit rooms).serving = true ∧
      (s.serve build n chunk uninit rooms).server.recvmessage = [] ∧
      newFrames s.server (s.serve build n chunk uninit rooms).server =
        [encode (resp.serialize build)] ∧
      ∃ ms', List.Forall₂ (Replied build) ms'
        (s.serve build n chunk uninit rooms).server.rounds := by
  obtain ⟨c', hrun, hmessage, hnew, hrounds⟩ := serveChunk_whole hcodec (chunk, uninit) hserved
    (by rw [hchunk, hheld]) hsolves
  obtain ⟨hserving, hserver⟩ := serve_of_run (n := n) rooms hrun
  rw [hserver]
  exact ⟨hserving, hmessage, hnew, hrounds⟩

end Server

section Client

variable {build : Build}

theorem turnBody_reply (hcodec : Codec build) {c : Client} {ms : List Payload}
    (hread : List.Forall₂ (Client.Carries build) ms c.responses) {rand : Nat × Nat × Nat}
    {resp : Response} (hsolves : Solves rand resp) {chunk : Chunk}
    (hbytes : chunk.bytes = encode (resp.serialize build)) :
    ∃ c', (Client.turnBody build rand chunk).run c = .done () c' ∧
      c'.responses = c.responses ++ [resp] ∧
      ∃ ms', List.Forall₂ (Client.Carries build) ms' c'.responses := by
  have hreply := hcodec.response rand resp hsolves
  have hcarries : Client.Carries build hreply.payload resp := hreply.accepted
  have hnul : (0 : UInt8) ∉ chunk.bytes := hbytes ▸ hreply.nul_notMem_encode
  have hframes : chunk.bytes = framing.frames [hreply.payload] ++ [] := by
    simpa [Survives.payload] using hbytes
  have hall : ∀ m ∈ [hreply.payload], ∃ resp, Client.Carries build m resp := by
    intro m hm
    rw [List.mem_singleton.mp hm]
    exact ⟨resp, hcarries⟩
  obtain ⟨c', hrun, hresponses⟩ := Client.turnBody_frames hall hread hnul hframes (.inl rfl)
    rand
  have hexpected : List.Forall₂ (Client.Carries build) (ms ++ [hreply.payload])
      (c.responses ++ [resp]) := List.rel_append hread (.cons hcarries .nil)
  exact ⟨c', hrun, List.right_unique_forall₂' (Client.carries_rightUnique build) hresponses
    hexpected, _, hresponses⟩

end Client

/-! ## In step -/

section InStep

variable {build : Build} {s t : Exchange} {e : ExchangeEvent}

/-- Both parties are there, and the answers printed are those to `past`. -/
structure Going (build : Build) (s : Exchange) (past : List (Nat × Nat × Nat)) : Prop where
  running : s.running = true
  serving : s.serving = true
  printed : List.Forall₂ Solves past s.client.responses
  read : ∃ ms, List.Forall₂ (Client.Carries build) ms s.client.responses
  served : ∃ ms, List.Forall₂ (Replied build) ms s.server.rounds

/-- Where the exchange is: nothing is open; the last request is on its way, in part
already in `recvmessage`; or its answer is. -/
inductive Stage (build : Build) (s : Exchange) (past : List (Nat × Nat × Nat)) : Prop
  | idle (hdraws : s.draws = past) (hturn : s.turn = none)
      (hheld : s.server.recvmessage = []) (hup : s.up = []) (hdown : s.down = [])
  | asking (rand : Nat × Nat × Nat) (hdraws : s.draws = past ++ [rand])
      (hturn : s.turn = some rand)
      (hheld : s.server.recvmessage ++ s.up = encode ((drawn rand).serialize build))
      (hup : s.up ≠ []) (hdown : s.down = [])
  | answered (rand : Nat × Nat × Nat) (resp : Response) (hsolves : Solves rand resp)
      (hdraws : s.draws = past ++ [rand]) (hturn : s.turn = some rand)
      (hheld : s.server.recvmessage = []) (hup : s.up = [])
      (hdown : s.down = encode (resp.serialize build))

def InStep (build : Build) (s : Exchange) : Prop :=
  ∃ past, Going build s past ∧ Stage build s past

theorem inStep_start : InStep build {} :=
  ⟨[], ⟨rfl, rfl, .nil, ⟨[], .nil⟩, ⟨[], .nil⟩⟩, .idle rfl rfl rfl rfl rfl⟩

theorem encode_ne_nil (message : Bytes) : encode message ≠ [] := by
  simp [encode, sep_eq]

theorem inStep_ask {past : List (Nat × Nat × Nat)} (hgoing : Going build s past)
    (hstage : Stage build s past) {rand : Nat × Nat × Nat} {room : Nat}
    (hfree : s.turn = none)
    (hwhole : (s.ask build rand room).up = s.up ++ encode ((drawn rand).serialize build)) :
    InStep build (s.ask build rand room) := by
  cases hstage with
  | asking _ _ hturn | answered _ _ _ _ hturn =>
      rw [hturn] at hfree
      cases hfree
  | idle hdraws _ hheld hup hdown =>
      rw [hup, List.nil_append] at hwhole
      refine ⟨past, ⟨hgoing.running, hgoing.serving, hgoing.printed, hgoing.read,
        hgoing.served⟩, .asking rand ?_ rfl ?_ ?_ hdown⟩
      · exact congrArg (· ++ [rand]) hdraws
      · rw [hwhole]
        exact congrArg (· ++ _) hheld
      · rw [hwhole]
        exact encode_ne_nil _

theorem inStep_serve (hcodec : Codec build) {past : List (Nat × Nat × Nat)}
    (hgoing : Going build s past) (hstage : Stage build s past) {n : Nat} {chunk : Chunk}
    {uninit : Request} {rooms : List Nat} (hpos : 0 < n) (hle : n ≤ s.up.length)
    (hchunk : chunk.bytes = s.up.take n)
    (hwhole : (s.serve build n chunk uninit rooms).down = s.down ++
      (newFrames s.server (s.serve build n chunk uninit rooms).server).flatten) :
    InStep build (s.serve build n chunk uninit rooms) := by
  obtain ⟨ms, hserved⟩ := hgoing.served
  cases hstage with
  | idle _ _ _ hup | answered _ _ _ _ _ _ hup =>
      rw [hup, List.length_nil] at hle
      omega
  | asking rand hdraws hturn hheld hup hdown =>
      by_cases hall : n = s.up.length
      · subst hall
        obtain ⟨resp, hsolves⟩ := execute_drawn rand
        obtain ⟨hserving, hmessage, hnew, hserved'⟩ := serve_whole hcodec hserved hsolves hchunk
          (by rw [List.take_length, hheld]) uninit rooms
        refine ⟨past, ⟨hgoing.running, hserving, hgoing.printed, hgoing.read, hserved'⟩,
          .answered rand resp hsolves hdraws hturn hmessage List.drop_length ?_⟩
        rw [hwhole, hnew, hdown]
        simp
      · have hlt : n < s.up.length := Nat.lt_of_le_of_ne hle hall
        have hne : s.server.recvmessage ++ s.up.take n ≠
            encode ((drawn rand).serialize build) := by
          intro heq
          have hlen := congrArg List.length (heq.trans hheld.symm)
          simp only [List.length_append, List.length_take] at hlen
          omega
        obtain ⟨hserving, hheld', hnew, hserved'⟩ := serve_part hcodec hserved
          (hheld ▸ List.prefix_rfl) hchunk hne uninit rooms
        refine ⟨past, ⟨hgoing.running, hserving, hgoing.printed, hgoing.read, ms, hserved'⟩,
          .asking rand hdraws hturn (hheld'.trans hheld) ?_ ?_⟩
        · exact List.ne_nil_of_length_pos (by simp [serve]; omega)
        · rw [hwhole, hnew, hdown]
          rfl

theorem inStep_take (hcodec : Codec build) {past : List (Nat × Nat × Nat)}
    (hgoing : Going build s past) (hstage : Stage build s past) {rand : Nat × Nat × Nat}
    {n : Nat} {chunk : Chunk} (hturn : s.turn = some rand) (hpos : 0 < n)
    (hle : n ≤ s.down.length) (hchunk : chunk.bytes = s.down.take n)
    (hwhole : (s.take build rand n chunk).down = []) :
    InStep build (s.take build rand n chunk) ∧
      ∃ resp, (s.take build rand n chunk).client.responses = s.client.responses ++ [resp] := by
  obtain ⟨ms, hread⟩ := hgoing.read
  cases hstage with
  | idle _ hfree =>
      rw [hturn] at hfree
      cases hfree
  | asking _ _ _ _ _ hdown =>
      rw [hdown, List.length_nil] at hle
      omega
  | answered rand' resp hsolves hdraws hturn' hheld hup hdown =>
      obtain rfl := Option.some.inj (hturn'.symm.trans hturn)
      have hall : chunk.bytes = encode (resp.serialize build) := by
        have hdrop : s.down.drop n = [] := hwhole
        rw [hchunk, ← hdown]
        exact List.take_of_length_le (List.drop_eq_nil_iff.mp hdrop)
      obtain ⟨c', hrun, hresponses, hread'⟩ := turnBody_reply hcodec hread hsolves hall
      have hclient : (s.take build rand' n chunk).client = c' := by
        rw [take, hrun]
        rfl
      refine ⟨⟨past ++ [rand'], ⟨?_, hgoing.serving, ?_, ?_, hgoing.served⟩,
        .idle hdraws rfl hheld hup hwhole⟩, resp, ?_⟩
      · rw [take, hrun]
        rfl
      · rw [hclient, hresponses]
        exact List.rel_append hgoing.printed (.cons hsolves .nil)
      · rw [hclient]
        exact hread'
      · rw [hclient, hresponses]

theorem inStep_of_wholeStep (hcodec : Codec build) (h : InStep build s)
    (hstep : s.wholeStep build e = some t) : InStep build t := by
  obtain ⟨past, hgoing, hstage⟩ := h
  obtain ⟨hstep, hwhole⟩ := wholeStep_eq_some.mp hstep
  cases takes_of_step hstep with
  | ask _ hfree => exact inStep_ask hgoing hstage hfree hwhole
  | serve _ hpos hle hchunk _ => exact inStep_serve hcodec hgoing hstage hpos hle hchunk hwhole
  | take hturn hpos hle hchunk =>
      exact (inStep_take hcodec hgoing hstage hturn hpos hle hchunk hwhole).1

theorem inStep_of_run (hcodec : Codec build) {es : List ExchangeEvent}
    (h : Transition.run (wholeStep build) {} es = some s) : InStep build s :=
  Transition.keeps (fun _ _ _ hstep hs => inStep_of_wholeStep hcodec hs hstep) h inStep_start

/-! ## The answers -/

theorem answers_right (hcodec : Codec build) {es : List ExchangeEvent}
    (h : Transition.run (wholeStep build) {} es = some s) :
    s.running = true ∧ s.serving = true ∧
    ∃ past, List.Forall₂ Solves past s.client.responses ∧
      (s.turn = none ∧ s.draws = past ∨
        ∃ rand, s.turn = some rand ∧ s.draws = past ++ [rand]) := by
  obtain ⟨past, hgoing, hstage⟩ := inStep_of_run hcodec h
  refine ⟨hgoing.running, hgoing.serving, past, hgoing.printed, ?_⟩
  cases hstage with
  | idle hdraws hturn => exact .inl ⟨hturn, hdraws⟩
  | asking rand hdraws hturn => exact .inr ⟨rand, hturn, hdraws⟩
  | answered rand _ _ hdraws hturn => exact .inr ⟨rand, hturn, hdraws⟩

def firstExchange : List ExchangeEvent :=
  [.ask (2, 0, 0) 64, .serve 4 ⟨0, 0, 0⟩ [], .serve 6 ⟨0, 0, 0⟩ [64], .take 19]

theorem answers_right_first :
    ∃ s, Transition.run (wholeStep .self) {} firstExchange = some s ∧
      s.client.responses = [{ result := 7, equation := text "2 + 5 = 7" }] ∧
      ∃ past, List.Forall₂ Solves past s.client.responses := by
  obtain ⟨s, hrun, hprinted⟩ : ∃ s, Transition.run (wholeStep .self) {} firstExchange = some s ∧
      s.client.responses = [{ result := 7, equation := text "2 + 5 = 7" }] := by
    refine ⟨((Transition.run (wholeStep .self) {} firstExchange).getD {}), ?_, ?_⟩ <;> decide
  obtain ⟨-, -, past, hsolves, -⟩ := answers_right codec_self hrun
  exact ⟨s, hrun, hprinted, past, hsolves⟩

/-! ## They come -/

/-- While the client waits, a step brings the request nearer to the server or the
answer to the client. -/
theorem nearer_of_wholeStep (hcodec : Codec build) (hs : InStep build s)
    (hturn : s.turn ≠ none) (hstep : s.wholeStep build e = some t) :
    (t.turn ≠ none ∧ t.client = s.client ∧ t.up.length < s.up.length) ∨
      s.client.responses.length < t.client.responses.length := by
  obtain ⟨past, hgoing, hstage⟩ := hs
  obtain ⟨hstep, hwhole⟩ := wholeStep_eq_some.mp hstep
  cases takes_of_step hstep with
  | ask _ hfree => exact absurd hfree hturn
  | serve _ hpos hle _ _ =>
      refine .inl ⟨hturn, rfl, ?_⟩
      simp only [serve, List.length_drop]
      omega
  | take hturn' hpos hle hchunk =>
      obtain ⟨-, resp, hresponses⟩ :=
        inStep_take hcodec hgoing hstage hturn' hpos hle hchunk hwhole
      right
      rw [hresponses, List.length_append, List.length_singleton]
      exact Nat.lt_succ_self _

theorem responses_le_of_run (hcodec : Codec build) {fs : List ExchangeEvent}
    (hs : InStep build s) (hrun : Transition.run (wholeStep build) s fs = some t) :
    s.client.responses.length ≤ t.client.responses.length := by
  induction fs generalizing s with
  | nil =>
      simp at hrun
      rw [hrun]
  | cons e fs ih =>
      simp only [Transition.run_cons, Option.bind_eq_some_iff] at hrun
      obtain ⟨u, hstep, hrun⟩ := hrun
      refine Nat.le_trans ?_ (ih (inStep_of_wholeStep hcodec hs hstep) hrun)
      by_cases hturn : s.turn = none
      · cases takes_of_step (wholeStep_eq_some.mp hstep).1 with
        | ask | serve => exact Nat.le_refl _
        | take hturn' =>
            rw [hturn] at hturn'
            cases hturn'
      · rcases nearer_of_wholeStep hcodec hs hturn hstep with ⟨-, hclient, -⟩ | hlt
        · rw [hclient]
        · exact Nat.le_of_lt hlt

theorem printed_of_run (hcodec : Codec build) {fs : List ExchangeEvent}
    (hs : InStep build s) (hturn : s.turn ≠ none)
    (hrun : Transition.run (wholeStep build) s fs = some t)
    (hlong : s.up.length < fs.length) :
    s.client.responses.length < t.client.responses.length := by
  induction fs generalizing s with
  | nil => simp at hlong
  | cons e fs ih =>
      simp only [Transition.run_cons, Option.bind_eq_some_iff] at hrun
      obtain ⟨u, hstep, hrun⟩ := hrun
      have hu := inStep_of_wholeStep hcodec hs hstep
      rcases nearer_of_wholeStep hcodec hs hturn hstep with ⟨hturn', hclient, hup⟩ | hlt
      · rw [← hclient]
        refine ih hu hturn' hrun ?_
        rw [List.length_cons] at hlong
        omega
      · exact Nat.lt_of_lt_of_le hlt (responses_le_of_run hcodec hu hrun)

theorem sendAll_lengths {frames : List Bytes} (hframes : ∀ f ∈ frames, f.length ≤ maxRwCount) :
    sendAll frames (frames.map List.length) = frames.flatten := by
  induction frames with
  | nil => rfl
  | cons frame frames ih =>
      have hle := hframes frame List.mem_cons_self
      rw [List.map_cons, sendAll, List.flatten_cons,
        ih fun f hf => hframes f (List.mem_cons_of_mem _ hf)]
      have hcount : sendCount frame.length frame.length = frame.length := by
        unfold sendCount
        omega
      rw [hcount, List.take_length]

theorem newFrames_fit (hcodec : Codec build) {ms : List Payload} {rand : Nat × Nat × Nat}
    {n : Nat} {chunk : Chunk} (hserved : List.Forall₂ (Replied build) ms s.server.rounds)
    (hheld : s.server.recvmessage ++ s.up = encode ((drawn rand).serialize build))
    (hchunk : chunk.bytes = s.up.take n) (uninit : Request) (rooms : List Nat) :
    ∀ f ∈ newFrames s.server (s.serve build n chunk uninit rooms).server, f.length ≤ 1023 := by
  by_cases hall : s.server.recvmessage ++ s.up.take n = encode ((drawn rand).serialize build)
  · obtain ⟨resp, hsolves⟩ := execute_drawn rand
    obtain ⟨-, -, hnew, -⟩ := serve_whole hcodec hserved hsolves hchunk hall uninit rooms
    rw [hnew]
    intro f hf
    rw [List.mem_singleton.mp hf]
    exact (hcodec.response rand resp hsolves).fits
  · obtain ⟨-, -, hnew, -⟩ := serve_part hcodec hserved (hheld ▸ List.prefix_rfl) hchunk hall
      uninit rooms
    rw [hnew]
    simp

theorem exists_wholeStep (hcodec : Codec build) (hs : InStep build s) (hturn : s.turn ≠ none) :
    ∃ e t, s.wholeStep build e = some t := by
  obtain ⟨past, hgoing, hstage⟩ := hs
  cases hstage with
  | idle _ hfree => exact absurd hfree hturn
  | asking rand _ _ hheld hup _ =>
      obtain ⟨ms, hserved⟩ := hgoing.served
      have hpos := List.length_pos_iff.mpr hup
      obtain ⟨chunk, hchunk, hbytes⟩ := exists_recvChunk? Nat.one_pos hpos (by decide)
      have hfit := newFrames_fit hcodec hserved hheld hbytes ⟨0, 0, 0⟩ []
      generalize hframes : newFrames s.server (s.serve build 1 chunk ⟨0, 0, 0⟩ []).server =
        frames at hfit
      refine ⟨.serve 1 ⟨0, 0, 0⟩ (frames.map List.length),
        s.serve build 1 chunk ⟨0, 0, 0⟩ (frames.map List.length), wholeStep_eq_some.mpr ⟨?_, ?_⟩⟩
      · simp only [step, hchunk]
        rw [if_pos ⟨hgoing.serving, by rw [← hframes, List.length_map]; rfl⟩]
      · have hsent : sendAll frames (frames.map List.length) = frames.flatten := by
          refine sendAll_lengths fun f hf => Nat.le_trans (hfit f hf) ?_
          decide
        subst hframes
        exact congrArg (s.down ++ ·) hsent
  | answered rand resp hsolves _ hturn' _ _ hdown =>
      have hfits : s.down.length ≤ 1023 := by
        rw [hdown]
        exact (hcodec.response rand resp hsolves).fits
      have hpos : 0 < s.down.length := by
        rw [hdown]
        exact List.length_pos_iff.mpr (encode_ne_nil _)
      obtain ⟨chunk, hchunk, -⟩ := exists_recvChunk? hpos (Nat.le_refl _) hfits
      refine ⟨.take s.down.length, s.take build rand s.down.length chunk,
        wholeStep_eq_some.mpr ⟨?_, List.drop_length⟩⟩
      simp only [step, hturn', hchunk]

theorem exists_answer (hcodec : Codec build) (hs : InStep build s) (hturn : s.turn ≠ none) :
    ∃ fs t, Transition.run (wholeStep build) s fs = some t ∧
      s.client.responses.length < t.client.responses.length := by
  induction hn : s.up.length using Nat.strong_induction_on generalizing s with
  | _ n ih =>
      obtain ⟨e, u, hstep⟩ := exists_wholeStep hcodec hs hturn
      rcases nearer_of_wholeStep hcodec hs hturn hstep with ⟨hturn', hclient, hup⟩ | hlt
      · obtain ⟨fs, t, hrun, hlt⟩ :=
          ih _ (hn ▸ hup) (inStep_of_wholeStep hcodec hs hstep) hturn' rfl
        exact ⟨e :: fs, t, by simp [hstep, hrun], hclient ▸ hlt⟩
      · exact ⟨[e], u, by simp [hstep], hlt⟩

/-- However the steps are chosen, the answer is printed after at most as many as there
are bytes on their way to the server, and one more. -/
theorem answered_within (hcodec : Codec build) {es : List ExchangeEvent}
    (h : Transition.run (wholeStep build) {} es = some s) (hturn : s.turn ≠ none) :
    (∃ e t, s.wholeStep build e = some t) ∧
    ∀ fs t, Transition.run (wholeStep build) s fs = some t → s.up.length < fs.length →
      s.client.responses.length < t.client.responses.length := by
  have hs := inStep_of_run hcodec h
  exact ⟨exists_wholeStep hcodec hs hturn, fun fs t hrun hlong =>
    printed_of_run hcodec hs hturn hrun hlong⟩

theorem answered_within_seven :
    ∃ s, Transition.run (wholeStep .self) {} (firstExchange.take 2) = some s ∧
      ∀ fs t, Transition.run (wholeStep .self) s fs = some t → 6 < fs.length →
        s.client.responses.length < t.client.responses.length := by
  obtain ⟨s, hrun, hup, hturn⟩ : ∃ s,
      Transition.run (wholeStep .self) {} (firstExchange.take 2) = some s ∧
        s.up.length = 6 ∧ s.turn ≠ none := by
    refine ⟨((Transition.run (wholeStep .self) {} (firstExchange.take 2)).getD {}), ?_, ?_, ?_⟩ <;>
      decide
  have hwithin := (answered_within codec_self hrun hturn).2
  exact ⟨s, hrun, fun fs t hrun' hlong => hwithin fs t hrun' (by omega)⟩

/-! ## A request that is cut -/

/-- The server has less than the request, and nothing else is coming. -/
structure Stuck (build : Build) (s : Exchange) (rand : Nat × Nat × Nat) : Prop where
  turn : s.turn = some rand
  served : ∃ ms, List.Forall₂ (Replied build) ms s.server.rounds
  held : s.server.recvmessage ++ s.up <+: encode ((drawn rand).serialize build)
  short : s.server.recvmessage ++ s.up ≠ encode ((drawn rand).serialize build)
  down : s.down = []

theorem Stuck.step (hcodec : Codec build) {rand : Nat × Nat × Nat} (h : Stuck build s rand)
    (hstep : s.step build e = some t) : Stuck build t rand ∧ t.client = s.client := by
  cases takes_of_step hstep with
  | ask _ hfree =>
      rw [h.turn] at hfree
      cases hfree
  | @serve n uninit rooms chunk _ _ _ hchunk _ =>
      obtain ⟨ms, hserved⟩ := h.served
      have hpart : s.server.recvmessage ++ s.up.take n <+: s.server.recvmessage ++ s.up :=
        (List.prefix_append_right_inj _).mpr (List.take_prefix n s.up)
      have hne : s.server.recvmessage ++ s.up.take n ≠
          encode ((drawn rand).serialize build) := by
        intro heq
        exact h.short (h.held.eq_of_length_le (heq ▸ hpart.length_le))
      obtain ⟨-, hheld, hnew, hserved'⟩ :=
        serve_part hcodec hserved h.held hchunk hne uninit rooms
      refine ⟨⟨h.turn, ⟨ms, hserved'⟩, ?_, ?_, ?_⟩, rfl⟩
      · exact hheld ▸ h.held
      · exact hheld ▸ h.short
      · rw [serve_down, hnew, h.down]
        cases rooms <;> rfl
  | take _ hpos hle _ =>
      rw [h.down, List.length_nil] at hle
      omega

theorem Stuck.run (hcodec : Codec build) {rand : Nat × Nat × Nat} {fs : List ExchangeEvent}
    (h : Stuck build s rand) (hrun : Transition.run (Exchange.step build) s fs = some t) :
    t.client = s.client := by
  induction fs generalizing s with
  | nil =>
      simp at hrun
      rw [hrun]
  | cons e fs ih =>
      simp only [Transition.run_cons, Option.bind_eq_some_iff] at hrun
      obtain ⟨u, hstep, hrun⟩ := hrun
      obtain ⟨hstuck, hclient⟩ := h.step hcodec hstep
      exact (ih hstuck hrun).trans hclient

theorem ask_up (s : Exchange) (rand : Nat × Nat × Nat) (room : Nat) :
    (s.ask build rand room).up = s.up ++ (encode ((drawn rand).serialize build)).take
      (sendCount room (encode ((drawn rand).serialize build)).length) := rfl

theorem ask_up_whole (hcodec : Codec build) (s : Exchange) {rand : Nat × Nat × Nat}
    {room : Nat} (hroom : (encode ((drawn rand).serialize build)).length ≤ room) :
    (s.ask build rand room).up = s.up ++ encode ((drawn rand).serialize build) := by
  have hfits := (hcodec.request rand).fits
  have hmax : (1023 : Nat) ≤ maxRwCount := by decide
  rw [ask_up, List.take_of_length_le]
  unfold sendCount
  omega

theorem stuck_ask {past : List (Nat × Nat × Nat)} (hgoing : Going build s past)
    (hheld : s.server.recvmessage = []) (hup : s.up = []) (hdown : s.down = [])
    {rand : Nat × Nat × Nat} {room : Nat}
    (hcut : room < (encode ((drawn rand).serialize build)).length) :
    Stuck build (s.ask build rand room) rand := by
  have htravels : (s.ask build rand room).server.recvmessage ++ (s.ask build rand room).up =
      (encode ((drawn rand).serialize build)).take
        (sendCount room (encode ((drawn rand).serialize build)).length) := by
    rw [ask_up, hup, List.nil_append]
    exact congrArg (· ++ _) hheld
  refine ⟨rfl, hgoing.served, ?_, ?_, hdown⟩
  · rw [htravels]
    exact List.take_prefix _ _
  · rw [htravels]
    intro heq
    have hlen := congrArg List.length heq
    rw [List.length_take] at hlen
    unfold sendCount at hlen
    omega

/-- `Send` takes part of a request: no step of either party ever leads to an answer.
It takes all: an answer can come. -/
theorem answerable_iff (hcodec : Codec build) {es : List ExchangeEvent}
    (h : Transition.run (wholeStep build) {} es = some s) {rand : Nat × Nat × Nat}
    {room : Nat} (hask : s.step build (.ask rand room) = some t) :
    (∃ fs u, Transition.run (Exchange.step build) t fs = some u ∧
      u.client.responses ≠ t.client.responses) ↔
      (encode ((drawn rand).serialize build)).length ≤ room := by
  obtain ⟨past, hgoing, hstage⟩ := inStep_of_run hcodec h
  cases takes_of_step hask with
  | ask _ hfree =>
  cases hstage with
  | asking _ _ hturn | answered _ _ _ _ hturn =>
      rw [hturn] at hfree
      cases hfree
  | idle hdraws _ hheld hup hdown =>
  constructor
  · rintro ⟨fs, u, hrun, hnew⟩
    by_contra hcut
    have hstuck := stuck_ask hgoing hheld hup hdown (Nat.not_le.mp hcut)
    exact hnew (congrArg Client.responses (hstuck.run hcodec hrun))
  · intro hroom
    have hin := inStep_ask hgoing (.idle hdraws hfree hheld hup hdown) hfree
      (ask_up_whole hcodec s hroom)
    obtain ⟨fs, u, hrun, hlt⟩ := exists_answer hcodec hin (by simp [ask])
    refine ⟨fs, u, Transition.run_mono (fun _ _ _ h => (wholeStep_eq_some.mp h).1) hrun, ?_⟩
    intro heq
    rw [heq] at hlt
    exact Nat.lt_irrefl _ hlt

theorem answerable_iff_cut :
    ∃ t, ({} : Exchange).step .self (.ask (2, 0, 0) 4) = some t ∧
      ∀ fs u, Transition.run (Exchange.step .self) t fs = some u →
        u.client.responses = t.client.responses := by
  obtain ⟨t, hask⟩ : ∃ t, ({} : Exchange).step .self (.ask (2, 0, 0) 4) = some t :=
    ⟨(({} : Exchange).step .self (.ask (2, 0, 0) 4)).getD {}, by decide⟩
  have hcut : ¬ (encode ((drawn (2, 0, 0)).serialize .self)).length ≤ 4 := by decide
  have hnone := mt (answerable_iff codec_self (Transition.run_nil _) hask).mp hcut
  refine ⟨t, hask, fun fs u hrun => ?_⟩
  by_contra hnew
  exact hnone ⟨fs, u, hrun, hnew⟩

end InStep

end Exchange

end LinuxAdvance
