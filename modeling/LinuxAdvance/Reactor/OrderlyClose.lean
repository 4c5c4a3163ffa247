import LinuxAdvance.Calculator.Calculate
import LinuxAdvance.Reactor.Stream

/-!
# Requests before the end of the stream

When `recv` reports the end of the stream, `HandlerRecv` calls the excepter and
returns before the callback.  What earlier wake-ups had received is parsed by
then; what came in the same wake-up is not.
-/

namespace LinuxAdvance.Reactor

open LinuxAdvance.Foundation
open LinuxAdvance.Cxx
open LinuxAdvance.System
open LinuxAdvance.Calculator

namespace Session

section Close

variable {build : Build} {execute : Request → Except Exn Response} {fd : Fd}

/-! ## What a wake-up adds -/

theorem handle_unregistered {s : Session} (h : s.registered = false) (w : Wake) :
    (handle build execute w).run s = .done () s := by
  cases w <;> simp [handle, h]

theorem runWakes_unregistered {s : Session} (h : s.registered = false)
    (wakes : List Wake) : (runWakes build execute wakes).run s = .done () s := by
  induction wakes with
  | nil => rfl
  | cons w wakes ih =>
      rw [runWakes, Proc.forEach_cons, Proc.run_bind_done (handle_unregistered h w)]
      exact ih

theorem handle_inv {s s' : Session} (hgood : Good build execute fd s)
    (h : s.registered = true) {w : Wake}
    (hrun : (handle build execute w).run s = .done () s') :
    Sends s s' ∨ (∃ rs, s' = (s.afterRecvs rs).removed) ∨
      ∃ rs uninit sends,
        (parse api build execute uninit sends).run (s.afterRecvs rs) = .done () s' := by
  have hwired := hgood.sound.wired
  cases w with
  | read recvs sends uninit =>
      rw [handle, Proc.run_get_bind, if_pos ⟨h, hwired.recver⟩] at hrun
      rcases handlerRecv_inv h hwired hrun with ⟨rs, hs'⟩ | ⟨rs, hs'⟩
      · exact .inr (.inl ⟨rs, hs'⟩)
      · exact .inr (.inr ⟨rs, uninit, sends, hs'⟩)
  | write sends =>
      rw [handle, Proc.run_get_bind, if_pos ⟨h, hwired.sender⟩] at hrun
      have hends := handlerSend_ends sends h hwired
      rw [hrun] at hends
      exact .inl hends.1

theorem handle_grows {s s' : Session} (hgood : Good build execute fd s) {w : Wake}
    (hrun : (handle build execute w).run s = .done () s') :
    s.receivedBytes <+: s'.receivedBytes := by
  by_cases h : s.registered = true
  · rcases handle_inv hgood h hrun with hsends | ⟨rs, rfl⟩ | ⟨rs, uninit, sends, hparse⟩
    · rw [hsends.received]
    · rw [(sends_removed _).received, afterRecvs_receivedBytes]
      exact List.prefix_append _ _
    · have hparsed := parse_grows (by exact h)
        (wired_afterRecvs s rs hgood.sound.wired) hparse
      rw [hparsed.2, afterRecvs_receivedBytes]
      exact List.prefix_append _ _
  · rw [handle_unregistered (by simpa using h)] at hrun
    cases hrun
    exact List.prefix_refl _

/-! ## Complete frames are executed by the wake-up that completes them -/

/-- Between two wake-ups of a connection whose stream starts with the frames of
`ms`: either the stream received so far ends within them, and the complete ones
have been executed and the rest is in `_inbuffer`, or all have been executed. -/
def Keeping (ms : List Payload) (s : Session) : Prop :=
  if s.receivedBytes.length < (framing.frames ms).length then
    s.conn.inbuffer = framing.remainder ms s.receivedBytes.length ∧
      s.packages = (framing.complete ms s.receivedBytes.length).map Payload.bytes
  else
    ms.map Payload.bytes <+: s.packages

theorem keeping_opened (ms : List Payload) (fd : Fd) : Keeping ms (opened fd) := by
  have hreceived : (opened fd).receivedBytes = [] := rfl
  rw [Keeping, hreceived, List.length_nil, framing.remainder_zero,
    framing.complete_zero]
  split
  · exact ⟨rfl, rfl⟩
  · next h =>
    have hlen := length_le_length_frames ms
    have hnil : ms = [] := List.length_eq_zero_iff.mp (by omega)
    rw [hnil]
    exact List.nil_prefix

section Parse

variable {ms : List Payload} {s s' : Session} {rs : List RecvResult} {uninit : Request}
  {sends : List SendResult} {ahead : Bytes}

theorem parse_reaches (hwired : Wired s.conn) (h : s.registered = true)
    (hparse : (parse api build execute uninit sends).run (s.afterRecvs rs) = .done () s')
    (hahead : s.receivedBytes ++ ahead = framing.frames ms) (hnul : (0 : UInt8) ∉ ahead)
    (hbuffer : s.conn.inbuffer = framing.remainder ms s.receivedBytes.length)
    (hpkg : s.packages = (framing.complete ms s.receivedBytes.length).map Payload.bytes)
    (hall : ahead <+: rs.flatMap RecvResult.bytes) :
    ms.map Payload.bytes <+: s'.packages := by
  have hlen := congrArg List.length hahead
  rw [List.length_append] at hlen
  have hdrop : (framing.frames ms).drop s.receivedBytes.length = ahead := by
    rw [← hahead, List.drop_left]
  obtain ⟨more, hmore⟩ := hall
  obtain ⟨more', hstored, -⟩ := stored_of_prefix hmore.symm hnul
  obtain ⟨new, hcomplete, hnew⟩ :=
    framing.remainder_append ms s.receivedBytes.length ahead.length
  rw [hdrop, List.take_length, hlen,
    framing.remainder_eq_nil_of_le ms (Nat.le_refl _), List.append_nil] at hnew
  rw [hlen, (framing.complete_eq_self_iff ms _).mpr (Nat.le_refl _)] at hcomplete
  have hinbuffer : (s.afterRecvs rs).conn.inbuffer = framing.frames new ++ more' := by
    rw [afterRecvs_inbuffer, hbuffer, hstored, ← List.append_assoc, hnew]
  have hframes := parse_frames (by exact h) (wired_afterRecvs s rs hwired) hinbuffer hparse
  rw [packages_afterRecvs, hpkg, ← List.map_append, ← hcomplete] at hframes
  exact hframes.1

theorem parse_stays (hwired : Wired s.conn) (h : s.registered = true)
    (hparse : (parse api build execute uninit sends).run (s.afterRecvs rs) = .done () s')
    (hahead : s.receivedBytes ++ ahead = framing.frames ms) (hnul : (0 : UInt8) ∉ ahead)
    (hbuffer : s.conn.inbuffer = framing.remainder ms s.receivedBytes.length)
    (hpkg : s.packages = (framing.complete ms s.receivedBytes.length).map Payload.bytes)
    (hwithin : rs.flatMap RecvResult.bytes <+: ahead) :
    s'.conn.inbuffer = framing.remainder ms
        (s.receivedBytes.length + (rs.flatMap RecvResult.bytes).length) ∧
      s'.packages = (framing.complete ms
        (s.receivedBytes.length + (rs.flatMap RecvResult.bytes).length)).map
          Payload.bytes := by
  have hdrop : (framing.frames ms).drop s.receivedBytes.length = ahead := by
    rw [← hahead, List.drop_left]
  have hnulNew : (0 : UInt8) ∉ rs.flatMap RecvResult.bytes :=
    fun h0 => hnul (hwithin.subset h0)
  obtain ⟨new, hcomplete, hnew⟩ := framing.remainder_append ms
    s.receivedBytes.length (rs.flatMap RecvResult.bytes).length
  rw [hdrop, ← List.prefix_iff_eq_take.mp hwithin] at hnew
  have hinbuffer : (s.afterRecvs rs).conn.inbuffer =
      framing.frames new ++ framing.remainder ms
        (s.receivedBytes.length + (rs.flatMap RecvResult.bytes).length) := by
    rw [afterRecvs_inbuffer, hbuffer, stored_of_notMem hnulNew, hnew]
  have hframes := parse_frames (by exact h) (wired_afterRecvs s rs hwired) hinbuffer hparse
  obtain ⟨hrest, hexec⟩ := hframes.2 (framing.remainder_short ms _)
  rw [packages_afterRecvs, hpkg, ← List.map_append, ← hcomplete] at hexec
  exact ⟨hrest, hexec⟩

theorem parse_keeping {rest : Bytes} (hnul : (0 : UInt8) ∉ framing.frames ms)
    (hwired : Wired s.conn) (h : s.registered = true) (hs : Keeping ms s)
    (hparse : (parse api build execute uninit sends).run (s.afterRecvs rs) = .done () s')
    (hstream : s.receivedBytes ++ rs.flatMap RecvResult.bytes <+:
      framing.frames ms ++ rest) : Keeping ms s' := by
  have hparsed := parse_grows (by exact h) (wired_afterRecvs s rs hwired) hparse
  have hreceived : s'.receivedBytes.length =
      s.receivedBytes.length + (rs.flatMap RecvResult.bytes).length := by
    rw [hparsed.2, afterRecvs_receivedBytes, List.length_append]
  rw [Keeping] at hs
  rw [Keeping, hreceived]
  split at hs
  swap
  · next hover =>
    -- all frames had been executed before
    rw [if_neg (by omega)]
    exact hs.trans (packages_afterRecvs s rs ▸ hparsed.1)
  · next hwithin =>
    obtain ⟨hbuffer, hpkg⟩ := hs
    -- what the stream holds of the frames behind what had been received
    obtain ⟨ahead, hahead⟩ : s.receivedBytes <+: framing.frames ms :=
      List.prefix_of_prefix_length_le ((List.prefix_append _ _).trans hstream)
        (List.prefix_append _ _) (Nat.le_of_lt hwithin)
    have hnulAhead : (0 : UInt8) ∉ ahead := by
      intro h0
      exact hnul (hahead ▸ List.mem_append_right _ h0)
    rw [← hahead, List.append_assoc, List.prefix_append_right_inj] at hstream
    rw [← hahead, List.length_append]
    by_cases hall : ahead.length ≤ (rs.flatMap RecvResult.bytes).length
    · rw [if_neg (by omega)]
      exact parse_reaches hwired h hparse hahead hnulAhead hbuffer hpkg
        (List.prefix_of_prefix_length_le (List.prefix_append ahead rest) hstream hall)
    · rw [if_pos (by omega)]
      exact parse_stays hwired h hparse hahead hnulAhead hbuffer hpkg
        (List.prefix_of_prefix_length_le hstream (List.prefix_append _ _) (by omega))

end Parse

theorem handle_keeping {ms : List Payload} {rest : Bytes} {s s' : Session}
    (hnul : (0 : UInt8) ∉ framing.frames ms) (hgood : Good build execute fd s)
    (h : s.registered = true) (hs : Keeping ms s) {w : Wake}
    (hrun : (handle build execute w).run s = .done () s')
    (h' : s'.registered = true)
    (hstream : s'.receivedBytes <+: framing.frames ms ++ rest) : Keeping ms s' := by
  have hwired := hgood.sound.wired
  rcases handle_inv hgood h hrun with hsends | ⟨rs, rfl⟩ | ⟨rs, uninit, sends, hparse⟩
  · rw [Keeping, hsends.received, hsends.inbuffer, packages, hsends.rounds]
    exact hs
  · simp [removed] at h'
  · have hparsed := parse_grows (by exact h) (wired_afterRecvs s rs hwired) hparse
    rw [hparsed.2, afterRecvs_receivedBytes] at hstream
    exact parse_keeping hnul hwired h hs hparse hstream

theorem runWakes_grows {wakes : List Wake} {s s' : Session}
    (hgood : Good build execute fd s)
    (hrun : (runWakes build execute wakes).run s = .done () s') :
    s.receivedBytes <+: s'.receivedBytes := by
  induction wakes generalizing s with
  | nil =>
      cases hrun
      exact List.prefix_refl _
  | cons w wakes ih =>
      rw [runWakes, Proc.forEach_cons, Proc.run_bind_eq_done] at hrun
      obtain ⟨_, s₁, hw, hwakes⟩ := hrun
      have hgood₁ := handle_good w s hgood
      rw [hw] at hgood₁
      exact (handle_grows hgood hw).trans (ih hgood₁ hwakes)

theorem runWakes_keeping {ms : List Payload} {rest : Bytes}
    (hnul : (0 : UInt8) ∉ framing.frames ms) {wakes : List Wake} {s s' : Session}
    (hgood : Good build execute fd s) (hs : Keeping ms s)
    (hrun : (runWakes build execute wakes).run s = .done () s')
    (h' : s'.registered = true)
    (hstream : s'.receivedBytes <+: framing.frames ms ++ rest) : Keeping ms s' := by
  induction wakes generalizing s with
  | nil =>
      cases hrun
      exact hs
  | cons w wakes ih =>
      rw [runWakes, Proc.forEach_cons, Proc.run_bind_eq_done] at hrun
      obtain ⟨_, s₁, hw, hwakes⟩ := hrun
      have hgood₁ := handle_good w s hgood
      rw [hw] at hgood₁
      -- a connection that is registered at the end was so all along
      have hopen : ∀ t, (runWakes build execute wakes).run t = .done () s' →
          t.registered = true := by
        intro t ht
        by_contra hclosed
        rw [runWakes_unregistered (by simpa using hclosed)] at ht
        cases ht
        exact hclosed h'
      have h₁ := hopen s₁ hwakes
      have h : s.registered = true := by
        by_contra hclosed
        rw [handle_unregistered (by simpa using hclosed)] at hw
        cases hw
        exact hclosed h₁
      have hstream₁ := (runWakes_grows hgood₁ hwakes).trans hstream
      exact ih hgood₁ (handle_keeping hnul hgood h hs hw h₁ hstream₁) hwakes

/-! ## The wake-up that reads the end of the stream -/

theorem errno_quiet {quiet : List RecvResult} (hquiet : ∀ r ∈ quiet, Quiet r)
    {errno : Nat} (h : errno = 0 ∨ errno = eintr) :
    quiet.foldl errnoAfter errno = 0 ∨ quiet.foldl errnoAfter errno = eintr := by
  induction quiet generalizing errno with
  | nil => exact h
  | cons r quiet ih =>
      have hr := hquiet r (by simp)
      refine ih (fun q hq => hquiet q (by simp [hq])) ?_
      cases r with
      | data chunk => exact h
      | eof => exact False.elim hr
      | fail e => exact .inr hr

theorem handle_eof {s s' : Session} (hgood : Good build execute fd s)
    (h : s.registered = true) {quiet : List RecvResult}
    (hquiet : ∀ r ∈ quiet, Quiet r) {sends : List SendResult} {uninit : Request}
    (hrun : (handle build execute (.read (quiet ++ [.eof]) sends uninit)).run s =
      .done () s') :
    s' = (s.afterRecvs (quiet ++ [.eof])).removed := by
  have hwired := hgood.sound.wired
  rw [handle, Proc.run_get_bind, if_pos ⟨h, hwired.recver⟩, handlerRecv,
    recvLoop_quiet h hquiet, recvLoop_stopped (by exact h) (by simp)] at hrun
  dsimp only [errnoAfter] at hrun
  rcases errno_quiet hquiet (.inl rfl) with herrno | herrno
  · rw [herrno, recvStopped, if_neg (by decide), if_neg (by decide),
      run_callExcepter (by exact h) (wired_afterRecvs _ _ (wired_afterRecvs _ _ hwired)),
      afterRecvs_append] at hrun
    cases hrun
    rfl
  · rw [herrno, recvStopped, if_neg (by decide), if_pos rfl] at hrun
    cases hrun

end Close

end Session

open Session in
/--
A connection whose stream starts with the frames of `ms` and that is removed
because its peer has closed: the payloads of `ms` have been executed, in order,
exactly when they can be held in the buffer at all and the wake-ups before the
last had received them.
-/
theorem executed_before_close_iff (build : Build)
    (execute : Request → Except Exn Response) (fd : Fd) (earlier : List Wake)
    (quiet : List RecvResult) (sends : List SendResult) (uninit : Request)
    {s₀ s : Session} (ms : List Bytes) (rest : Bytes)
    (hms : ∀ m ∈ ms, (encode m).length < 2 ^ 31)
    (hearlier : (runWakes build execute earlier).run (opened fd) = .done () s₀)
    (hopen : s₀.registered = true) (hquiet : ∀ r ∈ quiet, Quiet r)
    (hlast : (handle build execute (.read (quiet ++ [.eof]) sends uninit)).run s₀ =
      .done () s)
    (hbytes : s.receivedBytes = ms.flatMap encode ++ rest) :
    s.registered = false ∧
      (ms <+: s.packages ↔
        (∀ m ∈ ms, m ≠ [] ∧ (0 : UInt8) ∉ m) ∧
          (ms.flatMap encode).length ≤ s₀.receivedBytes.length) := by
  have hgood := good_of_run hearlier
  have hs := handle_eof hgood hopen hquiet hlast
  have hpackages : s.packages = s₀.packages := by
    rw [hs, packages, (sends_removed _).rounds, afterRecvs_rounds, packages]
  have hpre : s₀.receivedBytes <+: ms.flatMap encode ++ rest := by
    rw [← hbytes, hs, (sends_removed _).received, afterRecvs_receivedBytes]
    exact List.prefix_append _ _
  have hkeeping : (∀ m ∈ ms, m ≠ [] ∧ (0 : UInt8) ∉ m) →
      ∃ payloads : List Payload, payloads.map Payload.bytes = ms ∧
        framing.frames payloads = ms.flatMap encode ∧ Keeping payloads s₀ := by
    intro hplain
    obtain ⟨payloads, hmap, hframes⟩ :=
      exists_payloads ms fun m hm => ⟨(hplain m hm).1, hms m hm⟩
    refine ⟨payloads, hmap, hframes, ?_⟩
    have hnul : (0 : UInt8) ∉ framing.frames payloads := by
      refine notMem_frames fun p hp => (hplain p.bytes ?_).2
      rw [← hmap]
      exact List.mem_map_of_mem hp
    exact runWakes_keeping hnul (good_opened build execute fd)
      (keeping_opened payloads fd) hearlier hopen (hframes ▸ hpre)
  refine ⟨by rw [hs]; rfl, ?_⟩
  rw [hpackages]
  constructor
  · intro hexecuted
    have hplain : ∀ m ∈ ms, m ≠ [] ∧ (0 : UInt8) ∉ m := by
      intro m hm
      obtain ⟨round, hround, rfl⟩ := List.mem_map.mp (hexecuted.subset hm)
      have hanswered := hgood.sound.answered round hround
      exact ⟨hanswered.nonempty, hanswered.nulFree⟩
    refine ⟨hplain, ?_⟩
    obtain ⟨payloads, hmap, hframes, hkeep⟩ := hkeeping hplain
    rw [Keeping, hframes] at hkeep
    split at hkeep
    · next hshort =>
      -- fewer frames were complete than have been executed
      have hcount := hexecuted.length_le
      rw [hkeep.2, List.length_map, ← hmap, List.length_map] at hcount
      have hcomplete := (framing.le_length_complete_iff payloads
        s₀.receivedBytes.length payloads.length).mp hcount
      rw [List.take_length, hframes] at hcomplete
      exact hcomplete.2
    · next hlong => exact Nat.not_lt.mp hlong
  · rintro ⟨hplain, hlen⟩
    obtain ⟨payloads, hmap, hframes, hkeep⟩ := hkeeping hplain
    rw [Keeping, hframes, if_neg (Nat.not_lt.mpr hlen), hmap] at hkeep
    exact hkeep

/-- One request and the end of the stream in one wake-up: the connection goes,
and the request with it. -/
def onePlusOne : Chunk := ⟨text "5\r\n1 + 1\r\n", by decide, by decide⟩

open Session in
theorem request_dropped_at_close :
    ¬ ∀ (quiet : List RecvResult) (s : Session),
      (∀ r ∈ quiet, Quiet r) →
      (handle .self Calculate.execute
        (.read (quiet ++ [.eof]) [] ⟨0, 0, 0⟩)).run (opened 5) = .done () s →
      ∀ ms, s.receivedBytes = ms.flatMap encode → ms <+: s.packages := by
  intro h
  have hdropped := h [.data onePlusOne]
    ((opened 5).afterRecvs [.data onePlusOne, .eof]).removed
    (by simp [Quiet]) (by decide) [text "1 + 1"] (by decide)
  revert hdropped
  decide

open Session in
theorem executed_before_close_iff_two_wakes :
    ∃ s₀ s : Session,
      s.registered = false ∧
        ([text "1 + 1"] <+: s.packages ↔
          (∀ m ∈ [text "1 + 1"], m ≠ [] ∧ (0 : UInt8) ∉ m) ∧
            ([text "1 + 1"].flatMap encode).length ≤ s₀.receivedBytes.length) := by
  let earlier : List Wake :=
    [.read [.data onePlusOne, .fail eagain] [.sent 100] ⟨0, 0, 0⟩]
  let s₀ := ((runWakes .self Calculate.execute earlier).run (opened 5)).state
  refine ⟨s₀, (s₀.afterRecvs [.eof]).removed, ?_⟩
  exact executed_before_close_iff .self Calculate.execute 5 earlier [] [] ⟨0, 0, 0⟩
    [text "1 + 1"] [] (by decide) (by decide) (by decide) (by simp) (by decide)
    (by decide)

end LinuxAdvance.Reactor
