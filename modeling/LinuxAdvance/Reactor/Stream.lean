import LinuxAdvance.Reactor.Wakes

/-!
# Frames through a connection

What the bytes a peer sends become on their way to `Execute`: `recv` delivers
them in pieces, `AppendInbuff` keeps them up to the first NUL of a piece, the
parser takes the complete frames off the buffer.
-/

namespace LinuxAdvance.Reactor

open LinuxAdvance.Foundation
open LinuxAdvance.Cxx
open LinuxAdvance.System
open LinuxAdvance.Calculator

namespace Session

/-! ## From `recv` to `_inbuffer` -/

theorem ofCString_append {x y : Bytes} (hx : (0 : UInt8) ∉ x) :
    ofCString (x ++ y) = x ++ ofCString y := by
  have hall : ∀ b ∈ x, (decide (b ≠ 0)) = true := by
    intro b hb
    simpa using fun h0 : b = 0 => hx (h0 ▸ hb)
  rw [ofCString, List.takeWhile_append_of_pos hall]
  rfl

theorem stored_of_prefix {results : List RecvResult} {x more : Bytes}
    (h : results.flatMap RecvResult.bytes = x ++ more) (hx : (0 : UInt8) ∉ x) :
    ∃ more', results.flatMap stored = x ++ more' ∧ (more = [] → more' = []) := by
  induction results generalizing x more with
  | nil =>
      obtain ⟨rfl, rfl⟩ := List.append_eq_nil_iff.mp h.symm
      exact ⟨[], rfl, fun _ => rfl⟩
  | cons r results ih =>
      have hstored : stored r = ofCString r.bytes := by
        cases r <;> rfl
      rw [List.flatMap_cons] at h
      rw [List.flatMap_cons, hstored]
      rcases List.append_eq_append_iff.mp h with ⟨x', rfl, htail⟩ | ⟨y, hbytes, rfl⟩
      · obtain ⟨hr, hx'⟩ := not_or.mp (mt List.mem_append.mpr hx)
        obtain ⟨more', hmore', hnil⟩ := ih htail hx'
        rw [ofCString_of_notMem hr, hmore']
        exact ⟨more', by simp, hnil⟩
      · rw [hbytes, ofCString_append hx]
        refine ⟨ofCString y ++ results.flatMap stored, by simp, fun hnil => ?_⟩
        obtain ⟨rfl, hrest⟩ := List.append_eq_nil_iff.mp hnil
        have hnone : results.flatMap RecvResult.bytes = [] ++ [] := hrest
        obtain ⟨more', hmore', hnil'⟩ := ih hnone (by simp)
        rw [hmore', hnil' rfl]
        rfl

theorem stored_of_notMem {results : List RecvResult}
    (h : (0 : UInt8) ∉ results.flatMap RecvResult.bytes) :
    results.flatMap stored = results.flatMap RecvResult.bytes := by
  obtain ⟨more', hmore', hnil⟩ := stored_of_prefix (List.append_nil _).symm h
  rw [hmore', hnil rfl, List.append_nil]

theorem handlerRecv_inv {func : Proc Fault Session Unit} {s s' : Session}
    (h : s.registered = true) (hwired : Wired s.conn) {results : List RecvResult}
    (hrun : (handlerRecv api func results).run s = .done () s') :
    (∃ rs, s' = (s.afterRecvs rs).removed) ∨
      ∃ rs, func.run (s.afterRecvs rs) = .done () s' := by
  have hends := handlerRecv_ends
    (I := fun t => ∃ rs, t = s.afterRecvs rs)
    (Q := fun _ s' => (∃ rs, s' = (s.afterRecvs rs).removed) ∨
      ∃ rs, func.run (s.afterRecvs rs) = .done () s')
    (X := fun _ _ => True)
    (by
      rintro t ⟨rs, rfl⟩
      exact ⟨h, wired_afterRecvs s rs hwired⟩)
    (by
      rintro t r ⟨rs, rfl⟩
      exact ⟨rs ++ [r], by simp⟩)
    (by
      rintro t ⟨rs, rfl⟩
      cases hfunc : func.run (s.afterRecvs rs) with
      | done u s' => exact .inr ⟨rs, hfunc⟩
      | blocked s' => trivial
      | raised e s' => trivial)
    (by
      rintro t ⟨rs, rfl⟩
      exact .inl ⟨rs, rfl⟩)
    (fun _ _ => trivial) results s ⟨[], by simp⟩
  rw [hrun] at hends
  exact hends

/-! ## From `_inbuffer` to `Execute` -/

section Parse

variable {build : Build} {execute : Request → Except Exn Response}

def packages (s : Session) : List Bytes := s.rounds.map Round.package

@[simp] theorem packages_afterRecvs (s : Session) (results : List RecvResult) :
    (s.afterRecvs results).packages = s.packages := by
  simp [packages]

@[simp] theorem packages_afterRound (s : Session) (round : Round) :
    (s.afterRound round).packages = s.packages ++ [round.package] := by
  simp [packages]

/-- `t` comes from `s` by answering the payloads `ms`, and `b` is left. -/
structure Taken (s : Session) (b : Bytes) (ms : List Payload) (t : Session) : Prop where
  registered : t.registered = true
  wired : Wired t.conn
  inbuffer : t.conn.inbuffer = b
  received : t.receivedBytes = s.receivedBytes
  packages : t.packages = s.packages ++ ms.map Payload.bytes

theorem parseRound_taken {s t : Session} {m : Payload} {tail : Bytes}
    {ms : List Payload} (ht : Taken s (framing.encode m ++ tail) ms t) (req : Request) :
    (∃ req' t', (parseRound build execute req).run t = .done (.inl req') t' ∧
      Taken s tail (ms ++ [m]) t') ∨
    ∃ e t', (parseRound build execute req).run t = .raised e t' := by
  rcases parseRound_cases build execute ht.registered req with
    ⟨e, t', hr, -⟩ | ⟨rest, hd, hr⟩ | ⟨round, rest, hd, -, -, hr⟩
  · exact .inr ⟨_, t', hr⟩
  · rw [ht.inbuffer, decode_frame] at hd
    exact absurd (congrArg Prod.fst (Except.ok.inj hd)) m.nonempty
  · rw [ht.inbuffer, decode_frame] at hd
    obtain ⟨hpkg, rfl⟩ := Prod.mk.inj (Except.ok.inj hd)
    refine .inl ⟨_, _, hr, ht.registered, ht.wired.update _ _ _, rfl, ?_, ?_⟩
    · rw [afterRound_receivedBytes]
      exact ht.received
    · rw [packages_afterRound]
      change t.packages ++ _ = _
      rw [ht.packages, ← hpkg]
      simp

/-- What every number of rounds keeps: nothing is received, and nothing that has
been executed is taken back. -/
structure Grown (s t : Session) : Prop where
  registered : t.registered = true
  wired : Wired t.conn
  received : t.receivedBytes = s.receivedBytes
  packages : s.packages <+: t.packages

theorem parseRounds_grown {s t t' : Session} (ht : Grown s t) {n : Nat}
    {req req' : Request}
    (hrun : (Proc.iterate (parseRound build execute) n req).run t = .done req' t') :
    Grown s t' := by
  have hends := parseRounds_ends build execute (I := Grown s)
    (fun t ht => ht.registered)
    (fun t package rest ht _ =>
      ⟨ht.registered, ht.wired.update _ _ _, ht.received, ht.packages⟩)
    (by
      rintro t round rest ⟨ht, hw, hrecv, hpre⟩ - - -
      refine ⟨ht, hw.update _ _ _, ?_, ?_⟩
      · rw [afterRound_receivedBytes]
        exact hrecv
      · rw [packages_afterRound]
        exact hpre.trans (List.prefix_append _ _))
    n req t ht
  rw [hrun] at hends
  exact hends

theorem parse_inv {uninit : Request} {sends : List SendResult} {s s' : Session}
    (h : s.registered = true) (hwired : Wired s.conn)
    (hrun : (parse api build execute uninit sends).run s = .done () s') :
    ∃ req t, (Proc.iterate (parseRound build execute)
        (s.conn.inbuffer.length + 1) uninit).run s = .done req t ∧
      Grown s t ∧ Sends t s' := by
  rw [parse, Proc.run_bind_eq_done] at hrun
  obtain ⟨req, t, hdrain, hrest⟩ := hrun
  rw [drain, Proc.run_bind_done (run_inbuffer h)] at hdrain
  have hgrown := parseRounds_grown ⟨h, hwired, rfl, List.prefix_refl _⟩ hdrain
  refine ⟨req, t, hdrain, hgrown, ?_⟩
  rw [Proc.run_bind_done (run_deref hgrown.registered)] at hrest
  split at hrest
  · rw [run_callSender hgrown.registered hgrown.wired] at hrest
    have hends := handlerSend_ends sends hgrown.registered hgrown.wired
    rw [hrest] at hends
    exact hends.1
  · cases hrest
    exact Sends.refl _

theorem Sends.packages {s s' : Session} (h : Sends s s') :
    s'.packages = s.packages := by
  rw [Session.packages, h.rounds, Session.packages]

/-- A parser that returns has executed the packages of all complete frames at
the front of its buffer; with no other bytes behind them than the beginning of
a frame, it has executed these and no more. -/
theorem parse_frames {uninit : Request} {sends : List SendResult} {s s' : Session}
    (h : s.registered = true) (hwired : Wired s.conn)
    {new : List Payload} {tail : Bytes}
    (hbuffer : s.conn.inbuffer = framing.frames new ++ tail)
    (hrun : (parse api build execute uninit sends).run s = .done () s') :
    s.packages ++ new.map Payload.bytes <+: s'.packages ∧
      (framing.Short tail → s'.conn.inbuffer = tail ∧
        s'.packages = s.packages ++ new.map Payload.bytes) := by
  obtain ⟨req', t, hloop, -, hsent⟩ := parse_inv h hwired hrun
  -- the loop first takes the frames of `new`, then goes on with the rounds left
  have hlen := length_le_length_frames new
  obtain ⟨n, hn⟩ : ∃ n, s.conn.inbuffer.length + 1 = new.length + (n + 1) := by
    refine ⟨s.conn.inbuffer.length - new.length, ?_⟩
    rw [hbuffer, List.length_append]
    omega
  rw [hn] at hloop
  have hstart : Taken s (framing.frames new ++ tail) [] s :=
    ⟨h, hwired, hbuffer, rfl, by simp⟩
  have hround : ∀ m ∈ new, ∀ tail ms req t, Taken s (framing.encode m ++ tail) ms t →
      (∃ req' t', (parseRound build execute req).run t = .done (.inl req') t' ∧
        Taken s tail (ms ++ [m]) t') ∨
      ∃ e t', True ∧ (parseRound build execute req).run t = .raised e t' := by
    intro m _ tail ms req t ht
    simpa using parseRound_taken ht req
  rcases framing.iterate_frames (E := fun _ => True)
      (H := fun b ms (_ : Request) t => Taken s b ms t) new hround (n + 1) hstart with
    ⟨req₁, t₁, htaken, hiter⟩ | ⟨e, t₁, -, hiter⟩
  swap
  · rw [hiter] at hloop
    cases hloop
  rw [hiter] at hloop
  rw [List.nil_append] at htaken
  have hgrown := parseRounds_grown
    ⟨htaken.registered, htaken.wired, rfl, List.prefix_refl _⟩ hloop
  refine ⟨?_, fun hshort => ?_⟩
  · rw [hsent.packages, ← htaken.packages]
    exact hgrown.packages
  · -- the next round finds no package
    rcases parseRound_cases build execute htaken.registered req₁ with
      ⟨e, t', hr, -⟩ | ⟨rest, hd, hr⟩ | ⟨round, rest, hd, hne, -, -⟩
    · rw [Proc.iterate_succ_raised hr] at hloop
      cases hloop
    · rw [htaken.inbuffer, decode_short hshort] at hd
      cases hd
      rw [Proc.iterate_succ_inr hr] at hloop
      cases hloop
      exact ⟨hsent.inbuffer, hsent.packages.trans htaken.packages⟩
    · rw [htaken.inbuffer, decode_short hshort] at hd
      exact absurd (congrArg Prod.fst (Except.ok.inj hd)).symm hne

theorem parse_grows {uninit : Request} {sends : List SendResult} {s s' : Session}
    (h : s.registered = true) (hwired : Wired s.conn)
    (hrun : (parse api build execute uninit sends).run s = .done () s') :
    s.packages <+: s'.packages ∧ s'.receivedBytes = s.receivedBytes := by
  obtain ⟨req, t, -, hgrown, hsent⟩ := parse_inv h hwired hrun
  exact ⟨hsent.packages ▸ hgrown.packages, hsent.received.trans hgrown.received⟩

end Parse

end Session

end LinuxAdvance.Reactor
