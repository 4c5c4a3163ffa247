import LinuxAdvance.Calculator.Service
import LinuxAdvance.Reactor.Stream

/-!
# The two calculator servers on streams of frames

The reactor collects its responses in `_outbuffer` and sends them as the socket
takes them; the threaded server passes each to `Send`.  On a stream of frames,
however it is cut, both answer the payloads in order.  What the answers are is
left open: a relation between payloads and rounds, and a property of the
`Request` the parser carries from round to round.
-/

namespace LinuxAdvance

open LinuxAdvance.Foundation
open LinuxAdvance.Cxx
open LinuxAdvance.System
open LinuxAdvance.Calculator
open LinuxAdvance.Reactor

section Serving

variable (build : Build) (execute : Request → Except Exn Response)

/-- A payload that is always answered, from any `Request` in `Carried`, by a
round in relation to it. -/
def Serves (Carried : Request → Prop) (Answer : Payload → Round → Prop)
    (m : Payload) : Prop :=
  ∀ req, Carried req → ∃ round, Answer m round ∧ Carried round.req ∧
    ∀ {σ : Type} (s : σ),
      (answer build execute m.bytes req).run s = .done round s

variable {build execute} {Carried : Request → Prop}
  {Answer : Payload → Round → Prop}

/-! ## The reactor -/

open Session

/-- The wake-ups of a connection that is neither closed nor broken: the data
that is there is read until `EAGAIN`, and `send` fails with nothing but `EINTR`
and `EAGAIN`. -/
def Regular : Wake → Prop
  | .read recvs sends _ =>
      (∃ quiet, recvs = quiet ++ [.fail eagain] ∧ ∀ r ∈ quiet, Quiet r) ∧
        Patient sends
  | .write sends => Patient sends

def wakeBytes (w : Wake) : Bytes := w.recvs.flatMap RecvResult.bytes

def UninitIn (Carried : Request → Prop) : Wake → Prop
  | .read _ _ uninit => Carried uninit
  | .write _ => True

/-- Between two wake-ups: the payloads `ms` have been answered, and `buffer` is
waiting in `_inbuffer`. -/
structure Served (build : Build) (execute : Request → Except Exn Response)
    (Answer : Payload → Round → Prop) (fd : Fd) (buffer : Bytes)
    (ms : List Payload) (s : Session) : Prop where
  good : Good build execute fd s
  registered : s.registered = true
  inbuffer : s.conn.inbuffer = buffer
  short : framing.Short buffer
  served : List.Forall₂ Answer ms s.rounds

theorem parse_serves {new ms : List Payload} {rest : Bytes} {fd : Fd} {s : Session}
    (hserves : ∀ m ∈ new, Serves build execute Carried Answer m)
    (hsound : Sound build execute fd s)
    (h : s.registered = true) (hsettled : Settled s.conn)
    (hserved : List.Forall₂ Answer ms s.rounds)
    (hbuffer : s.conn.inbuffer = framing.frames new ++ rest)
    (hrest : framing.Short rest) {sends : List SendResult} (hsends : Patient sends)
    {uninit : Request} (huninit : Carried uninit) :
    ∃ s', (parse api build execute uninit sends).run s =
        .done () s' ∧ Served build execute Answer fd rest (ms ++ new) s' := by
  let H : Bytes → List Payload → Request → Session → Prop := fun b done req t =>
    Carried req ∧ t.registered = true ∧ Wired t.conn ∧ t.conn.inbuffer = b ∧
      List.Forall₂ Answer done t.rounds
  obtain ⟨req', t, hdrain, -, ht, hw, hb, hrounds⟩ := drain_frames api.inbuffer
    api.setInbuffer (parseBody api build execute) (H := H)
    (fun b done req t ht => ht.2.2.2.1 ▸ run_inbuffer ht.2.1)
    (by
      rintro b done req t ⟨-, ht, hw, rfl, hrounds⟩
      rw [run_setInbuffer ht])
    new
    (by
      rintro m hm tail done req t ⟨hreq, ht, hw, hb, hrounds⟩
      obtain ⟨round, hround, hcarried, hanswer⟩ := hserves m hm req hreq
      rw [Proc.run_bind_done (run_setInbuffer ht tail),
        parseBody_of_answer (by exact ht) (hanswer _)]
      refine ⟨_, _, rfl, hcarried, ht, hw.update _ _ _, rfl, ?_⟩
      rw [afterRound_rounds]
      exact List.rel_append hrounds (.cons hround .nil))
    (x := uninit) hrest ⟨huninit, h, hsound.wired, hbuffer, hserved⟩
  have hparse : (parse api build execute uninit sends).run s =
      (do
        let conn ← api.deref
        if conn.outbuffer ≠ [] then
          callSender api sends : Proc Fault Session Unit).run t := by
    rw [parse, Proc.run_bind_done hdrain]
  have hgood := parse_good build execute uninit sends s ⟨hsound, h, hsettled⟩
  rw [Proc.run_bind_done (run_deref ht)] at hparse
  by_cases hout : t.conn.outbuffer = []
  · rw [if_neg (not_not_intro hout)] at hparse
    rw [hparse] at hgood ⊢
    exact ⟨t, rfl, hgood, ht, hb, hrest, hrounds⟩
  · rw [if_pos hout, run_callSender ht hw] at hparse
    obtain ⟨s', hsend, hs', hregs', -⟩ := handlerSend_returns hsends ht hw
    rw [hsend] at hparse
    rw [hparse] at hgood ⊢
    exact ⟨s', rfl, hgood, hregs', hs'.inbuffer.trans hb, hrest,
      hs'.rounds ▸ hrounds⟩

theorem short_eq {new : List Payload} {buffer rest : Bytes}
    (hshort : framing.Short buffer) (h : buffer = framing.frames new ++ rest) :
    new = [] ∧ rest = buffer := by
  cases new with
  | nil => exact ⟨rfl, h.symm⟩
  | cons m new =>
      have hdecode := decode_short hshort
      rw [h, Framing.frames_cons, List.append_assoc, decode_frame] at hdecode
      exact absurd (congrArg Prod.fst (Except.ok.inj hdecode)) m.nonempty

theorem handle_serves {new before : List Payload} {buffer rest : Bytes} {fd : Fd}
    {s : Session} {w : Wake} (hs : Served build execute Answer fd buffer before s)
    (hw : Regular w) (huninit : UninitIn Carried w) (hnul : (0 : UInt8) ∉ wakeBytes w)
    (hbytes : buffer ++ wakeBytes w = framing.frames new ++ rest)
    (hrest : framing.Short rest)
    (hserves : ∀ m ∈ new, Serves build execute Carried Answer m) :
    ∃ s', (handle build execute w).run s = .done () s' ∧
      Served build execute Answer fd rest (before ++ new) s' := by
  have hwired := hs.good.sound.wired
  cases w with
  | read recvs sends uninit =>
      obtain ⟨⟨quiet, rfl, hquiet⟩, hsends⟩ := hw
      have hstored := stored_of_notMem hnul
      have hsettled := hs.good.settled hs.registered
      rw [handle, Proc.run_get_bind, if_pos ⟨hs.registered, hwired.recver⟩,
        handlerRecv_eagain hs.registered hquiet]
      refine parse_serves hserves (hs.good.sound.afterRecvs _) hs.registered
        ⟨hsettled.reads, hsettled.edge, hsettled.writes⟩ ?_ ?_ hrest hsends huninit
      · rw [afterRecvs_rounds]
        exact hs.served
      · rw [afterRecvs_inbuffer, hs.inbuffer, ← hbytes]
        exact congrArg _ hstored
  | write sends =>
      obtain ⟨rfl, rfl⟩ := short_eq hs.short ((List.append_nil _).symm.trans hbytes)
      rw [handle, Proc.run_get_bind, if_pos ⟨hs.registered, hwired.sender⟩]
      obtain ⟨s', hrun, hsent, hregs', hsettled'⟩ :=
        handlerSend_returns hw hs.registered hwired
      rw [List.append_nil]
      exact ⟨s', hrun, ⟨hs.good.sound.sends hsent, fun _ => hsettled'⟩, hregs',
        hsent.inbuffer.trans hs.inbuffer, hs.short, hsent.rounds ▸ hs.served⟩

theorem reactor_serves {payloads : List Payload} {wakes : List Wake} (fd : Fd)
    (hserves : ∀ m ∈ payloads, Serves build execute Carried Answer m)
    (hnul : (0 : UInt8) ∉ framing.frames payloads)
    (hregular : ∀ w ∈ wakes, Regular w)
    (huninit : ∀ w ∈ wakes, UninitIn Carried w)
    (hbytes : wakes.flatMap wakeBytes = framing.frames payloads) :
    ∃ s, (runWakes build execute wakes).run (opened fd) =
        .done () s ∧ Served build execute Answer fd [] payloads s := by
  have hstart : Served build execute Answer fd (framing.remainder payloads 0)
      (framing.complete payloads 0) (opened fd) := by
    rw [framing.remainder_zero, framing.complete_zero]
    exact ⟨good_opened build _ fd, rfl, rfl, .inl rfl, .nil⟩
  have hpieces := framing.forEach_pieces (handle build execute)
    wakeBytes payloads wakes
    (fun w hw buffer before new rest s hs hb hrest hpre =>
      handle_serves hs (hregular w hw) (huninit w hw)
        (fun h0 => hnul (hbytes ▸ List.mem_flatMap.mpr ⟨w, hw, h0⟩)) hb hrest
        (fun m hm => hserves m (hpre.subset (List.mem_append_right _ hm))))
    (by rw [List.drop_zero, hbytes, List.append_nil]) hstart
  rw [Nat.zero_add, hbytes,
    framing.remainder_eq_nil_of_le payloads (Nat.le_refl _),
    (framing.complete_eq_self_iff payloads _).mpr (Nat.le_refl _)] at hpieces
  exact hpieces

/-! ## The threaded server -/

theorem serveChunk_serves {new before : List Payload} {buffer rest : Bytes}
    {c : Conversation} {turn : Chunk × Request} (huninit : Carried turn.2)
    (hbuffer : c.recvmessage = buffer)
    (hserved : List.Forall₂ Answer before c.rounds)
    (hnul : (0 : UInt8) ∉ turn.1.bytes)
    (hbytes : buffer ++ turn.1.bytes = framing.frames new ++ rest)
    (hrest : framing.Short rest)
    (hserves : ∀ m ∈ new, Serves build execute Carried Answer m) :
    ∃ c', (Conversation.serveChunk build execute turn).run c =
        .done () c' ∧ c'.recvmessage = rest ∧
      List.Forall₂ Answer (before ++ new) c'.rounds := by
  let H : Bytes → List Payload → Request → Conversation → Prop := fun b done req t =>
    Carried req ∧ t.recvmessage = b ∧ List.Forall₂ Answer done t.rounds
  have hstart : H (framing.frames new ++ rest) before turn.2
      { c with recvmessage := c.recvmessage ++ ofCString turn.1.bytes } := by
    refine ⟨huninit, ?_, hserved⟩
    rw [ofCString_of_notMem hnul, hbuffer]
    exact hbytes
  obtain ⟨req, c', hdrain, -, hmessage, hrounds⟩ := drain_frames
    Conversation.getMessage Conversation.setMessage
    (Conversation.serveBody build execute) (H := H)
    (by
      rintro b done req t ⟨-, rfl, -⟩
      rfl)
    (by
      rintro b done req t ⟨-, rfl, -⟩
      rfl)
    new
    (by
      rintro m hm tail done req t ⟨hreq, hb, hrounds⟩
      obtain ⟨round, hround, hcarried, hanswer⟩ := hserves m hm req hreq
      refine ⟨round.req, _, Conversation.serveBody_of_answer (hanswer _), hcarried,
        rfl, ?_⟩
      exact List.rel_append hrounds (.cons hround .nil))
    hrest hstart
  refine ⟨c', ?_, hmessage, hrounds⟩
  rw [Conversation.serveChunk, Proc.run_modify_bind, Proc.run_bind_done hdrain]
  rfl

theorem service_serves {payloads : List Payload} {chunks : List (Chunk × Request)}
    (huninit : ∀ turn ∈ chunks, Carried turn.2)
    (hserves : ∀ m ∈ payloads, Serves build execute Carried Answer m)
    (hnul : (0 : UInt8) ∉ framing.frames payloads)
    (hbytes : chunks.flatMap (fun turn => turn.1.bytes) = framing.frames payloads) :
    ∃ c, (Proc.forEach (Conversation.serveChunk build execute)
          chunks).run {} = .done () c ∧
      c.recvmessage = [] ∧ List.Forall₂ Answer payloads c.rounds := by
  have hpieces := framing.forEach_pieces
    (Conversation.serveChunk build execute)
    (fun turn => turn.1.bytes)
    (H := fun b ms c => c.recvmessage = b ∧
      List.Forall₂ Answer ms c.rounds)
    payloads chunks
    (fun turn hturn buffer before new rest c hc hb hrest hpre =>
      serveChunk_serves (huninit turn hturn) hc.1 hc.2
        (fun h0 => hnul (hbytes ▸ List.mem_flatMap.mpr ⟨turn, hturn, h0⟩)) hb hrest
        (fun m hm => hserves m (hpre.subset (List.mem_append_right _ hm))))
    (n := 0) (s := {}) (by rw [List.drop_zero, hbytes, List.append_nil])
    (by
      rw [framing.remainder_zero, framing.complete_zero]
      exact ⟨rfl, .nil⟩)
  rw [Nat.zero_add, hbytes,
    framing.remainder_eq_nil_of_le payloads (Nat.le_refl _),
    (framing.complete_eq_self_iff payloads _).mpr (Nat.le_refl _)] at hpieces
  exact hpieces

end Serving

end LinuxAdvance
