import LinuxAdvance.Calculator.Calculate
import LinuxAdvance.Calculator.DrainEnds
import LinuxAdvance.Calculator.Service
import LinuxAdvance.Reactor.Receive

/-!
# When the drain loops of the two servers end

Both loops own the buffer they drain: the rounds between two calls of `decode`
leave it alone.
-/

namespace LinuxAdvance

open LinuxAdvance.Foundation
open LinuxAdvance.Cxx
open LinuxAdvance.Calculator
open LinuxAdvance.Reactor

section Termination

variable (build : Build) (execute : Request → Except Exn Response)

theorem parse_ownsBuffer :
    OwnsBuffer (fun s : Session => s.registered = true) (fun s => s.conn.inbuffer)
      Session.api.inbuffer Session.api.setInbuffer
      (parseBody Session.api build execute) where
  get_run s h := Session.run_inbuffer h
  put_run s b h := ⟨_, Session.run_setInbuffer h b, h, rfl⟩
  body_run s package req h := by
    rcases Session.parseBody_cases h package req with ⟨round, -, -, hrun⟩ | ⟨e, hrun⟩
    · exact .inl ⟨_, _, hrun, h, rfl⟩
    · exact .inr ⟨_, _, hrun⟩

theorem serve_ownsBuffer :
    OwnsBuffer (fun _ : Conversation => True) Conversation.recvmessage
      Conversation.getMessage Conversation.setMessage
      (Conversation.serveBody build execute) where
  get_run c _ := rfl
  put_run c b _ := ⟨_, rfl, trivial, rfl⟩
  body_run c package req _ := by
    rcases Conversation.serveBody_cases package req c with ⟨round, -, -, hrun⟩ | ⟨e, hrun⟩
    · exact .inl ⟨_, _, hrun, trivial, rfl⟩
    · exact .inr ⟨_, _, hrun⟩

/-- The loop of `Parse`, given as many rounds as the buffer has bytes and one. -/
def parseDrain (uninit : Request) : Proc Fault Session Request :=
  drain Session.api.inbuffer Session.api.setInbuffer
    (parseBody Session.api build execute) uninit

def serviceDrain (uninit : Request) : Proc Fault Conversation Request :=
  drain Conversation.getMessage Conversation.setMessage
    (Conversation.serveBody build execute) uninit

/--
Loops in which nothing throws: that every package costs the buffer a byte, that
the loop of `Parse` ends and that the loop of `AddService` ends are each the case
exactly when no header the loop meets cancels the length of its own frame.
-/
theorem drain_loops_end_iff (uninit : Request) {s : Session} {c : Conversation}
    (hlive : s.registered = true) (hsame : c.recvmessage = s.conn.inbuffer)
    (hparse : Calm Session.api.inbuffer Session.api.setInbuffer
      (parseBody Session.api build execute) uninit s)
    (hserve : Calm Conversation.getMessage Conversation.setMessage
      (Conversation.serveBody build execute) uninit c) :
    ((∀ b, Meets s.conn.inbuffer b → RemovesAByte b) ↔
      ∀ b, Meets s.conn.inbuffer b → ¬ ZeroTotal b) ∧
    (¬ ((parseDrain build execute uninit).run s).IsBlocked ↔
      ∀ b, Meets s.conn.inbuffer b → ¬ ZeroTotal b) ∧
    (¬ ((serviceDrain build execute uninit).run c).IsBlocked ↔
      ∀ b, Meets s.conn.inbuffer b → ¬ ZeroTotal b) := by
  refine ⟨?_, ?_, ?_⟩
  · exact forall₂_congr fun b _ => removesAByte_iff b
  · exact drain_ends_iff (parse_ownsBuffer build execute) hlive hparse
  · have h := drain_ends_iff (serve_ownsBuffer build execute) trivial hserve
    rw [hsame] at h
    exact h

/-! ## A header of minus six -/

def minusSix : Bytes := text "-6\r\nX"

theorem decode_minusSix : decode minusSix = .ok (text "X", minusSix) := by
  decide

theorem minusSix_calm {σ β : Type} {Good : σ → Prop} {buf : σ → Bytes}
    {get : Proc Fault σ Bytes} {put : Bytes → Proc Fault σ Unit}
    {body : Bytes → β → Proc Fault σ β} (laws : OwnsBuffer Good buf get put body)
    {x : β} (hbody : ∀ s, Good s → ∃ s', (body (text "X") x).run s = .done x s')
    {s : σ} (hs : Good s) (hbuffer : buf s = minusSix) : Calm get put body x s := by
  intro n e s' hraised
  have hblocked : ((Proc.iterate (drainRound get put body) n x).run s).IsBlocked := by
    apply Proc.iterate_blocked_of_cycle
      (I := fun y t => y = x ∧ Good t ∧ buf t = minusSix) ?_ n ⟨rfl, hs, hbuffer⟩
    rintro y t ⟨rfl, ht, hb⟩
    obtain ⟨t₁, hput, ht₁, hbuf₁⟩ := laws.put_run t minusSix ht
    obtain ⟨t', hrun⟩ := hbody t₁ ht₁
    refine ⟨y, t', ?_, rfl, ?_⟩
    · rw [drainRound, Proc.run_bind_done (laws.get_run t ht), hb, decode_minusSix,
        eval_ok, Proc.pure_bind]
      dsimp only
      rw [Proc.run_bind_done hput, if_neg (by decide), Proc.run_bind_done hrun]
      rfl
    · rcases laws.body_run t₁ (text "X") y ht₁ with
        ⟨_, t₂, h, ht₂, hbuf₂⟩ | ⟨e, t₂, h⟩
      · rw [hrun] at h
        cases h
        exact ⟨ht₂, hbuf₂.trans hbuf₁⟩
      · rw [hrun] at h
        cases h
  rw [hraised] at hblocked
  exact hblocked

theorem answer_minusSix :
    ∃ round, round.req = ⟨0, 0, 0⟩ ∧ ∀ {σ : Type} (s : σ),
      (answer .self Calculate.execute (text "X") ⟨0, 0, 0⟩).run s = .done round s := by
  have hrejected : (Request.deSerialize (text "X") .self).run ⟨0, 0, 0⟩ =
      .done false ⟨0, 0, 0⟩ := by
    decide
  refine ⟨⟨text "X", ⟨0, 0, 0⟩, encode (Response.serialize { flag := 3 } .self)⟩, rfl, ?_⟩
  intro σ s
  rw [answer_deSerialized hrejected]
  rfl

theorem parse_minusSix {s : Session} (hlive : s.registered = true)
    (hbuffer : s.conn.inbuffer = minusSix) :
    Calm Session.api.inbuffer Session.api.setInbuffer
      (parseBody Session.api .self Calculate.execute) ⟨0, 0, 0⟩ s := by
  refine minusSix_calm (parse_ownsBuffer .self Calculate.execute) ?_ hlive hbuffer
  intro t ht
  obtain ⟨round, hreq, hanswer⟩ := answer_minusSix
  exact ⟨_, hreq ▸ Session.parseBody_of_answer ht (hanswer t)⟩

theorem serve_minusSix {c : Conversation} (hbuffer : c.recvmessage = minusSix) :
    Calm Conversation.getMessage Conversation.setMessage
      (Conversation.serveBody .self Calculate.execute) ⟨0, 0, 0⟩ c := by
  refine minusSix_calm (serve_ownsBuffer .self Calculate.execute) ?_ trivial hbuffer
  intro t _
  obtain ⟨round, hreq, hanswer⟩ := answer_minusSix
  exact ⟨_, hreq ▸ Conversation.serveBody_of_answer (hanswer t)⟩

def minusSixSession : Session := (Session.opened 5).withInbuffer minusSix

theorem drain_loops_end_iff_minusSix :
    ¬ ∀ b, Meets minusSix b → ¬ ZeroTotal b := by
  have h := drain_loops_end_iff .self Calculate.execute ⟨0, 0, 0⟩
    (s := minusSixSession) (c := { recvmessage := minusSix }) rfl rfl
    (parse_minusSix rfl rfl) (serve_minusSix rfl)
  intro hno
  have hremoves := h.1.mpr hno minusSix (.here _) _ _ decode_minusSix (by decide)
  exact Nat.lt_irrefl _ hremoves

/-- `std::stoi` accepts the header and nothing is thrown; the package costs the
buffer nothing, and no number of rounds is enough. -/
theorem minusSix_never_ends :
    stoi (lenStr minusSix) = .ok (-6) ∧ ¬ RemovesAByte minusSix ∧
      ∀ n, ((Proc.iterate (Session.parseRound .self Calculate.execute) n
        ⟨0, 0, 0⟩).run minusSixSession).IsBlocked := by
  have hkeeps : ¬ RemovesAByte minusSix := fun hremoves =>
    Nat.lt_irrefl _ (hremoves _ _ decode_minusSix (by decide))
  have hzero : ZeroTotal minusSix := by
    by_contra hno
    exact hkeeps ((removesAByte_iff minusSix).mpr hno)
  refine ⟨by decide, hkeeps, fun n => ?_⟩
  exact drain_never_ends (parse_ownsBuffer .self Calculate.execute) rfl
    (parse_minusSix rfl rfl) (.here _) hzero n

end Termination

end LinuxAdvance
