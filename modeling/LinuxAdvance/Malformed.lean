import LinuxAdvance.Calculator.Header
import LinuxAdvance.Termination

/-!
# What a malformed header does to the two servers

Neither `Parse` nor `AddService` catches, so an exception of `decode` leaves the
loop and ends the process, together with the other clients' connections.
-/

namespace LinuxAdvance

open LinuxAdvance.Foundation
open LinuxAdvance.Cxx
open LinuxAdvance.Calculator
open LinuxAdvance.Reactor

section Malformed

variable (build : Build) (execute : Request → Except Exn Response)

abbrev serveRound (req : Request) : Proc Fault Conversation (Request ⊕ Request) :=
  drainRound Conversation.getMessage Conversation.setMessage
    (Conversation.serveBody build execute) req

/--
Whatever is in a connection's buffer: the calls of `decode` that the loop of
`Parse` makes on it all return exactly when all the headers it meets are
readable, the same for the loop of `AddService`, and one that does not return
ends the loop with its exception.
-/
theorem decode_calls_return_iff (uninit : Request) (s : Session) (c : Conversation)
    (hlive : s.registered = true) :
    ((∀ req t, Proc.Rounds (Session.parseRound build execute) uninit s req t →
        ∃ r, decode t.conn.inbuffer = .ok r) ↔
      ∀ req t, Proc.Rounds (Session.parseRound build execute) uninit s req t →
        Readable t.conn.inbuffer) ∧
    ((∀ req t, Proc.Rounds (serveRound build execute) uninit c req t →
        ∃ r, decode t.recvmessage = .ok r) ↔
      ∀ req t, Proc.Rounds (serveRound build execute) uninit c req t →
        Readable t.recvmessage) ∧
    (∀ req t, Proc.Rounds (Session.parseRound build execute) uninit s req t →
      ∀ e, decode t.conn.inbuffer = .error e → ∃ n,
        (Proc.iterate (Session.parseRound build execute) n uninit).run s =
          .raised (.exn e) t) ∧
    ∀ req t, Proc.Rounds (serveRound build execute) uninit c req t →
      ∀ e, decode t.recvmessage = .error e → ∃ n,
        (Proc.iterate (serveRound build execute) n uninit).run c = .raised (.exn e) t := by
  refine ⟨?_, ?_, ?_, ?_⟩
  · exact forall₃_congr fun req t _ => decode_returns_iff t.conn.inbuffer
  · exact forall₃_congr fun req t _ => decode_returns_iff t.recvmessage
  · intro req t hrounds e he
    exact call_raises (parse_ownsBuffer build execute) hrounds hlive he
  · intro req t hrounds e he
    exact call_raises (serve_ownsBuffer build execute) hrounds trivial he

def letters : Bytes := text "hello\r\n"

theorem decode_letters : decode letters = .error .invalidArgument := by
  decide

def lettersSession : Session := (Session.opened 5).withInbuffer letters

theorem decode_calls_return_iff_letters :
    ¬ Readable letters ∧
      ∃ n, (Proc.iterate (Session.parseRound .self Calculate.execute) n
        ⟨0, 0, 0⟩).run lettersSession = .raised (.exn .invalidArgument) lettersSession := by
  have h := decode_calls_return_iff .self Calculate.execute ⟨0, 0, 0⟩ lettersSession
    { recvmessage := letters } rfl
  refine ⟨fun hreadable => ?_, h.2.2.1 _ _ (.here _ _) _ decode_letters⟩
  obtain ⟨r, hr⟩ := decode_returns_of_readable hreadable
  rw [decode_letters] at hr
  cases hr

theorem letters_end_both_servers :
    ¬ (∀ (s : Session) (req : Request) (t : Session), s.registered = true →
        Proc.Rounds (Session.parseRound .self Calculate.execute) ⟨0, 0, 0⟩ s req t →
        ∃ r, decode t.conn.inbuffer = .ok r) ∧
      ¬ ∀ (c : Conversation) (req : Request) (t : Conversation),
        Proc.Rounds (serveRound .self Calculate.execute) ⟨0, 0, 0⟩ c req t →
        ∃ r, decode t.recvmessage = .ok r := by
  constructor
  · intro h
    obtain ⟨r, hr⟩ := h lettersSession _ _ rfl (.here _ _)
    have hdecode : decode lettersSession.conn.inbuffer = .error .invalidArgument :=
      decode_letters
    rw [hdecode] at hr
    cases hr
  · intro h
    obtain ⟨r, hr⟩ := h { recvmessage := letters } _ _ (.here _ _)
    rw [decode_letters] at hr
    cases hr

end Malformed

end LinuxAdvance
