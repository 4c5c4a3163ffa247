import LinuxAdvance.Command.CommandExecute
import LinuxAdvance.Cxx.Vector
import LinuxAdvance.Foundation.Transition

/-!
# One connection: `Service` and its client

The client of `TcpClient.cc` sends a line and prints what one `recv` brings; the
server answers what one `read` brings.  Between them are two streams, which may be
cut anywhere.  `read` may fill the buffer, and the NUL then goes behind it.  That
ends what can be said about a run, and so does a `read` or `write` of the server
that fails: it calls `exit`.
-/

namespace LinuxAdvance.Tcp

open LinuxAdvance.Foundation
open LinuxAdvance.Cxx
open LinuxAdvance.Cxx.Vector
open LinuxAdvance.Command

def buffSize : Nat := 1024

inductive Phase where
  | reading
  | writing (response : Bytes)
  | ended
  deriving DecidableEq, Repr

def Phase.pending : Phase → Bytes
  | writing response => response
  | _ => []

/-- `sent` are the bytes of all lines sent, `shown` what was printed, `up` and
`down` what is on its way to the server and back, and `handled` the texts `buff`
that the server has answered. -/
structure Talk where
  sent : Bytes := []
  waits : Bool := false
  shown : List Bytes := []
  gone : Bool := false
  up : Bytes := []
  down : Bytes := []
  service : Phase := .reading
  handled : List Bytes := []
  deriving DecidableEq, Repr

inductive TalkEvent (ω : Type) where
  | enter (line : Bytes)
  | recv (n : Nat)
  | recvFails
  | hangUp
  | read (n : Nat) (outside : ω)
  | write (n : Nat)
  | eof
  deriving DecidableEq, Repr

namespace Talk

variable {ω : Type}

def enter (s : Talk) (line : Bytes) : Talk :=
  { s with sent := s.sent ++ line, up := s.up ++ line, waits := true }

def recv (s : Talk) (n : Nat) : Talk :=
  { s with
    waits := false
    shown := s.shown ++ [ofCString (s.down.take n)]
    down := s.down.drop n }

def read (answer : Bytes → Bytes) (s : Talk) (n : Nat) : Talk :=
  let buff := ofCString (s.up.take n)
  { s with
    up := s.up.drop n
    service := .writing (answer buff)
    handled := s.handled ++ [buff] }

/-- `read` into `buff`, and `buff[n] = 0` behind what it brought. -/
def readInto (answer : Bytes → Bytes) (s : Talk) (n : Nat) : Except Misuse Talk :=
  if n < buffSize then .ok (s.read answer n) else .error .outOfBounds

def write (s : Talk) (response : Bytes) (n : Nat) : Talk :=
  { s with down := s.down ++ response.take n, service := .reading }

/-- `answer` is what the server makes of the text in `buff`, and `ω` what it looks at
besides.  The client passes `sizeof(buff) - 1` to `recv`, the server `sizeof(buff)`
to `read`. -/
def step (answer : ω → Bytes → Bytes) (s : Talk) : TalkEvent ω → Option Talk
  | .enter line => if s.gone = false ∧ s.waits = false then some (s.enter line) else none
  | .recv n =>
      if s.gone = false ∧ s.waits = true ∧ 0 < n ∧ n ≤ s.down.length ∧ n ≤ buffSize - 1 then
        some (s.recv n)
      else none
  | .recvFails =>
      if s.gone = false ∧ s.waits = true then some { s with waits := false } else none
  | .hangUp => some { s with gone := true }
  | .read n outside =>
      if s.service = .reading ∧ 0 < n ∧ n ≤ s.up.length ∧ n ≤ buffSize then
        match s.readInto (answer outside) n with
        | .ok t => some t
        | .error _ => none
      else none
  | .write n =>
      match s.service with
      | .writing response =>
          if n ≤ response.length then some (s.write response n) else none
      | _ => none
  | .eof =>
      if s.service = .reading ∧ s.gone = true ∧ s.up = [] then
        some { s with service := .ended }
      else none

end Talk

def echoAnswer : Unit → Bytes → Bytes := fun _ buff => buff

/-- `Service` of the command server: `_cb(buff)`; `ω` is what `popen` delivers. -/
def executeAnswer : (Bytes → Option Bytes) → Bytes → Bytes := fun popen buff =>
  (onCommand popen buff).1

namespace Talk

variable {ω : Type}

inductive Takes (answer : ω → Bytes → Bytes) (s : Talk) : TalkEvent ω → Talk → Prop
  | enter {line : Bytes} (hprompt : s.waits = false) :
      Takes answer s (.enter line) (s.enter line)
  | recv {n : Nat} (hwaits : s.waits = true) (hpos : 0 < n) (hle : n ≤ s.down.length) :
      Takes answer s (.recv n) (s.recv n)
  | recvFails (hwaits : s.waits = true) : Takes answer s .recvFails { s with waits := false }
  | hangUp : Takes answer s .hangUp { s with gone := true }
  | read {n : Nat} {outside : ω} (hreading : s.service = .reading) (hpos : 0 < n) (hle : n ≤ s.up.length)
      (hlt : n < buffSize) :
      Takes answer s (.read n outside) (s.read (answer outside) n)
  | write {n : Nat} {response : Bytes} (hwriting : s.service = .writing response)
      (hle : n ≤ response.length) : Takes answer s (.write n) (s.write response n)
  | eof (hreading : s.service = .reading) (hgone : s.gone = true) :
      Takes answer s .eof { s with service := .ended }

theorem readInto_eq_ok {answer : Bytes → Bytes} {s t : Talk} {n : Nat} :
    s.readInto answer n = .ok t ↔ n < buffSize ∧ s.read answer n = t := by
  rw [readInto]
  split
  · next hlt => simp [hlt]
  · next hge => simp [hge]

theorem step_read_eq_some {answer : ω → Bytes → Bytes} {s t : Talk} {n : Nat} {outside : ω} :
    s.step answer (.read n outside) = some t ↔
      (s.service = .reading ∧ 0 < n ∧ n ≤ s.up.length ∧ n < buffSize) ∧
        s.read (answer outside) n = t := by
  simp only [step, Option.ite_none_right_eq_some]
  cases hread : s.readInto (answer outside) n with
  | ok u =>
      obtain ⟨hlt, rfl⟩ := readInto_eq_ok.mp hread
      simp only [Option.some.injEq, hlt, hlt.le]
  | error _ =>
      have hge : ¬ n < buffSize := fun hlt => by simp [readInto, hlt] at hread
      simp [hge]

theorem takes_of_step {answer : ω → Bytes → Bytes} {s t : Talk} {e : TalkEvent ω}
    (h : s.step answer e = some t) : Takes answer s e t := by
  cases e with
  | enter line =>
      simp only [step, Option.ite_none_right_eq_some, Option.some.injEq] at h
      obtain ⟨⟨-, hprompt⟩, rfl⟩ := h
      exact .enter hprompt
  | recv n =>
      simp only [step, Option.ite_none_right_eq_some, Option.some.injEq] at h
      obtain ⟨⟨-, hwaits, hpos, hle, -⟩, rfl⟩ := h
      exact .recv hwaits hpos hle
  | recvFails =>
      simp only [step, Option.ite_none_right_eq_some, Option.some.injEq] at h
      obtain ⟨⟨-, hwaits⟩, rfl⟩ := h
      exact .recvFails hwaits
  | hangUp =>
      simp only [step, Option.some.injEq] at h
      exact h ▸ .hangUp
  | read n outside =>
      obtain ⟨⟨hreading, hpos, hle, hlt⟩, rfl⟩ := step_read_eq_some.mp h
      exact .read hreading hpos hle hlt
  | write n =>
      simp only [step] at h
      split at h
      · next response hwriting =>
          simp only [Option.ite_none_right_eq_some, Option.some.injEq] at h
          obtain ⟨hle, rfl⟩ := h
          exact .write hwriting hle
      · cases h
  | eof =>
      simp only [step, Option.ite_none_right_eq_some, Option.some.injEq] at h
      obtain ⟨⟨hreading, hgone, -⟩, rfl⟩ := h
      exact .eof hreading hgone

end Talk

end LinuxAdvance.Tcp
