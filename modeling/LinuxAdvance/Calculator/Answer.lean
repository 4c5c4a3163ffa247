import LinuxAdvance.Calculator.Message

/-!
# One package answered

`PackageParse::Parse` and `Service::AddService` have these steps in common:
`DeSerialize` on a `Request` that outlives the round and whose result is not
looked at, `Execute`, `Serialize`, `Encode`.
-/

namespace LinuxAdvance.Calculator

open LinuxAdvance.Foundation
open LinuxAdvance.Cxx

structure Round where
  package : Bytes
  req : Request
  frame : Bytes
  deriving DecidableEq, Repr

section Answer

variable {σ : Type} (build : Build) (execute : Request → Except Exn Response)

def answer (package : Bytes) (req : Request) : Proc Fault σ Round := do
  let (_, req) ← Proc.onLocal (Request.deSerialize package build) req
  let resp ← eval (execute req)
  return { package, req, frame := encode (resp.serialize build) }

structure Answers (round : Round) : Prop where
  deSerialized : ∃ object verdict,
    (Request.deSerialize round.package build).run object =
      .done verdict round.req
  framed : ∃ resp, execute round.req = .ok resp ∧
    round.frame = encode (resp.serialize build)

/-- A round as a connection can have it: its package came from a C string, and
was cut out with a `size_t` length. -/
structure Answered (round : Round) : Prop where
  answers : Answers build execute round
  nonempty : round.package ≠ []
  nulFree : (0 : UInt8) ∉ round.package
  fits : round.package.length < 2 ^ 64

variable {build execute}

theorem answer_deSerialized {package : Bytes} {req object : Request}
    {verdict : Bool}
    (h : (Request.deSerialize package build).run req = .done verdict object)
    (s : σ) :
    (answer build execute package req).run s =
      (eval (execute object) >>= fun resp =>
        pure ⟨package, object, encode (resp.serialize build)⟩).run s := by
  unfold answer
  rw [Proc.run_bind_done (Proc.run_onLocal_done h s)]

theorem answer_accepted {package : Bytes} {q : Request} {resp : Response}
    (haccepted : Accepted (Request.deSerialize package build) q)
    (hexecute : execute q = .ok resp) (req : Request) (s : σ) :
    (answer build execute package req).run s =
      .done ⟨package, q, encode (resp.serialize build)⟩ s := by
  rw [answer_deSerialized (haccepted req), hexecute]
  rfl

theorem answer_cases (package : Bytes) (req : Request) (s : σ) :
    (∃ round, (answer build execute package req).run s = .done round s ∧
      Answers build execute round ∧ round.package = package) ∨
    ∃ e, (answer build execute package req).run s = .raised (.exn e) s := by
  have returned : ∀ object verdict,
      (Request.deSerialize package build).run req = .done verdict object →
      (∃ round, (answer build execute package req).run s = .done round s ∧
        Answers build execute round ∧ round.package = package) ∨
      ∃ e, (answer build execute package req).run s = .raised (.exn e) s := by
    intro object verdict h
    rw [answer_deSerialized h]
    cases hexecute : execute object with
    | error e => exact .inr ⟨e, rfl⟩
    | ok resp =>
        have hanswers : Answers build execute
            ⟨package, object, encode (resp.serialize build)⟩ :=
          ⟨⟨req, verdict, h⟩, ⟨resp, hexecute, rfl⟩⟩
        exact .inl ⟨_, rfl, hanswers, rfl⟩
  rcases Request.deSerialize_cases package build with ⟨q, h⟩ | h | ⟨e, h⟩
  · exact returned q true (h req)
  · exact returned req false (h req)
  · obtain ⟨object, h⟩ := h req
    refine .inr ⟨e, ?_⟩
    unfold answer
    rw [Proc.run_bind, Proc.onLocal, h]

end Answer

end LinuxAdvance.Calculator
