import LinuxAdvance.Calculator.Protocol

/-!
# Requests, responses and their two codecs

`SELF` selects a text codec that is written out in `Protocol.hpp`; without it
the objects go through jsoncpp.  jsoncpp is not part of the repository, so what
the code uses of it is a parameter of the build.
-/

namespace LinuxAdvance.Calculator

open LinuxAdvance.Foundation
open LinuxAdvance.Cxx

structure Request where
  x : Int32
  y : Int32
  oper : UInt8
  deriving DecidableEq, Repr

structure Response where
  result : Int32 := 0
  flag : Int32 := 0
  equation : Bytes := text "操作符不符合要求"
  deriving DecidableEq, Repr

/-- `Json::Value`, `FastWriter`, `Reader` and the conversions the code calls;
a conversion without a value throws. -/
structure Jsoncpp where
  Value : Type
  null : Value
  setInt : Value → Bytes → Int32 → Value
  setString : Value → Bytes → Bytes → Value
  write : Value → Bytes
  parse : Bytes → Option Value
  asInt : Value → Bytes → Option Int32
  asString : Value → Bytes → Option Bytes

def jsonMember {α : Type} : Option α → Except Exn α
  | some a => .ok a
  | none => .error .jsonLogicError

inductive Build where
  | self
  | json (lib : Jsoncpp)

namespace Request

def serialize (req : Request) : Build → Bytes
  | .self =>
      intToString req.x.toInt ++ calSep ++ [req.oper] ++ calSep ++
        intToString req.y.toInt
  | .json lib =>
      let root := lib.setInt lib.null (text "x") req.x
      let root := lib.setInt root (text "y") req.y
      let root := lib.setInt root (text "oper") (intOfChar req.oper)
      lib.write root

def deSerialize (input : Bytes) : Build → Proc Fault Request Bool
  | .self => do
      let leftBlankPos := find input calSep
      if leftBlankPos = npos then
        return false
      let xStr ← eval (substr input 0 leftBlankPos)
      if xStr = [] then
        return false
      let rightBlankPos := rfind input calSep
      if rightBlankPos = npos then
        return false
      let yStr ← eval (substr input (rightBlankPos + 1) npos)
      if yStr = [] then
        return false
      if leftBlankPos + 1 + calSep.length ≠ rightBlankPos then
        return false
      let x ← eval (stoi xStr)
      Proc.modify fun req => { req with x }
      let y ← eval (stoi yStr)
      Proc.modify fun req => { req with y }
      let oper := input.getD (rightBlankPos - 1) 0
      Proc.modify fun req => { req with oper }
      return true
  | .json lib => do
      match lib.parse input with
      | none => return false
      | some root =>
          let x ← eval (jsonMember (lib.asInt root (text "x")))
          Proc.modify fun req => { req with x }
          let y ← eval (jsonMember (lib.asInt root (text "y")))
          Proc.modify fun req => { req with y }
          let oper ← eval (jsonMember (lib.asInt root (text "oper")))
          Proc.modify fun req => { req with oper := charOfInt oper }
          return true

end Request

namespace Response

def serialize (resp : Response) : Build → Bytes
  | .self =>
      intToString resp.result.toInt ++ calSep ++ intToString resp.flag.toInt ++
        calSep ++ resp.equation
  | .json lib =>
      let root := lib.setInt lib.null (text "result") resp.result
      let root := lib.setInt root (text "flag") resp.flag
      let root := lib.setString root (text "equation") resp.equation
      lib.write root

def deSerialize (input : Bytes) : Build → Proc Fault Response Bool
  | .self => do
      let leftBlankPos := find input calSep
      if leftBlankPos = npos then
        return false
      let resStr ← eval (substr input 0 leftBlankPos)
      if resStr = [] then
        return false
      let secondBlankPos := findFrom input calSep (leftBlankPos + 1)
      if secondBlankPos = npos then
        return false
      let equation ← eval (substr input (secondBlankPos + 1) npos)
      if equation = [] then
        return false
      if leftBlankPos + 1 + calSep.length ≠ secondBlankPos then
        return false
      let result ← eval (stoi resStr)
      Proc.modify fun resp => { resp with result }
      let flag := intOfChar (input.getD (secondBlankPos - 1) 0) - 48
      Proc.modify fun resp => { resp with flag }
      Proc.modify fun resp => { resp with equation }
      return true
  | .json lib => do
      match lib.parse input with
      | none => return false
      | some root =>
          let result ← eval (jsonMember (lib.asInt root (text "result")))
          Proc.modify fun resp => { resp with result }
          let flag ← eval (jsonMember (lib.asInt root (text "flag")))
          Proc.modify fun resp => { resp with flag }
          let equation ← eval (jsonMember (lib.asString root (text "equation")))
          Proc.modify fun resp => { resp with equation }
          return true

end Response

/-! ## What `deSerialize` does to the object it is called on -/

/-- The input sets every field, whatever the object held before. -/
def Accepted {τ : Type} (p : Proc Fault τ Bool) (value : τ) : Prop :=
  ∀ object, p.run object = .done true value

/-- The input is turned down and the object is left as it was. -/
def Rejected {τ : Type} (p : Proc Fault τ Bool) : Prop :=
  ∀ object, p.run object = .done false object

def Throws {τ : Type} (p : Proc Fault τ Bool) : Prop :=
  ∃ e, ∀ object, ∃ object', p.run object = .raised (.exn e) object'

private theorem Rejected.returns {τ : Type} :
    Rejected (pure false : Proc Fault τ Bool) := fun _ => rfl

theorem Request.deSerialize_cases (input : Bytes) (build : Build) :
    (∃ q, Accepted (Request.deSerialize input build) q) ∨
      Rejected (Request.deSerialize input build) ∨
      Throws (Request.deSerialize input build) := by
  cases build with
  | self =>
      unfold Request.deSerialize
      dsimp only
      split
      · exact .inr (.inl .returns)
      cases substr input 0 (find input calSep) with
      | error e => exact .inr (.inr ⟨e, fun object => ⟨object, rfl⟩⟩)
      | ok xStr =>
          rw [eval_ok, Proc.pure_bind]
          split
          · exact .inr (.inl .returns)
          split
          · exact .inr (.inl .returns)
          cases substr input (rfind input calSep + 1) npos with
          | error e => exact .inr (.inr ⟨e, fun object => ⟨object, rfl⟩⟩)
          | ok yStr =>
              rw [eval_ok, Proc.pure_bind]
              split
              · exact .inr (.inl .returns)
              split
              · exact .inr (.inl .returns)
              cases stoi xStr with
              | error e => exact .inr (.inr ⟨e, fun object => ⟨object, rfl⟩⟩)
              | ok x =>
                  cases stoi yStr with
                  | error e =>
                      exact .inr (.inr ⟨e, fun object => ⟨{ object with x }, rfl⟩⟩)
                  | ok y => exact .inl ⟨⟨x, y, _⟩, fun object => rfl⟩
  | json lib =>
      unfold Request.deSerialize
      dsimp only
      cases lib.parse input with
      | none => exact .inr (.inl .returns)
      | some root =>
          dsimp only
          cases jsonMember (lib.asInt root (text "x")) with
          | error e => exact .inr (.inr ⟨e, fun object => ⟨object, rfl⟩⟩)
          | ok x =>
              cases jsonMember (lib.asInt root (text "y")) with
              | error e =>
                  exact .inr (.inr ⟨e, fun object => ⟨{ object with x }, rfl⟩⟩)
              | ok y =>
                  cases jsonMember (lib.asInt root (text "oper")) with
                  | error e =>
                      exact .inr (.inr
                        ⟨e, fun object => ⟨{ object with x, y }, rfl⟩⟩)
                  | ok oper => exact .inl ⟨⟨x, y, _⟩, fun object => rfl⟩

/-- One object is enough to see what an input does to all. -/
theorem Request.accepted_of_run {input : Bytes} {build : Build} {q : Request}
    (object : Request)
    (h : (Request.deSerialize input build).run object = .done true q) :
    Accepted (Request.deSerialize input build) q := by
  rcases Request.deSerialize_cases input build with ⟨q', h'⟩ | h' | ⟨e, h'⟩
  · rw [h' object] at h
    cases h
    exact h'
  · rw [h' object] at h
    cases h
  · obtain ⟨object', h'⟩ := h' object
    rw [h'] at h
    cases h

end LinuxAdvance.Calculator
