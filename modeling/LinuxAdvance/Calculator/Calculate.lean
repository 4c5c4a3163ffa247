import LinuxAdvance.Calculator.Message

/-!
# `Calculate::Execute`

A result outside the range of `int` has no defined value in C++, and dividing
the least `int` by minus one traps; both end the call with a fault.
-/

namespace LinuxAdvance.Calculator

open LinuxAdvance.Cxx

namespace Calculate

def inIntRange (v : Int) : Bool := -2 ^ 31 ≤ v && v < 2 ^ 31

/-- A signed `+`, `-` or `*` whose exact value is `v`. -/
def checked (v : Int) : Except Exn Int32 :=
  if inIntRange v then .ok (Int32.ofInt v) else .error .signedOverflow

/-- `x / y` and `x % y` for `y` other than zero; the machine divides once for
either of them. -/
def divide (x y : Int) (value : Int) : Except Exn Int32 :=
  if inIntRange (x.tdiv y) then .ok (Int32.ofInt value) else .error .divideTrap

def equationOf (req : Request) (result : Int32) : Bytes :=
  intToString req.x.toInt ++ text " " ++ [req.oper] ++ text " " ++
    intToString req.y.toInt ++ text " = " ++ intToString result.toInt

def execute (req : Request) : Except Exn Response := do
  let x := req.x.toInt
  let y := req.y.toInt
  if req.oper = 43 then -- '+'
    let result ← checked (x + y)
    return { result, equation := equationOf req result }
  else if req.oper = 45 then -- '-'
    let result ← checked (x - y)
    return { result, equation := equationOf req result }
  else if req.oper = 42 then -- '*'
    let result ← checked (x * y)
    return { result, equation := equationOf req result }
  else if req.oper = 47 then -- '/'
    if y = 0 then
      return { flag := 1, equation := text "除0错误" }
    else
      let result ← divide x y (x.tdiv y)
      return { result, equation := equationOf req result }
  else if req.oper = 37 then -- '%'
    if y = 0 then
      return { flag := 2, equation := text "模0错误" }
    else
      let result ← divide x y (x.tmod y)
      return { result, equation := equationOf req result }
  else
    return { flag := 3 }

end Calculate

end LinuxAdvance.Calculator
