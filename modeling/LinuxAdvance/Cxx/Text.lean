import LinuxAdvance.Foundation.Proc
import LinuxAdvance.Foundation.Search

/-!
# The C++ values the programs work on

A `std::string` is a list of bytes; `int` is `Int32`; `size_t` is a natural
number below `2 ^ 64`, with the conversions between the two written out.
-/

namespace LinuxAdvance.Cxx

open LinuxAdvance.Foundation

abbrev Bytes := List UInt8

def text (s : String) : Bytes := s.toUTF8.data.toList

/-- What an expression can end with other than a value: the exceptions of the
standard library and of jsoncpp, and the arithmetic without a defined result. -/
inductive Exn where
  | invalidArgument
  | outOfRange
  | lengthError
  | jsonLogicError
  | signedOverflow
  | divideTrap
  deriving DecidableEq, Repr

/-- What a call can end with; all but the first two are uses of an object, a
pointer or a descriptor that is not there. -/
inductive Fault where
  | exn (e : Exn)
  | badFunctionCall
  | nullPointer
  | useAfterFree
  | badDescriptor
  deriving DecidableEq, Repr

def eval {σ α : Type} (r : Except Exn α) : Proc Fault σ α :=
  Proc.ofExcept (r.mapError .exn)

@[simp] theorem eval_ok {σ α : Type} (a : α) :
    (eval (.ok a) : Proc Fault σ α) = pure a := rfl

@[simp] theorem eval_error {σ α : Type} (e : Exn) :
    (eval (.error e) : Proc Fault σ α) = Proc.raise (.exn e) := rfl

/-! ## `int` and `size_t` -/

def sizeMod : Nat := 2 ^ 64

def npos : Nat := sizeMod - 1

def sizeOfInt (i : Int32) : Nat := (i.toInt % (sizeMod : Int)).toNat

def intOfSize (n : Nat) : Int32 := Int32.ofNat n

/-- `char` to `int`; `char` is signed. -/
def intOfChar (c : UInt8) : Int32 :=
  if c < 128 then Int32.ofNat c.toNat else Int32.ofInt ((c.toNat : Int) - 256)

/-- `int` to `char`. -/
def charOfInt (i : Int32) : UInt8 := UInt8.ofInt i.toInt

theorem sizeOfInt_lt (i : Int32) : sizeOfInt i < 2 ^ 64 := by
  have hval : (sizeMod : Int) = 2 ^ 64 := by decide
  have hlt := Int.emod_lt_of_pos i.toInt (by decide : (0 : Int) < sizeMod)
  rw [sizeOfInt]
  omega

theorem sizeOfInt_of_nonneg {i : Int32} (h : 0 ≤ i.toInt) :
    sizeOfInt i = i.toInt.toNat := by
  have hlt := i.toInt_lt
  rw [sizeOfInt, Int.emod_eq_of_lt h]
  exact Int.lt_trans hlt (by decide)

theorem sizeOfInt_of_neg {i : Int32} (h : i.toInt < 0) :
    (sizeOfInt i : Int) = 2 ^ 64 + i.toInt := by
  have hle := i.le_toInt
  have hmod : i.toInt % (sizeMod : Int) = 2 ^ 64 + i.toInt := by
    rw [← Int.add_emod_right]
    have hval : (sizeMod : Int) = 2 ^ 64 := by decide
    rw [hval]
    omega
  rw [sizeOfInt, hmod]
  omega

theorem toInt_intOfSize_of_lt {n : Nat} (h : n < 2 ^ 31) :
    (intOfSize n).toInt = n := Int32.toInt_ofNat_of_lt h

theorem sizeOfInt_intOfSize {n : Nat} (h : n < 2 ^ 31) :
    sizeOfInt (intOfSize n) = n := by
  have hto := toInt_intOfSize_of_lt h
  rw [sizeOfInt_of_nonneg (by omega), hto]
  rfl

theorem mod_sizeMod {n : Nat} (h : n < 2 ^ 64) : n % sizeMod = n :=
  Nat.mod_eq_of_lt h

/-! ## `std::string` -/

def find (s pat : Bytes) : Nat := (findSub? pat s).getD npos

def findFrom (s pat : Bytes) (pos : Nat) : Nat :=
  if pos ≤ s.length then
    match findSub? pat (s.drop pos) with
    | some i => pos + i
    | none => npos
  else npos

def rfind (s pat : Bytes) : Nat := (rfindSub? pat s).getD npos

/-- `s.substr(pos, n)`, which throws when `pos` is past the end. -/
def substr (s : Bytes) (pos n : Nat) : Except Exn Bytes :=
  if pos ≤ s.length then .ok ((s.drop pos).take n) else .error .outOfRange

def eraseFront (s : Bytes) (n : Nat) : Bytes := s.drop n

/-- The string a `const char *` converts to: the bytes before the first NUL. -/
def ofCString (s : Bytes) : Bytes := s.takeWhile (· ≠ 0)

theorem ofCString_of_notMem {s : Bytes} (h : (0 : UInt8) ∉ s) :
    ofCString s = s := by
  rw [ofCString, List.takeWhile_eq_self_iff]
  intro b hb
  simpa using fun h0 : b = 0 => h (h0 ▸ hb)

theorem notMem_ofCString (s : Bytes) : (0 : UInt8) ∉ ofCString s := by
  intro h
  have := List.mem_takeWhile_imp h
  simp at this

@[simp] theorem substr_eq_ok_iff {s t : Bytes} {pos n : Nat} :
    substr s pos n = .ok t ↔ pos ≤ s.length ∧ (s.drop pos).take n = t := by
  rw [substr]
  split <;> simp_all

/-- `isspace` of the "C" locale. -/
def isSpace (b : UInt8) : Bool := b = 32 || (9 ≤ b && b ≤ 13)

def isDigit (b : UInt8) : Bool := 48 ≤ b && b ≤ 57

end LinuxAdvance.Cxx
