import Catchment.Expr
import Catchment.Fault

/-!
# Cells

A computed number has a format: a flag, an integer of eight bits, half precision, double precision,
or a literal that takes the format of what it meets. An operation joins the formats of its operands,
computes, and stores the result in a format that depends on the formats alone.
-/
namespace Catchment

inductive Format where
  | flag | int8 | half | double | literal
  deriving DecidableEq, Repr

structure Cell (K : Type) where
  format : Format
  value : K
  deriving Repr

namespace Format

/-- The format in which two operands meet. -/
def join : Format → Format → Format
  | literal, half => half
  | half, literal => half
  | literal, _ => double
  | _, literal => double
  | double, _ => double
  | _, double => double
  | half, _ => half
  | _, half => half
  | int8, _ => int8
  | _, int8 => int8
  | flag, flag => flag

/-- A literal that has been computed with is a double. -/
def settle : Format → Format
  | literal => double
  | f => f

def isInteger : Format → Bool
  | flag | int8 => true
  | _ => false

variable {K : Type} [Scalar K]

/-- The number as the format holds it. -/
def store : Format → K → K
  | half, x => Scalar.narrow x
  | int8, x => Scalar.wrap8 x
  | _, x => x

end Format

namespace Unary

variable {K : Type} [Scalar K]

/-- A flag has no negative and no sign; elementary functions of integers are of half precision. -/
def result (op : Unary) (f : Format) : Except Fault Format :=
  match op with
  | not => .ok .flag
  | neg => if f = .flag then .error .operand else .ok f.settle
  | sign => if f = .flag then .error .signOfFlag else .ok f.settle
  | abs => .ok f.settle
  | _ => .ok (if f.isInteger then .half else f.settle)

def compute (op : Unary) (x : K) : K :=
  match op with
  | neg => -x
  | not => Scalar.ofBool (!Scalar.truth x)
  | exp => Scalar.exp x
  | log => Scalar.log x
  | sqrt => Scalar.sqrt x
  | abs => Scalar.abs x
  | sign => Scalar.sign x
  | sin => Scalar.sin x
  | cos => Scalar.cos x
  | tanh => Scalar.tanh x

end Unary

namespace Binary

variable {K : Type} [Scalar K]

/-- Flags have no difference, their quotient is a double and their power an integer. -/
def result (op : Binary) (f g : Format) : Except Fault Format :=
  let c := f.join g
  if op.isComparison || op.isLogic then .ok .flag
  else
    match op with
    | sub => if c = .flag then .error .operand else .ok c
    | div => .ok (if c.isInteger then .double else c)
    | pow => .ok (if c = .flag then .int8 else c)
    | _ => .ok c

/-- An integer has no negative power. -/
def refuses (op : Binary) (c : Format) (y : K) : Bool :=
  op = pow && c.isInteger && Scalar.lt y Scalar.zero

/-- The operation on numbers in their joined format. -/
def compute (op : Binary) (c : Format) (x y : K) : K :=
  match op with
  | add => if c = .flag then Scalar.ofBool (Scalar.truth x || Scalar.truth y) else x + y
  | sub => x - y
  | mul => x * y
  | div => x / y
  | pow => if c.isInteger then Scalar.pow8 x ((Scalar.truncate? y).getD 0).toNat else Scalar.pow x y
  | lt => Scalar.ofBool (Scalar.lt x y)
  | le => Scalar.ofBool (Scalar.le x y)
  | gt => Scalar.ofBool (Scalar.lt y x)
  | ge => Scalar.ofBool (Scalar.le y x)
  | and => Scalar.ofBool (Scalar.truth x && Scalar.truth y)
  | or => Scalar.ofBool (Scalar.truth x || Scalar.truth y)
  | min => Scalar.minimum x y
  | max => Scalar.maximum x y

end Binary

namespace Cell

variable {K : Type} [Scalar K]

def double (x : K) : Cell K := ⟨.double, x⟩

def unary (op : Unary) (a : Cell K) : Except Fault (Cell K) := do
  let r ← op.result a.format
  return ⟨r, r.store (op.compute a.value)⟩

def binary (op : Binary) (a b : Cell K) : Except Fault (Cell K) := do
  let r ← op.result a.format b.format
  let c := a.format.join b.format
  let y := c.store b.value
  if op.refuses c y then throw .value
  return ⟨r, r.store (op.compute c (c.store a.value) y)⟩

def choose (c a b : Cell K) : Cell K :=
  let r := a.format.join b.format
  ⟨r, r.store (if Scalar.truth c.value then a.value else b.value)⟩

end Cell

/-- The value of an expression where every variable and every parameter is one cell. -/
def Expr.evalCell {K : Type} [Scalar K] (vars params : String → Option (Cell K)) :
    Expr K → Except Fault (Cell K)
  | .var name => (vars name).elim (.error .unknownName) .ok
  | .par name => (params name).elim (.error .unknownName) .ok
  | .const value => .ok ⟨.literal, value⟩
  | .unary op a => do Cell.unary op (← a.evalCell vars params)
  | .binary op a b => do
    let a ← a.evalCell vars params
    Cell.binary op a (← b.evalCell vars params)
  | .choose c a b => do
    let c ← c.evalCell vars params
    let a ← a.evalCell vars params
    return c.choose a (← b.evalCell vars params)

end Catchment
