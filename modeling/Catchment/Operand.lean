import Catchment.Expr
import Catchment.Fault

/-!
# Operands

Formulas are written with expressions and plain values side by side. A number or a flag becomes a
constant; anything else is refused. A comparison with a plain number on the left exchanges its
operands. Leaves are written as names between commas and white space, which is the Unicode property
together with the four information separators.
-/
namespace Catchment

inductive Operand (K : Type) where
  | expr (e : Expr K)
  | real (x : K)
  | integer (n : Int)
  | flag (b : Bool)
  /-- A number that is an array without axes. -/
  | scalar (x : K)
  | text (s : String)
  | missing

def blankRanges : List (Nat × Nat) :=
  [(0x09, 0x0D), (0x1C, 0x20), (0x85, 0x85), (0xA0, 0xA0), (0x1680, 0x1680), (0x2000, 0x200A),
    (0x2028, 0x2029), (0x202F, 0x202F), (0x205F, 0x205F), (0x3000, 0x3000)]

def isBlank (c : Char) : Bool := blankRanges.any fun r => r.1 ≤ c.toNat && c.toNat ≤ r.2

/-- The maximal runs of characters that do not separate. -/
def wordsOf (separates : Char → Bool) : List Char → List (List Char)
  | [] => []
  | c :: cs =>
    if separates c then wordsOf separates cs
    else
      match cs with
      | [] => [[c]]
      | d :: _ =>
        if separates d then [c] :: wordsOf separates cs
        else
          match wordsOf separates cs with
          | [] => [[c]]
          | w :: ws => (c :: w) :: ws

/-- A comma separates names as a blank does. -/
def splitNames (s : String) : List String :=
  (wordsOf (fun c => c = ',' || isBlank c) s.toList).map String.ofList

namespace Operand

variable {K : Type} [Scalar K]

/-- An integer as a number, if it is not beyond the largest one. -/
def numberOf (n : Int) : Except Fault K :=
  let x : K := Scalar.ofInt n
  if Scalar.eq (Scalar.abs x) Scalar.infinity then .error .overflow else .ok x

def toExpr : Operand K → Except Fault (Expr K)
  | expr e => .ok e
  | real x | scalar x => .ok (.const x)
  | integer n => do return .const (← numberOf n)
  | flag b => .ok (.const (Scalar.ofBool b))
  | text _ => .error (.notExpression "str")
  | missing => .error (.notExpression "NoneType")

def unary (op : Unary) (a : Operand K) : Except Fault (Expr K) := do
  return .unary op (← a.toExpr)

/-- An operation written between its operands. -/
def between (op : Binary) : Operand K → Operand K → Except Fault (Expr K)
  | expr a, b => do return .binary op a (← b.toExpr)
  | scalar x, expr b =>
    if op.isLogic then .error .operand
    else if op.isComparison then
      .error (.noTruthValue (Expr.text (.binary op.exchanged b (.const x))))
    else .ok (.binary op (.const x) b)
  | a, expr b =>
    if op.isLogic then .error .operand
    else do
      let a ← a.toExpr
      return if op.isComparison then .binary op.exchanged b a else .binary op a b
  | a, b => do
    let a ← a.toExpr
    return .binary op a (← b.toExpr)

/-- An operation written as a call. -/
def call (op : Binary) (a b : Operand K) : Except Fault (Expr K) := do
  let a ← a.toExpr
  return .binary op a (← b.toExpr)

/-- The number limited to `lo` from below and then to `hi` from above. -/
def clamp (x lo hi : Operand K) : Except Fault (Expr K) := do
  call .min (.expr (← call .max x lo)) hi

def choose (c : Expr K) (a b : Operand K) : Except Fault (Expr K) := do
  let a ← a.toExpr
  return .choose c a (← b.toExpr)

/-- The smooth step `(tanh (5 x) + 1) / 2`. -/
def step (x : Operand K) : Except Fault (Expr K) := do
  let five : Expr K := .const (Scalar.ofInt 5)
  return .binary .mul
    (.binary .add (.unary .tanh (.binary .mul five (← x.toExpr))) (.const Scalar.one))
    (.const (Scalar.ratio 1 2))

/-- The value of a plain number; expressions and other values have none. -/
def number : Operand K → Except Fault K
  | real x | scalar x => .ok x
  | integer n => numberOf n
  | flag b => .ok (Scalar.ofBool b)
  | _ => .error .operand

def integer? : Operand K → Option Int
  | integer n => some n
  | flag b => some (if b then 1 else 0)
  | _ => none

/-- The product of two plain numbers, exact if both are integers. -/
def product (a b : Operand K) : Except Fault K :=
  match a.integer?, b.integer? with
  | some m, some n => numberOf (m * n)
  | _, _ => do
    let x ← a.number
    return x * (← b.number)

/-- Close to 1 while `S` is below `r e Smax` and close to 0 above it, over a width of `r Smax`. -/
def logistic (S Smax r e : Operand K) : Except Fault (Expr K) := do
  let S ← S.toExpr
  let Smax ← Smax.toExpr
  let threshold : Expr K := .binary .mul (.const (← product r e)) Smax
  let width : Expr K := .binary .mul (.const (← r.number)) Smax
  let one : Expr K := .const Scalar.one
  return .binary .div one
    (.binary .add one (.unary .exp (.binary .div (.binary .sub S threshold) width)))

/-- The leaves that a line of names declares. -/
def leaves (leaf : String → Expr K) (names : String) : Except Fault (List (Expr K)) :=
  match splitNames names with
  | [] => .error .noNames
  | parts => .ok (parts.map leaf)

end Operand

end Catchment
