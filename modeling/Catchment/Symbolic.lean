import Catchment.Expr

/-!
# Symbolic semantics

The formulas of one column of numbers: comparisons and logic give 0 or 1, a missing operand of a
minimum or maximum is ignored. The derivative in a parameter is carried beside the value; a part
that does not depend on the parameter has no slope, which differs from a slope that is zero.
-/
namespace Catchment

structure Dual (K : Type) where
  value : K
  slope : Option K

namespace Dual

variable {K : Type} [Scalar K]

def constant (x : K) : Dual K := ⟨x, none⟩

/-- The slope of a function of one operand from its derivative. -/
def chain (derivative : K) (a : Dual K) : Option K := a.slope.map (derivative * ·)

/-- The slope of a sum of two terms, either of which may be absent. -/
def total : Option K → Option K → Option K
  | some x, some y => some (x + y)
  | some x, none => some x
  | none, t => t

end Dual

namespace Unary

variable {K : Type} [Scalar K]

def symbolic (op : Unary) (x : K) : K :=
  match op with
  | neg => -x
  | not => Scalar.ofBool (!Scalar.truth x)
  | exp => Scalar.exp x
  | log => Scalar.log x
  | sqrt => Scalar.sqrt x
  | abs => Scalar.abs x
  | sign => Scalar.sign x
  | sin => Scalar.sin x
  | cos => Scalar.cos x
  | tanh => Scalar.tanh x

/-- Signs and logic are flat. -/
def slope (op : Unary) (a : Dual K) : Option K :=
  let x := a.value
  match op with
  | neg => a.slope.map (-·)
  | not | sign => none
  | exp => a.chain (Scalar.exp x)
  | log => a.slope.map (· / x)
  | sqrt => a.slope.map (· / (Scalar.sqrt x + Scalar.sqrt x))
  | abs => a.chain (Scalar.sign x)
  | sin => a.chain (Scalar.cos x)
  | cos => a.chain (-Scalar.sin x)
  | tanh => a.chain (Scalar.one - Scalar.tanh x * Scalar.tanh x)

end Unary

namespace Binary

variable {K : Type} [Scalar K]

def symbolic (op : Binary) (x y : K) : K :=
  match op with
  | add => x + y
  | sub => x - y
  | mul => x * y
  | div => x / y
  | pow => Scalar.pow x y
  | lt => Scalar.ofBool (Scalar.lt x y)
  | le => Scalar.ofBool (Scalar.le x y)
  | gt => Scalar.ofBool (Scalar.lt y x)
  | ge => Scalar.ofBool (Scalar.le y x)
  | and => Scalar.ofBool (Scalar.truth x && Scalar.truth y)
  | or => Scalar.ofBool (Scalar.truth x || Scalar.truth y)
  | min => Scalar.leastOf x y
  | max => Scalar.greatestOf x y

/-- A minimum or maximum has the slope of the operand it takes, the first on a tie. -/
def slope (op : Binary) (a b : Dual K) : Option K :=
  let x := a.value
  let y := b.value
  match op with
  | add => Dual.total a.slope b.slope
  | sub => Dual.total a.slope (b.slope.map (-·))
  | mul => Dual.total (a.slope.map (· * y)) (b.slope.map (x * ·))
  | div => Dual.total (a.slope.map (· / y)) (b.slope.map fun d => -(x / y * d / y))
  | pow =>
    Dual.total (a.slope.map fun d => y * Scalar.pow x (y - Scalar.one) * d)
      (b.slope.map fun d => Scalar.log x * Scalar.pow x y * d)
  | min => if Scalar.le x y then a.slope else b.slope
  | max => if Scalar.le y x then a.slope else b.slope
  | _ => none

end Binary

namespace Expr

variable {K : Type} [Scalar K]

/-- The value over one column. -/
def symbolic (vars params : String → K) : Expr K → K
  | var name => vars name
  | par name => params name
  | const value => value
  | unary op a => op.symbolic (a.symbolic vars params)
  | binary op a b => op.symbolic (a.symbolic vars params) (b.symbolic vars params)
  | choose c a b =>
    if Scalar.truth (c.symbolic vars params) then a.symbolic vars params
    else b.symbolic vars params

/-- The value and the slope over one column. -/
def dual (vars params : String → Dual K) : Expr K → Dual K
  | var name => vars name
  | par name => params name
  | const value => .constant value
  | unary op a =>
    let a := a.dual vars params
    ⟨op.symbolic a.value, op.slope a⟩
  | binary op a b =>
    let a := a.dual vars params
    let b := b.dual vars params
    ⟨op.symbolic a.value b.value, op.slope a b⟩
  | choose c a b =>
    if Scalar.truth (c.dual vars params).value then a.dual vars params else b.dual vars params

end Expr

end Catchment
