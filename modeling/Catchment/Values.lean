import Catchment.Cell
import Catchment.Grid

/-!
# Values

A value is a tensor of numbers of one format. Expressions are evaluated cell by cell over values
that are repeated to a common shape.
-/
namespace Catchment

structure Values (K : Type) where
  format : Format
  tensor : Tensor K

/-- What a name stands for; the first entry of a name counts. -/
abbrev Bindings (K : Type) := List (String × Values K)

namespace Values

variable {K : Type} [Scalar K]

def ofTensor (t : Tensor K) : Values K := ⟨.double, t⟩

def ofGrid {s : Shape} (g : Grid s K) : Values K := ofTensor (.ofGrid g)

def literal (x : K) : Values K := ⟨.literal, .single x⟩

def unary (op : Unary) (a : Values K) : Except Fault (Values K) := do
  let r ← op.result a.format
  return ⟨r, a.tensor.map fun x => r.store (op.compute x)⟩

def orFault {α : Type} (f : Fault) : Option α → Except Fault α
  | some x => .ok x
  | none => .error f

def binary (op : Binary) (a b : Values K) : Except Fault (Values K) := do
  let r ← op.result a.format b.format
  let c := a.format.join b.format
  let pairs ← orFault .value
    (a.tensor.zipWith? (fun x y => (c.store x, c.store y)) b.tensor)
  if pairs.toList.any fun p => op.refuses c p.2 then throw .value
  return ⟨r, pairs.map fun p => r.store (op.compute c p.1 p.2)⟩

/-- All three are computed, then one is taken at each position. -/
def choose (c a b : Values K) : Except Fault (Values K) := do
  let r := a.format.join b.format
  let branches ← orFault .value (a.tensor.zipWith? Prod.mk b.tensor)
  let picked ← orFault .value
    (c.tensor.zipWith? (fun x p => if Scalar.truth x then p.1 else p.2) branches)
  return ⟨r, picked.map r.store⟩

end Values

/-- The value of an expression over named values. -/
def Expr.eval {K : Type} [Scalar K] (vars params : Bindings K) : Expr K → Except Fault (Values K)
  | .var name => Values.orFault .unknownName (vars.lookup name)
  | .par name => Values.orFault .unknownName (params.lookup name)
  | .const value => .ok (.literal value)
  | .unary op a => do Values.unary op (← a.eval vars params)
  | .binary op a b => do
    let a ← a.eval vars params
    Values.binary op a (← b.eval vars params)
  | .choose c a b => do
    let c ← c.eval vars params
    let a ← a.eval vars params
    Values.choose c a (← b.eval vars params)

end Catchment
