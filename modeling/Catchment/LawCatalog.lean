import Catchment.Flux

/-!
# Catalog of laws

Small laws that declarations refer to by name.
-/
namespace Catchment

namespace Tensor

/-- The item at a place along the first axis. -/
def item {α : Type} (t : Tensor α) (i : Nat) : Except Fault (Tensor α) :=
  match t.rows? with
  | some rows => Values.orFault .position rows[i]?
  | none => .error .position

/-- Tensors of one shape along a new first axis. -/
def stack {α : Type} : List (Tensor α) → Except Fault (Tensor α)
  | [] => .error .value
  | t :: ts => do
    let grids ← (t :: ts).mapM fun u => Values.orFault .value (u.asShape? t.shape)
    return .ofGrid (Grid.stack grids)

end Tensor

namespace Law

variable {K : Type} [Scalar K]

/-- The arguments combined from left to right. -/
def combine (op : Binary) : List (Values K) → Except Fault (LawResult K)
  | [] => .error .operand
  | v :: vs => do return .single (← vs.foldlM (Values.binary op) v)

def sum : Law K := ⟨"sum", combine .add⟩

def prod : Law K := ⟨"prod", combine .mul⟩

/-- The first argument less and plus the second. -/
def lohi : Law K := ⟨"lohi", fun
  | [x, k] => do return .several [← Values.binary .sub x k, ← Values.binary .add x k]
  | _ => .error .operand⟩

def twice : Law K := ⟨"twice", fun
  | [x] => do return .several [← Values.binary .add x x]
  | _ => .error .operand⟩

def const3 : Law K := ⟨"const3", fun _ => .ok (.single (.literal (Scalar.ofInt 3)))⟩

/-- Seven ones, whatever the shape of the arguments. -/
def bad7 : Law K :=
  ⟨"bad7", fun _ => .ok (.single (.ofGrid (Grid.replicate Scalar.one : Grid [7] K)))⟩

def fail : Law K := ⟨"fail", fun _ => .error (.divisionByZero "storage formula failed")⟩

def catalog : List (Law K) := [sum, prod, lohi, twice, const3, bad7, fail]

def named? (name : String) : Option (Law K) := catalog.find? fun l => l.name = name

end Law

namespace NetworkLaw

variable {K : Type} [Scalar K]

def combine (f : K → K → K) (a b : Tensor K) : Except Fault (Tensor K) :=
  Values.orFault .value (a.zipWith? f b)

def inputCount (x : Tensor K) : Nat := x.shape.headD 0

/-- The weighted sum of the inputs after the weight that follows theirs. -/
def affine (x weights : Tensor K) : Except Fault (Tensor K) := do
  let start ← weights.item (inputCount x)
  (List.range (inputCount x)).foldlM (fun total i => do
    let term ← combine (· * ·) (← weights.item i) (← x.item i)
    combine (· + ·) total term) start

def linear : NetworkLaw K := ⟨"linear", fun x weights => do Tensor.stack [← affine x weights]⟩

def tanh : NetworkLaw K :=
  ⟨"tanh", fun x weights => do Tensor.stack [(← affine x weights).map Scalar.tanh]⟩

/-- The first input times each of the first two weights. -/
def scale2 : NetworkLaw K := ⟨"scale2", fun x weights => do
  let a ← combine (· * ·) (← x.item 0) (← weights.item 0)
  let b ← combine (· * ·) (← x.item 0) (← weights.item 1)
  Tensor.stack [a, b]⟩

/-- The first input times the first weight, without the axis of outputs. -/
def rank1 : NetworkLaw K :=
  ⟨"rank1", fun x weights => do combine (· * ·) (← x.item 0) (← weights.item 0)⟩

/-- The first input without its last column. -/
def short : NetworkLaw K := ⟨"short", fun x _ => do
  let row ← x.item 0
  let items := row.toList.dropLast
  Tensor.stack [← Values.orFault .value (Tensor.ofList? [items.length] items)]⟩

def fail : NetworkLaw K := ⟨"fail", fun _ _ => .error (.divisionByZero "storage formula failed")⟩

def catalog : List (NetworkLaw K) := [linear, tanh, scale2, rank1, short, fail]

def named? (name : String) : Option (NetworkLaw K) := catalog.find? fun l => l.name = name

end NetworkLaw

end Catchment
