import Catchment.Model

/-!
# Runs

A component runs over an array of shape variables × times, as a single instance, or of shape
variables × nodes × times. A single instance is one node, and its result has no axis of nodes.
-/
namespace Catchment

variable {K : Type} [Scalar K]

/-- The rows of a result by name, and the warnings of the solvers. -/
structure RunResult (K : Type) where
  rows : Tensor K
  warnings : List String

/-- Input rows over nodes and times, and whether they came as a single instance. -/
structure InputRows (K : Type) where
  nodes : Nat
  times : Nat
  rows : List (Grid [nodes, times] K)
  single : Bool

namespace InputRows

def ofTensor? : Tensor K → Option (InputRows K)
  | ⟨[_, t], g⟩ =>
    some ⟨1, t, g.rows.map fun row => row.reshape (u := [1, t]) (by simp), true⟩
  | ⟨[_, n, t], g⟩ => some ⟨n, t, g.rows, false⟩
  | _ => none

end InputRows

/-- The rows stacked, without the axis of nodes for a single instance. -/
def Outcome.toTensor {n t : Nat} (o : Outcome n t K) (single : Bool) : Tensor K :=
  if h : single = true ∧ n = 1 then
    .ofGrid (Grid.stack (o.rows.map fun row => row.reshape (u := [t]) (by simp [h.2])))
  else .ofGrid (Grid.stack o.rows)

namespace Component

/-- Runs a component over an array of inputs. -/
def run (c : Component K) (input : Nested K) (args : RunArguments K) (s : Settings K) :
    Except Fault (RunResult K) := do
  let x ← input.toTensor
  let sig := c.signature
  match InputRows.ofTensor? x with
  | none => mismatched (.inputRank sig.owner x.shape)
  | some given =>
    if given.rows.length != sig.inputs.length then
      mismatched (.inputCount sig.owner sig.inputs given.rows.length)
    else
      let outcome ← c.compute args s given.rows
      return ⟨outcome.toTensor given.single, outcome.warnings⟩

end Component

end Catchment
