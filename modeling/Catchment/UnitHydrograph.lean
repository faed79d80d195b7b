import Catchment.Forcing
import Catchment.Hydrograph
import Catchment.RunData
import Catchment.Stepper

/-!
# Unit hydrograph routing

One row is spread over the following time steps with the weights of each node's lag, either by
convolution or by a buffer of outflow that is already due, advanced by a fixed-step solver.
-/
namespace Catchment

inductive SpreadMethod where
  /-- Direct convolution with the weights. -/
  | sparse
  /-- A buffer that moves by one place per step. -/
  | discrete
  deriving DecidableEq, Repr

namespace SpreadMethod

def name : SpreadMethod → String
  | sparse => "sparse"
  | discrete => "discrete"

def ofName (name : String) : Except Fault SpreadMethod :=
  match name with
  | "sparse" => .ok .sparse
  | "discrete" => .ok .discrete
  | _ => misconfigured (.unknownMethod name)

end SpreadMethod

structure UnitHydrographDraft (K : Type) where
  name : Option String
  input : String
  output : String
  /-- The parameter that holds the lag of each node. -/
  lag : String
  curve : SCurve K
  method : SpreadMethod

namespace UnitHydrographDraft

variable {K : Type} [Scalar K]

def signature (d : UnitHydrographDraft K) : Signature where
  kind := "UnitHydrograph"
  name := nameOr ("uh_" ++ shortPrint [.text d.input, .text d.output, .text d.lag,
    .text d.curve.text, .text d.method.name]) d.name
  inputs := [d.input]
  states := []
  outputs := [d.output]
  params := [d.lag]
  networks := []

end UnitHydrographDraft

structure UnitHydrograph (K : Type) extends UnitHydrographDraft K where
  changesName : input ≠ output

namespace UnitHydrograph

variable {K : Type} [Scalar K]

def ofDraft (d : UnitHydrographDraft K) : Except Fault (UnitHydrograph K) :=
  if changesName : d.input ≠ d.output then .ok { d with changesName }
  else misconfigured (.readsAndWrites d.signature.name d.input)

variable {n t : Nat}

/-- The weights of every node as rows of one width. -/
def weightsFor (c : SCurve K) (lags : Grid [n] K) : Except Fault (WeightGrid n K) := do
  let rows ← lags.toList.mapM c.weights
  if h : rows.length = n then
    if n = 0 then throw .value
    return h ▸ WeightGrid.ofRows rows
  else throw .value

/-- The columns of the inflow that pass in the given time some steps later, each with the weight of
that step. -/
def delayed (w : WeightGrid n K) (q : Grid [n, t] K) (k : Fin w.width) : Grid [n, t - k] K :=
  Grid.ofFn fun (i, m, _) =>
    w.weights.get (i, k, ()) * q.get (i, m.castLE (Nat.sub_le t k), ())

/-- Adds columns to the last ones. -/
def addFrom (total : Grid [n, t] K) (k : Nat) (part : Grid [n, t - k] K) : Grid [n, t] K :=
  Grid.ofFn fun (i, j, _) =>
    if h : k ≤ j then
      total.get (i, j, ()) + part.get (i, ⟨j - k, Nat.sub_lt_sub_right h j.isLt⟩, ())
    else total.get (i, j, ())

/-- The inflow with every weight and the delay of that weight, added from the first weight on. -/
def convolve (w : WeightGrid n K) (q : Grid [n, t] K) : Grid [n, t] K :=
  (List.finRange (min w.width t)).foldl (fun total (k : Fin (min w.width t)) =>
    addFrom total k (delayed w q (k.castLE (Nat.min_le_left _ _)))) (Grid.replicate Scalar.zero)

/-- The first weight times the inflow. -/
def immediate (w : WeightGrid n K) (q : Grid [n, t] K) : Grid [n, t] K :=
  Grid.ofFn fun (i, j, _) =>
    if h : 0 < w.width then w.weights.get (i, ⟨0, h⟩, ()) * q.get (i, j, ()) else Scalar.zero

/-- The change of a buffer in one step: every place takes over what is due one step later, and the
inflow adds its later shares. -/
def bufferRate (w : WeightGrid n K) (inflow : K → Grid [n] K) : Rate [w.width - 1, n] K :=
  fun u time =>
    let q := inflow time
    let due (k : Fin (w.width - 1)) (i : Fin n) : K := u.get (k, i, ())
    let change : Grid [w.width - 1, n] K := Grid.ofFn fun (k, i, _) =>
      let shifted := if h : k.val + 1 < w.width - 1 then due ⟨k + 1, h⟩ i else Scalar.zero
      shifted - due k i + w.weights.get (i, ⟨k + 1, by omega⟩, ()) * q.get (i, ())
    .ok (.ofGrid change)

/-- The outflow by a buffer of pending shares. -/
def buffered (h : UnitHydrograph K) (w : WeightGrid n K) (d : RunData n t K) (q : Grid [n, t] K) :
    Except Fault (Outcome n t K) := do
  if d.settings.solver = .adaptive then misconfigured (.fixedStepOnly h.signature.name)
  else if w.width ≤ 1 then return ⟨[immediate w q], []⟩
  else
    let forcing ← Forcing.make d.times (q.columns (s := [n]))
    let path ← advance d.settings (bufferRate w (forcing.value d.settings.interpolation))
      (Grid.replicate Scalar.zero) d.times
    let due := (stateRows (w.width - 1) t path.columns).headD (Grid.replicate Scalar.zero)
    return ⟨[(immediate w q).zipWith (· + ·) due], path.warnings⟩

/-- The routed row over nodes and times. -/
def run (h : UnitHydrograph K) (d : RunData n t K) (rows : List (Grid [n, t] K)) :
    Except Fault (Outcome n t K) := do
  let q ← Values.orFault .position rows.head?
  let lags ← Values.orFault .unknownName (d.params.lookup h.lag)
  let w ← weightsFor h.curve lags
  match h.method with
  | .sparse => return ⟨[convolve w q], []⟩
  | .discrete => h.buffered w d q

end UnitHydrograph

end Catchment
