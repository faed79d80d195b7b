import Catchment.Settings

/-!
# Steppers

A state of any shape is advanced over time points by the solver that a run's settings choose. The
fixed-step solvers add its rate, then raise the state to a lower bound if there is one: the explicit
solver marches along the time points, the discrete solver iterates a map of the state. Both keep the
initial state as the first column, and both stop at the first fault of the rate. The adaptive solver
hands the state to an integrator, flattened, and misses everything when that fails.
-/
namespace Catchment

/-- States of one shape over time, the initial one first, and the warnings of the solver. -/
structure Trajectory (s : Shape) (K : Type) where
  columns : List (Grid s K)
  warnings : List String

variable {K : Type} [Scalar K] {s : Shape}

/-- The rate of a state at a time, of any shape. -/
abbrev Rate (s : Shape) (K : Type) := Grid s K → K → Except Fault (Tensor K)

/-- The rate, if it has the shape of the state. -/
def checkedRate (rate : Rate s K) (u : Grid s K) (t : K) : Except Fault (Grid s K) := do
  let r ← rate u t
  match r.asShape? s with
  | some g => return g
  | none => mismatched (.rate r.shape s)

/-- The state raised to a lower bound. -/
def raise (minValue : Option K) (u : Grid s K) : Grid s K :=
  match minValue with
  | none => u
  | some m => u.map fun x => Scalar.maximum x m

/-- One step: the state plus its rate, raised to the lower bound. -/
def advanceOnce (minValue : Option K) (rate : Rate s K) (u : Grid s K) (t : K) :
    Except Fault (Grid s K) := do
  let r ← checkedRate rate u t
  return raise minValue (u.zipWith (· + ·) r)

/-- The states at the time points, each from the one before. -/
def marchExplicit (minValue : Option K) (rate : Rate s K) (u : Grid s K) :
    List K → Except Fault (List (Grid s K))
  | [] => .ok []
  | [_] => .ok [u]
  | t :: next :: rest => do
    let v ← advanceOnce minValue rate u t
    return u :: (← marchExplicit minValue rate v (next :: rest))

/-- The states of a map iterated over all times but the last. -/
def iterateMap (map : Grid s K → K → Except Fault (Grid s K)) (u : Grid s K) (times : List K) :
    Except Fault (List (Grid s K)) := do
  let (_, states) ← times.dropLast.foldlM (fun (state : Grid s K × List (Grid s K)) t => do
    let v ← map state.1 t
    return (v, v :: state.2)) (u, [u])
  return states.reverse

def iterateDiscrete (minValue : Option K) (rate : Rate s K) (u : Grid s K) (times : List K) :
    Except Fault (List (Grid s K)) :=
  if times.isEmpty then .ok []
  else iterateMap (fun u t => do
    let r ← checkedRate rate u t
    let v := u.zipWith (· + ·) r
    match minValue with
    | none => return v
    | some m => return v.map fun x => Scalar.maximum x m) u times

/-- The items of a grid along one axis. -/
def Grid.flat (g : Grid s K) : Grid [s.size] K := g.reshape s.size_flat

/-- The grid of items along one axis. -/
def Grid.unflat (g : Grid [s.size] K) : Grid s K := g.reshape (by simp)

/-- The rate of flat states, as an integrator asks for it. -/
def flatRate (rate : Rate s K) (t : K) (y : Grid [s.size] K) :
    Except Fault (Grid [s.size] K) := do
  return (← checkedRate rate y.unflat t).flat

/-- The warning of an integration that came to nothing. -/
def failureWarning (reason : String) : String :=
  "Solver failed: " ++ reason ++ "; returning NaN trajectory"

/-- What an integrator is asked for between the first and the last of some times. -/
def Settings.request (settings : Settings K) (x0 : Grid s K) (first : K) (rest : List K) :
    Request s.size K where
  first
  last := rest.getLastD first
  initial := x0.flat
  times := first :: rest
  rtol := settings.rtol
  atol := settings.atol
  maxStep := settings.maxStep

/-- The states at the times, or a warning and missing values when the integration fails. -/
def integrate (settings : Settings K) (rate : Rate s K) (x0 : Grid s K) (times : List K) :
    Except Fault (Trajectory s K) :=
  match times with
  | [] => .ok ⟨[], []⟩
  | [_] => .ok ⟨[x0], []⟩
  | first :: rest => do
    let found ← (settings.integrator.solve settings.method
      (settings.request x0 first rest)).answer (flatRate rate)
    if found.status != 0 || found.columns.length != times.length then
      return ⟨times.map fun _ => Grid.replicate Scalar.nan, [failureWarning found.message]⟩
    return ⟨found.columns.map Grid.unflat, []⟩

/-- The states at the time points under the chosen solver. -/
def advance (settings : Settings K) (rate : Rate s K) (x0 : Grid s K) (times : List K) :
    Except Fault (Trajectory s K) :=
  match settings.solver with
  | .explicit => do return ⟨← marchExplicit settings.minValue rate x0 times, []⟩
  | .discrete => do return ⟨← iterateDiscrete settings.minValue rate x0 times, []⟩
  | .adaptive => integrate settings rate x0 times

end Catchment
