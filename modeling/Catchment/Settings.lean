import Catchment.Nested
import Catchment.Program
import Catchment.RungeKutta

/-!
# Settings

The settings of one run. Nothing is inferred from the inputs: the solver, the interpolation and the
backend are chosen by name. The integrator is whatever stands behind the names of methods.
-/
namespace Catchment

inductive Solver where
  /-- One step per time point, `state + rate`. -/
  | explicit
  /-- The same recurrence as the iteration of a discrete map. -/
  | discrete
  /-- Adaptive integration of the rate as a derivative. -/
  | adaptive
  deriving DecidableEq, Repr

inductive Interpolation where
  /-- The first sample at or after the time. -/
  | direct
  /-- Piecewise linear, constant outside the samples. -/
  | linear
  deriving DecidableEq, Repr

structure Settings (K : Type) where
  solver : Solver
  interpolation : Interpolation
  /-- The time of each input column; `0, 1, 2, …` if absent. -/
  times : Option (Nested K)
  /-- A lower bound of the states after each fixed step. -/
  minValue : Option K
  /-- The parameter class of each node. -/
  paramIndex : Option (Nested K)
  /-- The class of each node for initial states. -/
  stateIndex : Option (Nested K)
  rtol : K
  atol : K
  method : String
  maxStep : K
  integrator : Integrator K
  backend : Backend

namespace Settings

variable {K : Type} [Scalar K]

def standard : Settings K where
  solver := .explicit
  interpolation := .direct
  times := none
  minValue := none
  paramIndex := none
  stateIndex := none
  rtol := Scalar.ratio 1 1000
  atol := Scalar.ratio 1 1000
  method := "RK45"
  maxStep := Scalar.infinity
  integrator := RungeKutta.integrator
  backend := .elementwise

end Settings

/-- A single setting. -/
inductive Setting (K : Type) where
  | solver (s : Solver)
  | interpolation (i : Interpolation)
  | times (ts : Option (Nested K))
  | minValue (x : Option K)
  | paramIndex (i : Option (Nested K))
  | stateIndex (i : Option (Nested K))
  | rtol (x : K)
  | atol (x : K)
  | method (name : String)
  | maxStep (x : K)
  | backend (b : Backend)

def Setting.apply {K : Type} (s : Settings K) : Setting K → Settings K
  | solver v => { s with solver := v }
  | interpolation v => { s with interpolation := v }
  | times v => { s with times := v }
  | minValue v => { s with minValue := v }
  | paramIndex v => { s with paramIndex := v }
  | stateIndex v => { s with stateIndex := v }
  | rtol v => { s with rtol := v }
  | atol v => { s with atol := v }
  | method v => { s with method := v }
  | maxStep v => { s with maxStep := v }
  | backend v => { s with backend := v }

namespace Settings

variable {K : Type}

/-- The names under which settings are given, in ascending order. -/
def optionNames : List String :=
  ["atol", "backend", "interp", "max_step", "method", "min_value", "param_index", "rtol", "solver",
    "state_index", "timeidx"]

/-- The given names that are no settings, in ascending order. -/
def unknownNames (given : List String) : List String :=
  sortedNames (given.filter (!optionNames.contains ·))

def checkNames (given : List String) : Except Fault Unit :=
  match unknownNames given with
  | [] => .ok ()
  | unknown => misconfigured (.unknownOptions unknown optionNames)

def override (s : Settings K) (changes : List (Setting K)) : Settings K :=
  changes.foldl Setting.apply s

end Settings

end Catchment
