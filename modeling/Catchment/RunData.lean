import Catchment.NodeValues
import Catchment.Program
import Catchment.Settings
import Catchment.Signature

/-!
# Data of a run

A run covers a number of nodes and of times. Its arguments are given by name and checked against a
signature before anything is computed: the time axis first, then parameters, network weights and
initial states.
-/
namespace Catchment

variable {K : Type} [Scalar K]

/-- The arguments of a run as they are given: parameters and weights, and initial states. -/
structure RunArguments (K : Type) where
  params : List (String × Nested K)
  states : List (String × Nested K)

/-- Checked arguments over `n` nodes and `t` times. -/
structure RunData (n t : Nat) (K : Type) where
  times : List K
  times_length : times.length = t
  params : List (String × Grid [n] K)
  weights : List (String × Tensor K)
  initial : List (Grid [n] K)
  settings : Settings K

/-- The rows of a result over nodes and times, and the warnings of the solvers. -/
structure Outcome (n t : Nat) (K : Type) where
  rows : List (Grid [n, t] K)
  warnings : List String

/-- The times that are set, or `0, 1, 2, …`. -/
def Settings.timesFor (s : Settings K) (t : Nat) :
    Except Fault { times : List K // times.length = t } :=
  match s.times with
  | none => .ok ⟨(List.range t).map fun (i : Nat) => Scalar.ofInt i, by simp⟩
  | some given => do
    let ts ← given.toTensor
    if ts.shape.length = 1 then
      if h : ts.toList.length = t then return ⟨ts.toList, h⟩
    mismatched (.timeCount ts.size t)

/-- The first parameter, or else the first network, of a signature without a value. -/
def RunArguments.missing? (args : RunArguments K) (sig : Signature) : Option Misconfiguration :=
  let absent (name : String) : Bool := (args.params.lookup name).isNone
  match sig.params.find? absent with
  | some p => some (.missingParameter p [])
  | none => (sig.networks.find? absent).map .missingWeights

namespace RunData

def nodeRow (n : Nat) (items : List K) : Except Fault (Grid [n] K) :=
  Values.orFault .value (Grid.ofList? [n] items)

def weightsFor (args : RunArguments K) (networks : List String) :
    Except Fault (List (String × Tensor K)) :=
  networks.mapM fun w => do
    match args.params.lookup w with
    | none => misconfigured (.missingWeights w)
    | some given => return (w, ← given.toTensor)

/-- Checks arguments against a signature. -/
def prepare (sig : Signature) (n t : Nat) (args : RunArguments K) (settings : Settings K) :
    Except Fault (RunData n t K) := do
  let times ← settings.timesFor t
  let params ← expandParams args.params sig.params (some n) settings.paramIndex
  let params ← params.mapM fun p => do return (p.1, ← nodeRow n p.2.toList)
  let weights ← weightsFor args sig.networks
  let initial ← expandStates args.states sig.states n settings.stateIndex
  let initial ← initial.mapM (nodeRow n)
  return { times := times.val, times_length := times.property, params, weights, initial, settings }

variable {n t : Nat}

/-- The parameters of the nodes at one time. -/
def nodeBindings (d : RunData n t K) : Bindings K :=
  d.params.map fun p => (p.1, .ofGrid p.2)

/-- The parameters of the nodes, to be repeated over the times. -/
def timeBindings (d : RunData n t K) : Bindings K :=
  d.params.map fun p => (p.1, .ofGrid (p.2.reshape (u := [n, 1]) (by simp)))

def networkWeights (d : RunData n t K) : Weights K :=
  d.weights.map fun w => (w.1, .tensor w.2)

end RunData

/-- The columns over time of some rows. -/
def timeColumns {n t : Nat} (rows : List (Grid [n, t] K)) : List (Grid [rows.length, n] K) :=
  List.ofFn fun j : Fin t => Grid.ofFn fun (k, i, _) => rows[k].get (i, j, ())

/-- The rows over time of the states in some columns. -/
def stateRows {n : Nat} (states t : Nat) (columns : List (Grid [states, n] K)) :
    List (Grid [n, t] K) :=
  let table := columns.toArray
  List.ofFn fun k : Fin states => Grid.ofFn fun (i, j, _) =>
    (table[(j : Nat)]?.map fun u => u.get (k, i, ())).getD Scalar.nan

end Catchment
