import Catchment.Forcing
import Catchment.RunData
import Catchment.Stepper

/-!
# Buckets

A storage unit: fluxes, and one rate per state. The roles of all names follow from the declarations.
A run advances the states over the time axis and then evaluates the fluxes over the trajectory; a
bucket without states evaluates the fluxes alone.
-/
namespace Catchment

structure BucketDraft (K : Type) where
  name : Option String
  fluxes : List (Declaration K)
  rates : List (StateFlux K)
  /-- Whether the fluxes may be put into another order. -/
  sort : Bool

namespace BucketDraft

variable {K : Type} [Scalar K]

def rateAmongFluxes? (d : BucketDraft K) : Option Misconfiguration :=
  d.fluxes.findSome? fun
    | .state f => some (.rateAmongFluxes f.name)
    | _ => none

/-- The fluxes in the order of evaluation. -/
def order (d : BucketDraft K) : Except Fault (List (Declaration K)) :=
  orderItems d.sort "flux" Declaration.item d.fluxes

def states (d : BucketDraft K) : List String := d.rates.map fun r => r.state

/-- The outputs in the order of declaration. -/
def outputs (d : BucketDraft K) : List String := orderedUnion (d.fluxes.map Declaration.outputs)

def signature (d : BucketDraft K) (ordered : List (Declaration K)) : Signature :=
  let default := "bucket_" ++ shortPrint [.names d.outputs, .names d.states,
    .list (ordered.map fun f => .text f.name)]
  .ofDeclarations "Bucket" (nameOr default d.name) d.fluxes d.rates d.outputs

def fault? (d : BucketDraft K) (ordered : List (Declaration K)) : Option Misconfiguration :=
  match repeated? d.states with
  | some s => some (.stateTwice s)
  | none => (d.signature ordered).stateAndOutput?

end BucketDraft

structure Bucket (K : Type) [Scalar K] extends BucketDraft K where
  noRate : toBucketDraft.rateAmongFluxes? = none
  ordered : List (Declaration K)
  order_eq : toBucketDraft.order = .ok ordered
  accepted : toBucketDraft.fault? ordered = none

namespace Bucket

variable {K : Type} [Scalar K]

def ofDraft (d : BucketDraft K) : Except Fault (Bucket K) :=
  match noRate : d.rateAmongFluxes? with
  | some cause => misconfigured cause
  | none =>
    match order_eq : d.order with
    | .error f => .error f
    | .ok ordered =>
      match accepted : d.fault? ordered with
      | some cause => misconfigured cause
      | none => .ok { d with noRate, ordered, order_eq, accepted }

def signature (b : Bucket K) : Signature := b.toBucketDraft.signature b.ordered

/-- The names of the rows that are given to the fluxes: inputs, then states. -/
def rowsRead (b : Bucket K) : List String := b.signature.inputs ++ b.states

def fluxProgram (b : Bucket K) (backend : Backend) : Except Fault (Program K) :=
  Program.compile backend b.ordered b.rowsRead b.outputs

def rateProgram (b : Bucket K) (backend : Backend) : Except Fault (Program K) :=
  Program.compile backend (b.ordered ++ b.rates.map .state) b.rowsRead (b.states.map rateName)

variable {n t : Nat}

/-- The rates of all states at a time, under the forcing at that time. -/
def rate {r s : Nat} (rates : Program K) (forcing : Forcing [r, n] K) (d : RunData n t K) :
    Rate [s, n] K := fun u time => do
  let inputs := forcing.value d.settings.interpolation time
  let values ← rates.run (inputs.rows ++ u.rows) d.nodeBindings d.networkWeights
  return .ofGrid (Grid.stack values)

/-- The rows of the states, advanced with one program, and of the outputs, evaluated over them with
the other. -/
def runStates (fluxes rates : Program K) (d : RunData n t K)
    (rows : List (Grid [n, t] K)) : Except Fault (Outcome n t K) := do
  let forcing ← Forcing.make d.times (timeColumns rows)
  let path ← advance d.settings (rate rates forcing d) (Grid.stack d.initial) d.times
  let states := stateRows d.initial.length t path.columns
  let outputs ← fluxes.run (rows ++ states) d.timeBindings d.networkWeights
  return ⟨states ++ outputs, path.warnings⟩

/-- The result over nodes and times for the rows of the inputs. -/
def run (b : Bucket K) (d : RunData n t K) (rows : List (Grid [n, t] K)) :
    Except Fault (Outcome n t K) := do
  let fluxes ← b.fluxProgram d.settings.backend
  if b.states.isEmpty then
    return ⟨← fluxes.run rows d.timeBindings d.networkWeights, []⟩
  let rates ← b.rateProgram d.settings.backend
  runStates fluxes rates d rows

end Bucket

end Catchment
