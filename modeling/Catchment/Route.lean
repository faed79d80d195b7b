import Catchment.Forcing
import Catchment.RunData
import Catchment.Stepper
import Catchment.Topology

/-!
# Routes

A storage unit on every node of a drainage network. At each time the local fluxes of all nodes are
computed first, then the outflows are gathered into the inflows of the nodes downstream, then the
rates are computed from all of them. Inflow and outflow belong to the same time.
-/
namespace Catchment

structure RouteDraft (K : Type) where
  name : Option String
  fluxes : List (Declaration K)
  rates : List (StateFlux K)
  topology : Topology
  /-- The flux output that is passed downstream. -/
  outflow : String
  /-- The name of the sum that arrives from the tributaries. -/
  inflow : String
  /-- Whether the fluxes may be put into another order. -/
  sort : Bool

namespace RouteDraft

variable {K : Type} [Scalar K]

/-- The fluxes in the order of evaluation. -/
def order (d : RouteDraft K) : Except Fault (List (Declaration K)) :=
  orderItems d.sort "flux" Declaration.item d.fluxes

def states (d : RouteDraft K) : List String := d.rates.map fun r => r.state

/-- The outputs of the fluxes in the order of declaration. -/
def fluxOutputs (d : RouteDraft K) : List String :=
  orderedUnion (d.fluxes.map Declaration.outputs)

def outputs (d : RouteDraft K) : List String := d.fluxOutputs ++ [d.inflow]

def signature (d : RouteDraft K) : Signature :=
  let default := "route_" ++ shortPrint [.names d.states, .names d.outputs, .text d.outflow,
    .tuple (d.topology.nodes.map NodeId.literal)]
  .ofDeclarations "Route" (nameOr default d.name) d.fluxes d.rates d.outputs

def fault? (d : RouteDraft K) (ordered : List (Declaration K)) : Option Misconfiguration :=
  let name := d.signature.name
  List.findSome? id [
    (repeated? d.states).map fun _ => .statesTwice d.states,
    d.signature.stateAndOutput?,
    if d.fluxOutputs.contains d.outflow then none else some (.outflowUnproduced name d.outflow),
    if d.fluxOutputs.contains d.inflow then some (.inflowProduced name d.inflow) else none,
    (ordered.find? fun f => f.inputs.contains d.inflow).map fun f =>
      .inflowReadLocally name f.name d.inflow]

end RouteDraft

structure Route (K : Type) [Scalar K] extends RouteDraft K where
  ordered : List (Declaration K)
  order_eq : toRouteDraft.order = .ok ordered
  accepted : toRouteDraft.fault? ordered = none

namespace Route

variable {K : Type} [Scalar K]

def ofDraft (d : RouteDraft K) : Except Fault (Route K) :=
  match order_eq : d.order with
  | .error f => .error f
  | .ok ordered =>
    match accepted : d.fault? ordered with
    | some cause => misconfigured cause
    | none => .ok { d with ordered, order_eq, accepted }

/-- The names of the rows that are given to the fluxes: inputs, then states. -/
def rowsRead (r : Route K) : List String := r.signature.inputs ++ r.states

def fluxProgram (r : Route K) (backend : Backend) : Except Fault (Program K) :=
  Program.compile backend r.ordered r.rowsRead r.fluxOutputs

def rateProgram (r : Route K) (backend : Backend) : Except Fault (Program K) :=
  Program.compile backend (r.rates.map .state) (r.rowsRead ++ r.outputs) (r.states.map rateName)

variable {n t : Nat}

/-- The inflow of every node from rows of flux outputs. -/
def inflowOf (r : Route K) (feeders : Fin n → List (Fin n)) {s : Shape}
    (rows : List (Grid (n :: s) K)) : Except Fault (Grid (n :: s) K) := do
  let outflow ← Values.orFault .unknownName ((r.fluxOutputs.zip rows).lookup r.outflow)
  return gatherRows feeders outflow

/-- The rates of all states at a time, with the inflows of that time. -/
def rate (r : Route K) (fluxes rates : Program K) (feeders : Fin n → List (Fin n)) {m s : Nat}
    (forcing : Forcing [m, n] K) (d : RunData n t K) : Rate [s, n] K := fun u time => do
  let inputs := forcing.value d.settings.interpolation time
  let known := inputs.rows ++ u.rows
  let local_ ← fluxes.run known d.nodeBindings d.networkWeights
  let inflow ← r.inflowOf feeders local_
  let values ← rates.run (known ++ local_ ++ [inflow]) d.nodeBindings d.networkWeights
  return .ofGrid (Grid.stack values)

/-- A route runs over as many nodes as its network has. -/
def nodesFault? (r : Route K) (n : Nat) : Option ShapeMismatch :=
  if r.topology.size = n then none
  else some (.routeNodes r.signature.name r.topology.size n)

/-- The rows of the states, advanced with both programs, of the outputs that are evaluated over them,
and of the inflow that these give. -/
def runStates (r : Route K) (fluxes rates : Program K) (feeders : Fin n → List (Fin n))
    (d : RunData n t K) (rows : List (Grid [n, t] K)) : Except Fault (Outcome n t K) := do
  let forcing ← Forcing.make d.times (timeColumns rows)
  let path ← advance d.settings (r.rate fluxes rates feeders forcing d) (Grid.stack d.initial)
    d.times
  let states := stateRows d.initial.length t path.columns
  let outputs ← fluxes.run (rows ++ states) d.timeBindings d.networkWeights
  let inflow ← r.inflowOf feeders outputs
  return ⟨states ++ outputs ++ [inflow], path.warnings⟩

/-- The result over nodes and times for the rows of the inputs. -/
def run (r : Route K) (d : RunData n t K) (rows : List (Grid [n, t] K)) :
    Except Fault (Outcome n t K) :=
  if h : r.topology.size = n then do
    let fluxes ← r.fluxProgram d.settings.backend
    let rates ← r.rateProgram d.settings.backend
    let table : Vector (List (Fin n)) n := h ▸ r.topology.feeders
    r.runStates fluxes rates (fun i => table[i]) d rows
  else mismatched (.routeNodes r.signature.name r.topology.size n)

end Route

end Catchment
