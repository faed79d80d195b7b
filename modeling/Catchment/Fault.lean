import Catchment.QuotedText

/-!
# Faults

What can be wrong with a declaration, a wiring or a run, as causes. A `Misconfiguration` is found
when something is built or before it runs, a `ShapeMismatch` is an array of the wrong rank or size,
and the remaining faults come from single values.
-/
namespace Catchment

/-- A model is declared or wired inconsistently. An owner is the declaration at fault with its
kind, such as `Flux 'melt'`. -/
inductive Misconfiguration where
  | noOutputs (owner : String)
  | declaredTwice (owner what name : String)
  | inputAndOutput (owner : String) (names : List String)
  | exprsOrLaw (owner : String)
  | expressionCount (owner : String) (count : Nat) (outputs : List String)
  | undeclaredRead (owner subject what name : String)
  | noRate (state : String)
  | rateAndFlows (state : String)
  | producedTwice (read kind first second : String)
  | readsOwnOutput (kind item read : String)
  | cycle (kind : String) (items exchanged : List String)
  | readBeforeProduced (kind reader read producer : String)
  | unavailable (flux read : String)
  | unproducedOutput (name : String)
  | notSymbolic (flux : String)
  | missingParameter (name : String) (others : List String)
  | missingWeights (network : String)
  | unknownOptions (names valid : List String)
  | indexType (format : String)
  | classRange (what name : String) (classes : Nat) (worst : Int)
  | unusedClass (k : Nat)
  | nodeTwice (node : String)
  | unknownNode (source target node : String)
  | drainsIntoItself (node : String)
  | networkCycle (nodes : List String)
  | sharedCell
  | cellOutside (node : Nat) (row column : Int) (grid : List Nat)
  | rateAmongFluxes (name : String)
  | stateTwice (state : String)
  | statesTwice (states : List String)
  | stateAndOutput (owner : String) (names : List String)
  | outflowUnproduced (route outflow : String)
  | inflowProduced (route inflow : String)
  | inflowReadLocally (route flux inflow : String)
  | curveAndKind
  | curveLength
  | unknownMethod (method : String)
  | readsAndWrites (component name : String)
  | fixedStepOnly (component : String)
  | noComponents
  | componentTwice (name : String)
  | inputsProduced (names : List String)
  | inputUnresolved (read component : String)
  | outputUncomputed (read model : String)
  | unknownComponents (names : List String)
  deriving DecidableEq, Repr

/-- An array has the wrong rank or size. -/
inductive ShapeMismatch where
  | inputRows (names : List String) (got : List Nat)
  | valueCount (flux : String) (count : Nat) (outputs : List String)
  | weightCount (network : String) (expected : Int) (got : Nat)
  | networkResult (flux : String) (outputs columns : Nat) (got : List Nat)
  | rate (got expected : List Nat)
  | timeAxis (columns times : Nat)
  | emptyTimeAxis
  | unorderedTimes
  | classIndex (nodes : Int) (got : List Nat)
  | notVector (what name : String) (got : List Nat)
  | nodeValues (what name : String) (count : Nat) (nodes : Int)
  | gridRank (got : List Nat)
  | outflowNodes (got : List Nat) (nodes : Nat)
  | inputRank (owner : String) (got : List Nat)
  | inputCount (owner : String) (names : List String) (got : Nat)
  | timeCount (times columns : Nat)
  | routeNodes (route : String) (nodes got : Nat)
  deriving DecidableEq, Repr

inductive Fault where
  | configuration (cause : Misconfiguration)
  | shape (cause : ShapeMismatch)
  /-- A value of this type stands where an expression is needed. -/
  | notExpression (type : String)
  /-- An expression that is no leaf stands where a name is needed. -/
  | notName (text : String)
  | noTruthValue (text : String)
  | noNames
  /-- An operation is not defined for operands of this kind. -/
  | operand
  /-- A value is malformed or outside what an operation accepts. -/
  | value
  | unknownName
  | position
  | overflow
  /-- A division by zero; the law that divided may say more. -/
  | divisionByZero (text : String)
  /-- The sign of a flag. -/
  | signOfFlag
  deriving DecidableEq, Repr

namespace Misconfiguration

def message : Misconfiguration → String
  | noOutputs owner => owner ++ " declares no outputs"
  | declaredTwice owner what name =>
    owner ++ ": " ++ what ++ " '" ++ name ++ "' is declared more than once"
  | inputAndOutput owner names =>
    owner ++ ": variables " ++ nameList names ++ " are both input and output"
  | exprsOrLaw owner => owner ++ ": give exactly one of exprs or func"
  | expressionCount owner count outputs =>
    owner ++ ": " ++ toString count ++ " expressions for " ++ toString outputs.length ++
      " outputs " ++ nameList outputs
  | undeclaredRead owner subject what name =>
    owner ++ ": " ++ subject ++ " reads undeclared " ++ what ++ " '" ++ name ++ "'"
  | noRate state => "State '" ++ state ++ "' needs a rate expression or inflows/outflows"
  | rateAndFlows state =>
    "State '" ++ state ++ "': give either expr or inflows/outflows, not both"
  | producedTwice read kind first second =>
    "Variable '" ++ read ++ "' is produced by both " ++ kind ++ " '" ++ first ++ "' and " ++
      kind ++ " '" ++ second ++ "'"
  | readsOwnOutput kind item read =>
    kind.capitalize ++ " '" ++ item ++ "' reads its own output '" ++ read ++ "'"
  | cycle kind items exchanged =>
    "Dependency cycle through " ++ kind ++ " declarations " ++ nameList items ++
      " via variables " ++ nameList exchanged
  | readBeforeProduced kind reader read producer =>
    kind.capitalize ++ " '" ++ reader ++ "' reads '" ++ read ++ "' before " ++ kind ++ " '" ++
      producer ++ "' produces it"
  | unavailable flux read =>
    "Flux '" ++ flux ++ "' reads '" ++ read ++ "' which is not available at its position"
  | unproducedOutput name => "Requested output '" ++ name ++ "' is not produced by any flux"
  | notSymbolic flux =>
    "Flux '" ++ flux ++ "' is not an expression declaration and cannot use the CasADi backend"
  | missingParameter name others =>
    "Missing value for parameter '" ++ name ++ "'" ++
      if others.isEmpty then "" else " (also missing: " ++ nameList others ++ ")"
  | missingWeights network => "Missing weights for neural network '" ++ network ++ "'"
  | unknownOptions names valid =>
    "Unknown run options " ++ nameList names ++ "; valid options are " ++ nameList valid
  | indexType format => "Class index must be integer, got dtype " ++ format
  | classRange what name classes worst =>
    what ++ " '" ++ name ++ "' has " ++ toString classes ++
      " class values but the class index refers to class " ++ toString worst
  | unusedClass k => "Parameter class " ++ toString k ++ " is not used by any node"
  | nodeTwice node => "Node '" ++ node ++ "' appears more than once in the topology"
  | unknownNode source target node =>
    "Topology edge (" ++ source ++ ", " ++ target ++ ") refers to unknown node '" ++ node ++
      "'"
  | drainsIntoItself node => "Node '" ++ node ++ "' drains into itself"
  | networkCycle nodes =>
    "Topology has a cycle through nodes [" ++ commaSeparated nodes ++ "]"
  | sharedCell => "Two nodes share the same grid cell"
  | cellOutside node row column grid =>
    "Node " ++ toString node ++ " position " ++ tupleText [toString row, toString column] ++
      " is outside the " ++ shapeText grid ++ " grid"
  | rateAmongFluxes name => "StateFlux '" ++ name ++ "' must be passed in dfluxes, not fluxes"
  | stateTwice state => "State '" ++ state ++ "' has more than one StateFlux"
  | statesTwice states => "Route states " ++ nameList states ++ " have more than one StateFlux"
  | stateAndOutput owner names =>
    owner ++ ": " ++ nameList names ++ " are both states and outputs"
  | outflowUnproduced route outflow =>
    "Route '" ++ route ++ "': outflow '" ++ outflow ++ "' is not produced by any routing flux"
  | inflowProduced route inflow =>
    "Route '" ++ route ++ "': inflow '" ++ inflow ++ "' is also produced by a routing flux"
  | inflowReadLocally route flux inflow =>
    "Route '" ++ route ++ "': routing flux '" ++ flux ++ "' reads inflow '" ++ inflow ++
      "', which is only known after outflows are aggregated"
  | curveAndKind => "A custom unit hydrograph needs func, built-in kinds take none"
  | curveLength => "A custom unit hydrograph needs max_lag"
  | unknownMethod method =>
    "Unknown unit hydrograph method '" ++ method ++ "', use 'sparse' or 'discrete'"
  | readsAndWrites component name =>
    "UnitHydrograph '" ++ component ++ "' reads and writes '" ++ name ++ "'"
  | fixedStepOnly component =>
    "UnitHydrograph '" ++ component ++ "' needs the explicit or discrete solver"
  | noComponents => "A model needs at least one component"
  | componentTwice name => "Component name '" ++ name ++ "' is used more than once"
  | inputsProduced names =>
    "Model inputs " ++ nameList names ++ " are also produced by components"
  | inputUnresolved read component =>
    "Input '" ++ read ++ "' of component '" ++ component ++
      "' is neither a model input nor produced by an earlier component"
  | outputUncomputed read model =>
    "Requested output '" ++ read ++ "' is not computed by model '" ++ model ++ "'"
  | unknownComponents names => "Configs given for unknown components " ++ nameList names

end Misconfiguration

namespace ShapeMismatch

def message : ShapeMismatch → String
  | inputRows names got =>
    "Expected " ++ toString names.length ++ " input rows " ++ nameList names ++ ", got shape " ++
      shapeText got
  | valueCount flux count outputs =>
    "Flux '" ++ flux ++ "' returned " ++ toString count ++ " values for outputs " ++
      nameList outputs
  | weightCount network expected got =>
    "Neural network '" ++ network ++ "' expects " ++ toString expected ++ " weights, got " ++
      toString got
  | networkResult flux outputs columns got =>
    "NeuralFlux '" ++ flux ++ "' must return shape " ++ shapeText [outputs, columns] ++ ", got " ++
      shapeText got
  | rate got expected =>
    "Rate function returned shape " ++ shapeText got ++ ", expected state shape " ++
      shapeText expected
  | timeAxis columns times =>
    "Time axis of length " ++ toString columns ++ " does not match " ++ toString times ++
      " time points"
  | emptyTimeAxis => "Cannot interpolate over an empty time axis"
  | unorderedTimes => "Time points must be strictly increasing"
  | classIndex nodes got =>
    "Class index must have one entry per node (" ++ toString nodes ++ "), got shape " ++
      shapeText got
  | notVector what name got =>
    what ++ " '" ++ name ++ "' must be a scalar or a vector, got shape " ++ shapeText got
  | nodeValues what name count nodes =>
    what ++ " '" ++ name ++ "' has " ++ toString count ++ " values for " ++ toString nodes ++
      " nodes"
  | gridRank got => "Flow direction grid must be 2-D, got shape " ++ shapeText got
  | outflowNodes got nodes =>
    "Outflow has " ++ shapeText got ++ " nodes, topology has " ++ toString nodes
  | inputRank owner got =>
    owner ++ " expects input of shape (vars, time) or (vars, nodes, time), got " ++ shapeText got
  | inputCount owner names got =>
    owner ++ " expects " ++ toString names.length ++ " input rows " ++ nameList names ++
      ", got " ++ toString got
  | timeCount times columns =>
    "timeidx has " ++ toString times ++ " entries for " ++ toString columns ++ " input time steps"
  | routeNodes route nodes got =>
    "Route '" ++ route ++ "' has " ++ toString nodes ++ " nodes, input has " ++ toString got

end ShapeMismatch

/-- The text of a fault that has one. -/
def Fault.message? : Fault → Option String
  | .configuration cause => some cause.message
  | .shape cause => some cause.message
  | .notExpression type => some ("Cannot convert " ++ type ++ " to expression")
  | .notName text => some ("Expected a variable or parameter, got " ++ text)
  | .noTruthValue text =>
    some ("Expression " ++ text ++ " has no truth value; use if_else() for conditionals")
  | .noNames => some "At least one name is required"
  | .divisionByZero text => if text.isEmpty then none else some text
  | _ => none

def misconfigured {α : Type} (cause : Misconfiguration) : Except Fault α :=
  .error (.configuration cause)

def mismatched {α : Type} (cause : ShapeMismatch) : Except Fault α := .error (.shape cause)

end Catchment
