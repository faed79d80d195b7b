import Catchment.Component

/-!
# Models

Composing components into a model. The components stand in an order in which every input is a model
input or computed before; by default the model inputs are the names that no component computes, and
the result holds all states and then all outputs. Names are resolved here, to places among the rows
that a run collects.
-/
namespace Catchment

structure Composition (K : Type) [Scalar K] where
  name : Option String
  parts : List (Component K)
  /-- Whether the parts may be put into another order. -/
  sort : Bool
  inputs : Option (List String)
  /-- The rows of the result, if not all states and outputs. -/
  outputs : Option (List String)
  settings : List (String × Settings K)

namespace Composition

variable {K : Type} [Scalar K]

def partNames (d : Composition K) : List String := d.parts.map Component.name

def componentTwice? (d : Composition K) : Option Misconfiguration :=
  (d.partNames.find? fun n => 1 < d.partNames.count n).map .componentTwice

/-- The parts in the order of execution. -/
def order (d : Composition K) : Except Fault (List (Component K)) :=
  orderItems d.sort "component" (fun c => c.signature.item) d.parts

/-- The names that all parts together read, keep and compute. -/
def wholeSignature (d : Composition K) (ordered : List (Component K)) : Signature :=
  let union (f : Signature → List String) : List String :=
    orderedUnion (ordered.map fun c => f c.signature)
  let states := union Signature.states
  let outputs := union Signature.outputs
  let free := (union Signature.inputs).filter fun v => !states.contains v && !outputs.contains v
  { kind := "Model"
    name := nameOr ("model_" ++ shortPrint [.list (d.partNames.map .text)]) d.name
    inputs := d.inputs.getD free
    states, outputs
    params := union Signature.params
    networks := union Signature.networks }

def inputsProduced? (whole : Signature) : Option Misconfiguration :=
  let produced := whole.states ++ whole.outputs
  match sortedNames (whole.inputs.filter produced.contains) with
  | [] => none
  | clash => some (.inputsProduced clash)

/-- The first read that is neither known nor computed by an earlier part. -/
def unresolved? : List String → List (Component K) → Option Misconfiguration
  | _, [] => none
  | known, c :: rest =>
    match c.signature.inputs.find? (!known.contains ·) with
    | some v => some (.inputUnresolved v c.name)
    | none => unresolved? (known ++ c.rowNames) rest

def uncomputed? (whole : Signature) (selected : List String) : Option Misconfiguration :=
  let produced := whole.states ++ whole.outputs
  (selected.find? (!produced.contains ·)).map fun v => .outputUncomputed v whole.name

def unknownSettings? (d : Composition K) : Option Misconfiguration :=
  match sortedNames ((d.settings.map Prod.fst).filter (!d.partNames.contains ·)) with
  | [] => none
  | unknown => some (.unknownComponents unknown)

def selected (d : Composition K) (whole : Signature) : List String :=
  d.outputs.getD (whole.states ++ whole.outputs)

def fault? (d : Composition K) (ordered : List (Component K)) : Option Misconfiguration :=
  let whole := d.wholeSignature ordered
  List.findSome? id [
    whole.stateAndOutput?,
    if d.inputs.isSome then inputsProduced? whole else none,
    unresolved? whole.inputs ordered,
    uncomputed? whole (d.selected whole),
    d.unknownSettings?]

/-- The signature of the rows that are selected. -/
def selectedSignature (d : Composition K) (whole : Signature) : Signature :=
  match d.outputs with
  | none => whole
  | some rows =>
    { whole with
      states := rows.filter whole.states.contains
      outputs := rows.filter (!whole.states.contains ·) }

/-- For each part, the places of its inputs in the names that are known before it. -/
def inputPlaces : List String → List (Component K) → List (List Nat)
  | _, [] => []
  | known, c :: rest =>
    c.signature.inputs.map (known.idxOf ·) :: inputPlaces (known ++ c.rowNames) rest

def wiring (d : Composition K) (ordered : List (Component K)) : Wiring K :=
  let whole := d.wholeSignature ordered
  let known := whole.inputs ++ ordered.flatMap Component.rowNames
  { signature := d.selectedSignature whole
    rowNames := d.selected whole
    inputPlaces := inputPlaces whole.inputs ordered
    outputPlaces := (d.selected whole).map (known.idxOf ·)
    settings := d.settings }

/-- The model of the parts, or what is wrong with it. -/
def build (d : Composition K) : Except Fault (Component K) :=
  if d.parts.isEmpty then misconfigured .noComponents
  else
    match d.componentTwice? with
    | some cause => misconfigured cause
    | none => do
      let ordered ← d.order
      match d.fault? ordered with
      | some cause => misconfigured cause
      | none => return .model (d.wiring ordered) ordered

end Composition

namespace Component

variable {K : Type} [Scalar K]

/-- The names of the rows of a model's table. -/
def knownNames (w : Wiring K) (parts : List (Component K)) : List String :=
  w.signature.inputs ++ parts.flatMap rowNames

/-- The last place of every name, in the order in which the names appear. -/
def lastPlaces (names : List String) : List (String × Nat) :=
  (firstOccurrences names).map fun v => (v, names.length - 1 - names.reverse.idxOf v)

/-- The row of every name in a model's table. -/
def variableIndex (w : Wiring K) (parts : List (Component K)) : List (String × Nat) :=
  lastPlaces (knownNames w parts)

end Component

end Catchment
