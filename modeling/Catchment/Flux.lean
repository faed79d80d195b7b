import Catchment.Fingerprint
import Catchment.Operand
import Catchment.Values

/-!
# Fluxes

A flux assigns its outputs from its inputs and parameters, by one formula per output or by a law.
A formula may read the outputs before its own. A draft holds what was written; a flux is a draft
without fault.

A law computes a flux that is given as a function and not as a formula. Two laws are the same when
their names are. A network law maps stacked inputs, one column per node and time, and a weight
vector to stacked outputs.
-/
namespace Catchment

inductive LawResult (K : Type) where
  | single (v : Values K)
  | several (vs : List (Values K))

structure Law (K : Type) where
  name : String
  apply : List (Values K) → Except Fault (LawResult K)

structure NetworkLaw (K : Type) where
  name : String
  apply : Tensor K → Tensor K → Except Fault (Tensor K)

namespace LawResult

variable {K : Type}

/-- One value per output. An array that stands for other than one output counts as its rows. -/
def parts (r : LawResult K) (outputs : Nat) : Except Fault (List (Values K)) :=
  match r with
  | several vs => .ok vs
  | single v =>
    if outputs = 1 then .ok [v]
    else
      match v.tensor.rows? with
      | some rows => .ok (rows.map fun t => ⟨v.format, t⟩)
      | none => .error .operand

end LawResult

/-- A name, or a leaf that stands for its name. -/
inductive Label (K : Type) where
  | name (s : String)
  | leaf (e : Expr K)

def Label.resolve {K : Type} [Scalar K] : Label K → Except Fault String
  | name s => .ok s
  | leaf (.var s) => .ok s
  | leaf (.par s) => .ok s
  | leaf e => .error (.notName e.text)

/-- The first name that occurs earlier in the list. -/
def repeated? : List String → Option String
  | names => (names.zipIdx.find? fun p => (names.take p.2).contains p.1).map Prod.fst

def declaredTwice? (owner what : String) (names : List String) : Option Misconfiguration :=
  (repeated? names).map (.declaredTwice owner what)

/-- The names in ascending order, each once. -/
def sortedNames (names : List String) : List String :=
  (firstOccurrences names).mergeSort fun a b => decide (a ≤ b)

def bothInputAndOutput? (owner : String) (inputs outputs : List String) :
    Option Misconfiguration :=
  match inputs.filter outputs.contains with
  | [] => none
  | both => some (.inputAndOutput owner (sortedNames both))

/-- The first name that a formula reads and that is not declared, variables before parameters. -/
def undeclaredRead? {K : Type} (owner subject : String) (vars params : List String) (e : Expr K) :
    Option Misconfiguration :=
  match e.varNames.find? (!vars.contains ·) with
  | some v => some (.undeclaredRead owner subject "variable" v)
  | none =>
    (e.parNames.find? (!params.contains ·)).map (.undeclaredRead owner subject "parameter")

structure FluxDraft (K : Type) where
  name : String
  outputs : List String
  inputs : List String
  params : List String
  exprs : List (Expr K)
  law : Option (Law K)

namespace FluxDraft

variable {K : Type} [Scalar K]

def defaultName (outputs inputs params : List String) (exprs : List (Expr K))
    (law : Option (Law K)) : String :=
  "flux_" ++ shortPrint [.names outputs, .names inputs, .names params,
    .tuple (exprs.map fun e => .written e.text), law.elim .none fun l => .text l.name]

def owner (d : FluxDraft K) : String := "Flux '" ++ d.name ++ "'"

/-- Each formula reads declared names and outputs before its own. -/
def readFault? (owner : String) (params : List String) :
    List String → List (String × Expr K) → Option Misconfiguration
  | _, [] => none
  | vars, (output, e) :: rest =>
    match undeclaredRead? owner ("expression for '" ++ output ++ "'") vars params e with
    | some cause => some cause
    | none => readFault? owner params (output :: vars) rest

def fault? (d : FluxDraft K) : Option Misconfiguration :=
  List.findSome? id [
    if d.outputs.isEmpty then some (.noOutputs d.owner) else none,
    declaredTwice? d.owner "output" d.outputs,
    declaredTwice? d.owner "input" d.inputs,
    declaredTwice? d.owner "parameter" d.params,
    bothInputAndOutput? d.owner d.inputs d.outputs,
    if d.law.isNone == d.exprs.isEmpty then some (.exprsOrLaw d.owner) else none,
    if d.law.isNone && d.exprs.length != d.outputs.length then
      some (.expressionCount d.owner d.exprs.length d.outputs) else none,
    if d.law.isNone then readFault? d.owner d.params d.inputs (d.outputs.zip d.exprs) else none]

end FluxDraft

structure Flux (K : Type) extends FluxDraft K where
  accepted : toFluxDraft.fault? = none

namespace Flux

variable {K : Type} [Scalar K]

def ofDraft (d : FluxDraft K) : Except Fault (Flux K) :=
  match h : d.fault? with
  | none => .ok { d with accepted := h }
  | some cause => misconfigured cause

def declare (outputs inputs params : List (Label K)) (exprs : List (Operand K))
    (law : Option (Law K)) (name : Option String) : Except Fault (Flux K) := do
  let outputs ← outputs.mapM Label.resolve
  let inputs ← inputs.mapM Label.resolve
  let params ← params.mapM Label.resolve
  let exprs ← exprs.mapM Operand.toExpr
  let name := name.getD (FluxDraft.defaultName outputs inputs params exprs law)
  ofDraft { name, outputs, inputs, params, exprs, law }

/-- Two keys are the same name or structurally the same leaf. -/
def sameKey : Label K → Label K → Bool
  | .name s, .name t => s = t
  | .leaf d, .leaf e => d.same e
  | _, _ => false

/-- A value for a key that is present replaces the value and keeps the place. -/
def assign (table : List (Label K × Operand K)) (key : Label K) (value : Operand K) :
    List (Label K × Operand K) :=
  if table.any fun p => sameKey p.1 key then
    table.map fun p => if sameKey p.1 key then (p.1, value) else p
  else table ++ [(key, value)]

/-- The flux of assigned formulas. Inputs are the variables read that are not assigned, parameters
are the parameters read, in order of first occurrence. -/
def ofAssignments (pairs : List (Label K × Operand K)) (name : Option String) :
    Except Fault (Flux K) := do
  let table := pairs.foldl (fun t p => assign t p.1 p.2) []
  let outputs ← table.mapM fun p => p.1.resolve
  let exprs ← table.mapM fun p => p.2.toExpr
  let inputs := (orderedUnion (exprs.map Expr.varNames)).filter (!outputs.contains ·)
  let params := orderedUnion (exprs.map Expr.parNames)
  let name := name.getD (FluxDraft.defaultName outputs inputs params exprs none)
  ofDraft { name, outputs, inputs, params, exprs, law := none }

end Flux

end Catchment
