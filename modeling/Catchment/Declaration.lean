import Catchment.NeuralFlux
import Catchment.StateFlux

/-!
# Declarations

A flux, a state flux or a neural flux, seen as something that reads names and produces names.
-/
namespace Catchment

inductive Declaration (K : Type) where
  | flux (f : Flux K)
  | state (d : StateFlux K)
  | neural (n : NeuralFlux K)

namespace Declaration

variable {K : Type} [Scalar K]

/-- The word for the kind of declaration. -/
def kind : Declaration K → String
  | flux _ => "Flux"
  | state _ => "StateFlux"
  | neural _ => "NeuralFlux"

def name : Declaration K → String
  | flux f => f.name
  | state d => d.name
  | neural n => n.name

def inputs : Declaration K → List String
  | flux f => f.inputs
  | state d => d.inputs
  | neural n => n.inputs

def outputs : Declaration K → List String
  | flux f => f.outputs
  | state d => d.outputs
  | neural n => n.outputs

def params : Declaration K → List String
  | flux f => f.params
  | state d => d.params
  | neural _ => []

def networks : Declaration K → List String
  | neural n => [n.network]
  | _ => []

def exprs : Declaration K → List (Expr K)
  | flux f => f.exprs
  | state d => [d.expr]
  | neural _ => []

def reads : Declaration K → List String
  | flux f => f.inputs
  | state d => d.reads
  | neural n => n.inputs

/-- The name of the law, for a declaration that has one. -/
def lawName? : Declaration K → Option String
  | flux f => f.law.map Law.name
  | state _ => none
  | neural n => some n.law.name

/-- The outputs with their formulas, for a declaration by formulas. -/
def formulas : Declaration K → List (String × Expr K)
  | flux f => f.outputs.zip f.exprs
  | state d => [(rateName d.state, d.expr)]
  | neural _ => []

/-- What identifies the declaration in a compiled program. -/
def literal (f : Declaration K) : Literal :=
  .tuple [.text f.kind, .text f.name, .names f.outputs, .names f.inputs, .names f.params,
    .tuple (f.exprs.map fun e => .written e.text), .names f.networks,
    f.lawName?.elim .none .text,
    match f with
    | neural n => n.weights.elim .none .integer
    | _ => .none]

end Declaration

end Catchment
