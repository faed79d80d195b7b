import Catchment.Flux

/-!
# State fluxes

The rate of change of one state, read under the name `d(state)`: an increment per step for the
fixed-step solvers, a time derivative for the adaptive one.
-/
namespace Catchment

def rateName (state : String) : String := "d(" ++ state ++ ")"

structure StateFluxDraft (K : Type) where
  name : String
  state : String
  expr : Expr K
  inputs : List String
  params : List String

namespace StateFluxDraft

variable {K : Type} [Scalar K]

def defaultName (state : String) (expr : Expr K) (inputs params : List String) : String :=
  "state_" ++ state ++ "_" ++ shortPrint [.written expr.text, .names inputs, .names params]

def owner (d : StateFluxDraft K) : String := "StateFlux '" ++ d.name ++ "'"

/-- A rate may read its own state. -/
def fault? (d : StateFluxDraft K) : Option Misconfiguration :=
  List.findSome? id [
    declaredTwice? d.owner "input" d.inputs,
    declaredTwice? d.owner "parameter" d.params,
    undeclaredRead? d.owner ("rate of '" ++ d.state ++ "'") (d.state :: d.inputs) d.params d.expr]

end StateFluxDraft

structure StateFlux (K : Type) extends StateFluxDraft K where
  accepted : toStateFluxDraft.fault? = none

namespace StateFlux

variable {K : Type} [Scalar K]

def ofDraft (d : StateFluxDraft K) : Except Fault (StateFlux K) :=
  match h : d.fault? with
  | none => .ok { d with accepted := h }
  | some cause => misconfigured cause

def declare (state : Label K) (expr : Operand K) (inputs params : List (Label K))
    (name : Option String) : Except Fault (StateFlux K) := do
  let state ← state.resolve
  let inputs ← inputs.mapM Label.resolve
  let params ← params.mapM Label.resolve
  let expr ← expr.toExpr
  let name := name.getD (StateFluxDraft.defaultName state expr inputs params)
  ofDraft { name, state, expr, inputs, params }

/-- The sum of the inflows less the outflows, from left to right. -/
def balance (inflows outflows : List String) : Expr K :=
  let gain : Expr K :=
    match inflows with
    | [] => .const Scalar.zero
    | first :: rest => rest.foldl (fun e n => .binary .add e (.var n)) (.var first)
  outflows.foldl (fun e n => .binary .sub e (.var n)) gain

/-- The rate of a state, by a formula or by the names that flow in and out. -/
def ofRate (state : Label K) (expr : Option (Operand K)) (inflows outflows : List (Label K))
    (name : Option String) : Except Fault (StateFlux K) := do
  let state ← state.resolve
  let noFlows := inflows.isEmpty && outflows.isEmpty
  let rate ← match expr with
    | none =>
      if noFlows then misconfigured (.noRate state)
      else do
        let inflows ← inflows.mapM Label.resolve
        pure (balance inflows (← outflows.mapM Label.resolve))
    | some e => if noFlows then e.toExpr else misconfigured (.rateAndFlows state)
  let inputs := rate.varNames.filter (· != state)
  let params := rate.parNames
  let name := name.getD (StateFluxDraft.defaultName state rate inputs params)
  ofDraft { name, state, expr := rate, inputs, params }

def outputs (d : StateFlux K) : List String := [rateName d.state]

/-- The inputs, and the state itself when the rate depends on it. -/
def reads (d : StateFlux K) : List String :=
  if d.inputs.contains d.state || !d.expr.varNames.contains d.state then d.inputs
  else d.inputs ++ [d.state]

end StateFlux

end Catchment
