import Catchment.Declaration
import Catchment.Nested
import Catchment.Symbolic

/-!
# Programs

Declarations in evaluation order, compiled into one function from stacked rows to stacked rows. The
elementwise backend evaluates each declaration over whole rows; the symbolic backend evaluates the
formulas column by column and differentiates them.
-/
namespace Catchment

inductive Backend where
  | elementwise | symbolic
  deriving DecidableEq, Repr

structure ProgramDraft (K : Type) where
  backend : Backend
  fluxes : List (Declaration K)
  inputs : List String
  outputs : List String

namespace ProgramDraft

variable {K : Type} [Scalar K]

/-- The first read that is neither an input nor produced before. -/
def unavailable? : List String → List (Declaration K) → Option Misconfiguration
  | _, [] => none
  | known, f :: rest =>
    match f.reads.find? (!known.contains ·) with
    | some v => some (.unavailable f.name v)
    | none => unavailable? (f.outputs ++ known) rest

def known (d : ProgramDraft K) : List String := d.inputs ++ d.fluxes.flatMap Declaration.outputs

/-- Only declarations by formulas can be compiled symbolically. -/
def notSymbolic? (d : ProgramDraft K) : Option Misconfiguration :=
  if d.backend = .symbolic then
    (d.fluxes.find? fun f => f.lawName?.isSome).map fun f => .notSymbolic f.name
  else none

def fault? (d : ProgramDraft K) : Option Misconfiguration :=
  List.findSome? id [
    unavailable? d.inputs d.fluxes,
    (d.outputs.find? (!d.known.contains ·)).map .unproducedOutput,
    d.notSymbolic?]

end ProgramDraft

structure Program (K : Type) extends ProgramDraft K where
  accepted : toProgramDraft.fault? = none

/-- Network weights by name, as they were given. -/
abbrev Weights (K : Type) := List (String × Nested K)

namespace Declaration

variable {K : Type} [Scalar K]

/-- Binds each formula's value before the next is evaluated. -/
def bindFormulas (params : Bindings K) : List (String × Expr K) → Bindings K →
    Except Fault (Bindings K)
  | [], env => .ok env
  | (output, e) :: rest, env => do
    let v ← e.eval env params
    bindFormulas params rest ((output, v) :: env)

def bindAll (env : Bindings K) (outputs : List String) (vs : List (Values K)) : Bindings K :=
  (outputs.zip vs).foldl (fun env p => p :: env) env

def lookup (names : List String) (env : Bindings K) : Except Fault (List (Values K)) :=
  names.mapM fun n => Values.orFault .unknownName (env.lookup n)

def bindLaw (f : Flux K) (law : Law K) (params env : Bindings K) : Except Fault (Bindings K) := do
  let args ← lookup f.inputs env
  let result ← law.apply (args ++ (← lookup f.params params))
  let parts ← result.parts f.outputs.length
  if parts.length != f.outputs.length then
    mismatched (.valueCount f.name parts.length f.outputs)
  else return bindAll env f.outputs parts

/-- Stacks the inputs with one column per cell, applies the network and unstacks its rows. -/
def bindNetwork (s : Shape) (n : NeuralFlux K) (weights : Weights K) (env : Bindings K) :
    Except Fault (Bindings K) := do
  let rows ← (← lookup n.inputs env).mapM fun v => Values.orFault .value (v.tensor.repeat? s)
  if rows.isEmpty then throw .value
  let x : Tensor K := .ofGrid (Grid.stack (rows.map fun g => g.reshape (u := [s.size]) (by simp)))
  let theta ← (← Values.orFault .unknownName (weights.lookup n.network)).toTensor
  match n.weights with
  | some count =>
    if count != theta.size then mismatched (.weightCount n.network count theta.size)
  | none => pure ()
  let y ← n.law.apply x theta
  match y with
  | ⟨[k, m], g⟩ =>
    if k != n.outputs.length then
      mismatched (.networkResult n.name n.outputs.length s.size y.shape)
    else if h : m = s.size then
      let parts := g.rows.map fun row =>
        Values.ofGrid (row.reshape (u := s) (by simp [h]))
      return bindAll env n.outputs parts
    else throw .value
  | _ => mismatched (.networkResult n.name n.outputs.length s.size y.shape)

/-- One declaration over rows of a shape. -/
def bind (s : Shape) (params : Bindings K) (weights : Weights K) (f : Declaration K)
    (env : Bindings K) : Except Fault (Bindings K) :=
  match f with
  | flux f =>
    match f.law with
    | some law => bindLaw f law params env
    | none => bindFormulas params (f.outputs.zip f.exprs) env
  | state d => bindFormulas params [(rateName d.state, d.expr)] env
  | neural n => bindNetwork s n weights env

end Declaration

namespace Program

variable {K : Type} [Scalar K]

def compile (backend : Backend) (fluxes : List (Declaration K)) (inputs outputs : List String) :
    Except Fault (Program K) :=
  let d : ProgramDraft K := { backend, fluxes, inputs, outputs }
  match h : d.fault? with
  | none => .ok { d with accepted := h }
  | some cause => misconfigured cause

def params (p : Program K) : List String := orderedUnion (p.fluxes.map Declaration.params)

def networks (p : Program K) : List String := orderedUnion (p.fluxes.map Declaration.networks)

/-- The rows under the names of the inputs; of two inputs of one name the later counts. -/
def inputBindings {s : Shape} (names : List String) (rows : List (Grid s K)) : Bindings K :=
  Declaration.bindAll [] names (rows.map Values.ofGrid)

/-- The output rows, each declaration evaluated over whole rows. -/
def runElementwise (p : Program K) {s : Shape} (rows : List (Grid s K)) (params : Bindings K)
    (weights : Weights K) : Except Fault (List (Grid s K)) := do
  let env ← p.fluxes.foldlM (fun env f => f.bind s params weights env)
    (inputBindings p.inputs rows)
  p.outputs.mapM fun o => do
    let v ← Values.orFault .unknownName (env.lookup o)
    Values.orFault .value (v.tensor.repeat? s)

/-- The value of a name in a list of bindings of which the first counts. -/
def valueOf {α : Type} (missing : α) (env : List (String × α)) (name : String) : α :=
  (env.lookup name).getD missing

/-- The names known in one column after all formulas. -/
def column (p : Program K) (inputs params : List (String × K)) : List (String × K) :=
  let formulas := p.fluxes.flatMap Declaration.formulas
  formulas.foldl (fun env f =>
    (f.1, f.2.symbolic (valueOf Scalar.nan env) (valueOf Scalar.nan params)) :: env) inputs

/-- The output rows, the formulas evaluated column by column. -/
def runSymbolic (p : Program K) {s : Shape} (rows : List (Grid s K)) (params : Bindings K) :
    Except Fault (List (Grid s K)) := do
  if s.size = 0 || p.outputs.isEmpty then return p.outputs.map fun _ => Grid.replicate Scalar.zero
  let ps ← p.params.mapM fun k => do
    let v ← Values.orFault .unknownName (params.lookup k)
    return (k, ← Values.orFault .value (v.tensor.repeat? s))
  let columns : Grid s (List K) := Grid.ofFn fun i =>
    let inputs := ((p.inputs.zip rows).map fun r => (r.1, r.2.get i)).reverse
    let env := p.column inputs (ps.map fun r => (r.1, r.2.get i))
    p.outputs.map (valueOf Scalar.nan env)
  return (List.range p.outputs.length).map fun k =>
    Grid.ofFn fun i => (columns.get i).getD k Scalar.nan

def run (p : Program K) {s : Shape} (rows : List (Grid s K)) (params : Bindings K)
    (weights : Weights K) : Except Fault (List (Grid s K)) :=
  match p.backend with
  | .elementwise => p.runElementwise rows params weights
  | .symbolic => p.runSymbolic rows params

/-- A parameter and its value, converted where it is used. -/
abbrev Arguments (K : Type) := List (String × Nested K)

def convert (args : Arguments K) (names : List String) : Except Fault (Bindings K) :=
  names.mapM fun k => do
    let a ← Values.orFault .unknownName (args.lookup k)
    return (k, .ofTensor (← a.toTensor))

def missingParameter? (p : Program K) (args : Arguments K) : Option Misconfiguration :=
  (p.params.find? fun k => (args.lookup k).isNone).map fun k => .missingParameter k []

def missingWeights? (p : Program K) (weights : Weights K) : Option Misconfiguration :=
  (p.networks.find? fun n => (weights.lookup n).isNone).map .missingWeights

/-- Applies the program to an array whose first axis holds the inputs. -/
def call (p : Program K) (x : Nested K) (args : Arguments K) (weights : Weights K) :
    Except Fault (Tensor K) := do
  let x ← x.toTensor
  match x with
  | ⟨[], _⟩ => mismatched (.inputRows p.inputs [])
  | ⟨n :: s, g⟩ =>
    if n != p.inputs.length then mismatched (.inputRows p.inputs x.shape)
    else
      match p.missingParameter? args, p.missingWeights? weights with
      | some cause, _ => misconfigured cause
      | none, some cause => misconfigured cause
      | none, none =>
        let needed := if p.backend = .symbolic && (Shape.size s = 0 || p.outputs.isEmpty) then []
          else p.params
        let rows ← p.run g.rows (← convert args needed) weights
        return .ofGrid (Grid.stack rows)

/-- The derivative of every output in every parameter, for one column of inputs. -/
def jacobianAt (p : Program K) (inputs params : List (String × K)) : List (List K) :=
  let formulas := p.fluxes.flatMap Declaration.formulas
  let start := inputs.map fun r => (r.1, Dual.constant r.2)
  let columns := p.params.map fun k =>
    let duals := params.map fun r => (r.1, ⟨r.2, if r.1 = k then some Scalar.one else none⟩)
    let missing := Dual.constant Scalar.nan
    let env := formulas.foldl (fun env f =>
      (f.1, f.2.dual (valueOf missing env) (valueOf missing duals)) :: env) start
    p.outputs.map fun o => (valueOf missing env o).slope.getD Scalar.zero
  (List.range p.outputs.length).map fun i => columns.map fun c => c.getD i Scalar.zero

/-- A parameter that must be a single number. -/
def single (a : Nested K) : Except Fault K :=
  match a with
  | .list _ => .error .operand
  | .tensor t => if t.shape.isEmpty then Values.orFault .value t.toList.head? else .error .operand
  | .entry e => e.toReal
  | .text _ => .error .value

def jacobian (p : Program K) (x : Nested K) (args : Arguments K) : Except Fault (Tensor K) := do
  match p.missingParameter? args with
  | some cause => misconfigured cause
  | none =>
    let x ← x.toTensor
    if x.size != p.inputs.length then throw .value
    let params ← p.params.mapM fun k => do
      return (k, ← single (← Values.orFault .unknownName (args.lookup k)))
    let inputs := (p.inputs.zip x.toList).reverse
    Values.orFault .value
      (Tensor.ofList? [p.outputs.length, p.params.length] (p.jacobianAt inputs params).flatten)

/-- What identifies a program; equal texts are given the same program by a cache. -/
def key (backend : Backend) (fluxes : List (Declaration K)) (inputs outputs : List String) :
    String :=
  fingerprint [
    .text (match backend with | .elementwise => "elementwise" | .symbolic => "symbolic"),
    .list (fluxes.map Declaration.literal), .names inputs, .names outputs] 40

end Program

/-- The programs compiled so far by key, in order of arrival. -/
structure ProgramCache (K : Type) where
  entries : List (String × Program K)

namespace ProgramCache

variable {K : Type} [Scalar K]

def empty : ProgramCache K := ⟨[]⟩

/-- The program of a key that is present, or a new one. -/
def compile (cache : ProgramCache K) (backend : Backend) (fluxes : List (Declaration K))
    (inputs outputs : List String) : Except Fault (Program K × ProgramCache K) := do
  let key := Program.key backend fluxes inputs outputs
  match cache.entries.lookup key with
  | some p => return (p, cache)
  | none =>
    let p ← Program.compile backend fluxes inputs outputs
    return (p, ⟨cache.entries ++ [(key, p)]⟩)

def place? (cache : ProgramCache K) (key : String) : Option Nat :=
  cache.entries.findIdx? fun e => e.1 = key

end ProgramCache

end Catchment
