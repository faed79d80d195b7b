import Catchment.Flux

/-!
# Neural fluxes

A flux computed by a network law. The weights are one vector, looked up under the name of the
network and shared by all nodes.
-/
namespace Catchment

structure NeuralFluxDraft (K : Type) where
  name : String
  inputs : List String
  outputs : List String
  network : String
  law : NetworkLaw K
  /-- The number of weights, if it is fixed. -/
  weights : Option Int

namespace NeuralFluxDraft

variable {K : Type}

def defaultName (network : String) (inputs outputs : List String) (law : NetworkLaw K) : String :=
  "nn_" ++ network ++ "_" ++ shortPrint [.names inputs, .names outputs, .text law.name]

def owner (d : NeuralFluxDraft K) : String := "NeuralFlux '" ++ d.name ++ "'"

def fault? (d : NeuralFluxDraft K) : Option Misconfiguration :=
  List.findSome? id [
    if d.outputs.isEmpty then some (.noOutputs d.owner) else none,
    declaredTwice? d.owner "input" d.inputs,
    declaredTwice? d.owner "output" d.outputs,
    bothInputAndOutput? d.owner d.inputs d.outputs]

end NeuralFluxDraft

structure NeuralFlux (K : Type) extends NeuralFluxDraft K where
  accepted : toNeuralFluxDraft.fault? = none

namespace NeuralFlux

variable {K : Type} [Scalar K]

def ofDraft (d : NeuralFluxDraft K) : Except Fault (NeuralFlux K) :=
  match h : d.fault? with
  | none => .ok { d with accepted := h }
  | some cause => misconfigured cause

def declare (inputs outputs : List (Label K)) (network : String) (law : NetworkLaw K)
    (weights : Option Int) (name : Option String) : Except Fault (NeuralFlux K) := do
  let inputs ← inputs.mapM Label.resolve
  let outputs ← outputs.mapM Label.resolve
  let name := name.getD (NeuralFluxDraft.defaultName network inputs outputs law)
  ofDraft { name, inputs, outputs, network, law, weights }

end NeuralFlux

end Catchment
