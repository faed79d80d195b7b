import Catchment.Declaration
import Catchment.DependencyOrder

/-!
# Signatures

What a component reads, keeps and computes, by name. The rows of its result are its states followed
by its outputs.
-/
namespace Catchment

structure Signature where
  /-- The word for the kind of component. -/
  kind : String
  name : String
  inputs : List String
  states : List String
  outputs : List String
  params : List String
  networks : List String
  deriving DecidableEq, Repr

namespace Signature

/-- The component with its kind, as messages call it. -/
def owner (s : Signature) : String := s.kind ++ " '" ++ s.name ++ "'"

def text (s : Signature) : String :=
  s.kind ++ "(name=" ++ quotedText s.name ++ ", inputs=" ++ nameList s.inputs ++ ", states=" ++
    nameList s.states ++ ", outputs=" ++ nameList s.outputs ++ ", params=" ++ nameList s.params ++
    ")"

/-- A name is a state or an output, not both. -/
def stateAndOutput? (s : Signature) : Option Misconfiguration :=
  match sortedNames (s.states.filter s.outputs.contains) with
  | [] => none
  | both => some (.stateAndOutput s.owner both)

def item (s : Signature) : Item := ⟨s.name, s.inputs, s.states ++ s.outputs⟩

end Signature

namespace Declaration

variable {K : Type} [Scalar K]

def item (d : Declaration K) : Item := ⟨d.name, d.reads, d.outputs⟩

end Declaration

/-- A name that was given and is not empty, or else a default. -/
def nameOr (default : String) (given : Option String) : String :=
  match given with
  | none => default
  | some "" => default
  | some name => name

/-- The signature that follows from declarations: reads that nothing here produces are inputs. -/
def Signature.ofDeclarations {K : Type} [Scalar K] (kind name : String)
    (declared : List (Declaration K)) (rates : List (StateFlux K)) (outputs : List String) :
    Signature :=
  let states := rates.map fun d => d.state
  let all := declared ++ rates.map Declaration.state
  let reads := orderedUnion (all.map Declaration.reads)
  { kind, name, states, outputs
    inputs := reads.filter fun v => !outputs.contains v && !states.contains v
    params := orderedUnion (all.map Declaration.params)
    networks := orderedUnion (declared.map Declaration.networks) }

end Catchment
