import Catchment.Bucket
import Catchment.Proofs.DependencyOrders
import Catchment.Proofs.NameLists

/-!
# Names of declarations

The inputs of a component of declarations are the names that are read and that nothing produces.
-/
namespace Catchment

variable {K : Type} [Scalar K]

theorem Signature.mem_inputs_ofDeclarations {kind name : String} {declared : List (Declaration K)}
    {rates : List (StateFlux K)} {outputs : List String} {v : String} :
    v ∈ (Signature.ofDeclarations kind name declared rates outputs).inputs ↔
      (∃ f ∈ declared ++ rates.map Declaration.state, v ∈ f.reads) ∧ v ∉ outputs ∧
        v ∉ rates.map fun r => r.state := by
  have hreads : v ∈ orderedUnion ((declared ++ rates.map Declaration.state).map Declaration.reads) ↔
      ∃ f ∈ declared ++ rates.map Declaration.state, v ∈ f.reads := by
    simp only [mem_orderedUnion, List.mem_map, exists_exists_and_eq_and]
  rw [← hreads]
  exact List.mem_filter.trans (by simp)

theorem Signature.nodup_inputs_ofDeclarations {kind name : String}
    {declared : List (Declaration K)} {rates : List (StateFlux K)} {outputs : List String} :
    (Signature.ofDeclarations kind name declared rates outputs).inputs.Nodup :=
  (nodup_orderedUnion _).filter _

theorem Signature.stateAndOutput?_eq_none {sig : Signature} :
    sig.stateAndOutput? = none ↔ ∀ s ∈ sig.states, s ∉ sig.outputs := by
  rw [← sortedNames_common_eq_nil]
  unfold stateAndOutput?
  split
  · rename_i hnil
    exact ⟨fun _ => hnil, fun _ => rfl⟩
  · rename_i hne
    exact ⟨fun h => (nomatch h), fun h => (hne h).elim⟩

theorem BucketDraft.fault?_eq_none {d : BucketDraft K} {ordered : List (Declaration K)} :
    d.fault? ordered = none ↔ d.states.Nodup ∧ ∀ s ∈ d.states, s ∉ d.outputs := by
  rw [BucketDraft.fault?]
  cases h : repeated? d.states with
  | some s => simp [← repeated?_eq_none, h]
  | none =>
    simp only [repeated?_eq_none.1 h, true_and]
    exact Signature.stateAndOutput?_eq_none

end Catchment
