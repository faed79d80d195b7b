import Catchment.Model
import Catchment.Proofs.DeclaredNames
import Catchment.Proofs.DependencyOrders

/-!
# Composed models

A model that is composed of parts in dependency order finds every input of a part among its own
inputs and the rows of the parts before.
-/
namespace Catchment

variable {K : Type} [Scalar K]

namespace Composition

variable {d : Composition K} {ordered : List (Component K)}

theorem build_eq_ok {c : Component K} :
    d.build = .ok c ↔ (d.parts ≠ [] ∧ d.componentTwice? = none) ∧ ∃ ordered,
      d.order = .ok ordered ∧ d.fault? ordered = none ∧
        .model (d.wiring ordered) ordered = c := by
  unfold build
  by_cases hparts : d.parts = []
  · simp [hparts, misconfigured]
  · rw [if_neg (by simpa using hparts)]
    cases d.componentTwice? with
    | some cause => simp [misconfigured]
    | none =>
      simp only [bind_eq_ok, hparts, ne_eq, not_false_eq_true, and_self, true_and]
      refine exists_congr fun ordered => and_congr_right fun _ => ?_
      cases d.fault? ordered with
      | some cause => simp [misconfigured]
      | none => simp

theorem fault?_eq_none : d.fault? ordered = none ↔
    (d.wholeSignature ordered).stateAndOutput? = none ∧
      (if d.inputs.isSome then inputsProduced? (d.wholeSignature ordered) else none) = none ∧
      unresolved? (d.wholeSignature ordered).inputs ordered = none ∧
      uncomputed? (d.wholeSignature ordered) (d.selected (d.wholeSignature ordered)) = none ∧
      d.unknownSettings? = none := by
  rw [fault?, List.findSome?_eq_none_iff]
  simp only [List.mem_cons, List.not_mem_nil, or_false, forall_eq_or_imp, forall_eq, id]

theorem uncomputed?_eq_none {whole : Signature} {selected : List String} :
    uncomputed? whole selected = none ↔ ∀ v ∈ selected, v ∈ whole.states ++ whole.outputs := by
  simp [uncomputed?, or_iff_not_imp_left]

theorem unknownSettings?_eq_none :
    d.unknownSettings? = none ↔ ∀ v ∈ d.settings.map Prod.fst, v ∈ d.partNames := by
  have hnil : sortedNames ((d.settings.map Prod.fst).filter (!d.partNames.contains ·)) = [] ↔
      ∀ v ∈ d.settings.map Prod.fst, v ∈ d.partNames := by
    rw [sortedNames_eq_nil, List.filter_eq_nil_iff]
    simp only [List.contains_eq_mem, Bool.not_eq_true', decide_eq_false_iff_not, not_not]
  rw [← hnil]
  unfold unknownSettings?
  split
  · rename_i h
    exact ⟨fun _ => h, fun _ => rfl⟩
  · rename_i hne
    exact ⟨fun h => (nomatch h), fun h => (hne h).elim⟩

theorem order_eq_ok (h : d.order = .ok ordered) :
    ordered.Perm d.parts ∧ Item.InOrder (ordered.map fun c => c.signature.item) :=
  orderItems_eq_ok h

end Composition

namespace Component

/-- A bucket, a route, a unit hydrograph, or a model that was composed of such components. -/
inductive Composed : Component K → Prop
  | bucket (b : Bucket K) : Composed (.bucket b)
  | route (r : Route K) : Composed (.route r)
  | hydrograph (u : UnitHydrograph K) : Composed (.hydrograph u)
  | model {d : Composition K} {c : Component K} (parts : ∀ p ∈ d.parts, Composed p)
      (built : d.build = .ok c) : Composed c

theorem Composed.mem_rowNames {c : Component K} (h : c.Composed) {v : String} :
    v ∈ c.rowNames ↔ v ∈ c.signature.item.produces := by
  cases h with
  | bucket b => exact .rfl
  | route r => exact .rfl
  | hydrograph u => exact .rfl
  | @model d _ _ built =>
    obtain ⟨-, ordered, -, hfault, rfl⟩ := Composition.build_eq_ok.1 built
    have hselected := Composition.uncomputed?_eq_none.1
      (Composition.fault?_eq_none.1 hfault).2.2.2.1
    show v ∈ d.selected (d.wholeSignature ordered) ↔
      v ∈ (d.selectedSignature (d.wholeSignature ordered)).item.produces
    unfold Composition.selectedSignature Composition.selected
    cases houtputs : d.outputs with
    | none => exact .rfl
    | some rows =>
      simp only [Option.getD_some, Signature.item, List.mem_append, List.mem_filter,
        List.contains_eq_mem, decide_eq_true_eq, Bool.not_eq_true', decide_eq_false_iff_not]
      tauto

end Component

namespace Composition

variable {d : Composition K} {ordered : List (Component K)}

theorem unresolved?_cons {known : List String} {c : Component K} {rest : List (Component K)} :
    unresolved? known (c :: rest) = none ↔
      (∀ v ∈ c.signature.inputs, v ∈ known) ∧ unresolved? (known ++ c.rowNames) rest = none := by
  rw [unresolved?]
  cases h : c.signature.inputs.find? (!known.contains ·) with
  | none =>
    have hall : ∀ v ∈ c.signature.inputs, v ∈ known := by simpa using h
    exact ⟨fun hrest => ⟨hall, hrest⟩, fun hrest => hrest.2⟩
  | some v =>
    have hv := List.find?_some h
    have hmem := List.mem_of_find?_eq_some h
    simp only [reduceCtorEq, false_iff]
    intro hall
    simp [hall.1 v hmem] at hv

/-- Parts in order find their inputs, if what nothing produces is known. -/
theorem unresolved?_of_inOrder {known : List String}
    (h : Item.InOrder (ordered.map fun c => c.signature.item)) (hparts : ∀ c ∈ ordered, c.Composed)
    (hknown : ∀ c ∈ ordered, ∀ v ∈ c.signature.inputs, v ∈ known ∨
      ∃ p ∈ ordered, v ∈ p.signature.item.produces) :
    unresolved? known ordered = none := by
  induction ordered generalizing known with
  | nil => rfl
  | cons c rest ih =>
    obtain ⟨honce, hown, hlater⟩ := h
    rw [List.map_cons, List.flatMap_cons, List.nodup_append] at honce
    rw [List.map_cons, List.pairwise_cons] at hlater
    refine unresolved?_cons.2 ⟨fun v hv => ?_, ih ⟨honce.2.1, ?_, hlater.2⟩ ?_ ?_⟩
    · rcases hknown c List.mem_cons_self v hv with hv' | ⟨p, hp, hv'⟩
      · exact hv'
      · rcases List.mem_cons.1 hp with rfl | hp
        · exact absurd hv' (hown _ (List.mem_map_of_mem List.mem_cons_self) v hv)
        · exact absurd hv' (hlater.1 _ (List.mem_map_of_mem hp) v hv)
    · exact fun a ha => hown a (List.mem_cons_of_mem _ ha)
    · exact fun p hp => hparts p (List.mem_cons_of_mem c hp)
    · intro p hp v hv
      rcases hknown p (List.mem_cons_of_mem c hp) v hv with hv' | ⟨q, hq, hv'⟩
      · exact .inl (List.mem_append_left _ hv')
      · rcases List.mem_cons.1 hq with rfl | hq
        · refine .inl (List.mem_append_right _ ?_)
          exact (hparts q List.mem_cons_self).mem_rowNames.2 hv'
        · exact .inr ⟨q, hq, hv'⟩

theorem length_inputPlaces (known : List String) (parts : List (Component K)) :
    (inputPlaces known parts).length = parts.length := by
  induction parts generalizing known with
  | nil => rfl
  | cons c rest ih => exact congrArg (· + 1) (ih _)

theorem mem_wholeSignature_inputs (hinputs : d.inputs = none) {v : String} :
    v ∈ (d.wholeSignature ordered).inputs ↔ (∃ c ∈ ordered, v ∈ c.signature.inputs) ∧
      ∀ c ∈ ordered, v ∉ c.signature.item.produces := by
  simp only [wholeSignature, hinputs, Option.getD_none, List.mem_filter, mem_orderedUnion,
    List.mem_map, exists_exists_and_eq_and, Bool.and_eq_true, Bool.not_eq_true',
    List.contains_eq_mem, decide_eq_false_iff_not, Signature.item, List.mem_append, not_or,
    not_exists, not_and]
  exact and_congr_right fun _ => ⟨fun h c hc => ⟨h.1 c hc, h.2 c hc⟩, fun h =>
    ⟨fun c hc => (h c hc).1, fun c hc => (h c hc).2⟩⟩

/-- With default inputs, parts in order find all their inputs. -/
theorem unresolved?_eq_none (hparts : ∀ c ∈ d.parts, c.Composed) (hinputs : d.inputs = none)
    (h : d.order = .ok ordered) :
    unresolved? (d.wholeSignature ordered).inputs ordered = none := by
  obtain ⟨hperm, horder⟩ := order_eq_ok h
  refine unresolved?_of_inOrder horder (fun c hc => hparts c (hperm.mem_iff.1 hc))
    fun c hc v hv => ?_
  by_cases hproduced : ∃ p ∈ ordered, v ∈ p.signature.item.produces
  · exact .inr hproduced
  · refine .inl ((mem_wholeSignature_inputs hinputs).2 ⟨⟨c, hc, hv⟩, fun p hp hv => ?_⟩)
    exact hproduced ⟨p, hp, hv⟩

theorem order_ne_inputUnresolved (v name : String) :
    d.order ≠ misconfigured (.inputUnresolved v name) := by
  intro h
  unfold order orderItems at h
  split at h
  · rw [sortItems, Item.resolve_eq] at h
    split at h
    · rename_i htwice
      obtain rfl : _ = Misconfiguration.inputUnresolved v name := by simpa [misconfigured] using h
      simp [Item.producedTwice?] at htwice
    · rename_i hown
      obtain rfl : _ = Misconfiguration.inputUnresolved v name := by simpa [misconfigured] using h
      simp [Item.readsOwnOutput?] at hown
    · dsimp only at h
      split at h
      · simp [misconfigured] at h
      · simp [misconfigured] at h
  · rw [Item.checkOrder] at h
    split at h
    · rename_i htwice
      obtain rfl : _ = Misconfiguration.inputUnresolved v name := by simpa [misconfigured] using h
      simp [Item.producedTwice?] at htwice
    · rename_i hbefore
      obtain rfl : _ = Misconfiguration.inputUnresolved v name := by simpa [misconfigured] using h
      obtain ⟨r, -, hbefore⟩ := List.exists_of_findSome?_eq_some hbefore
      split at hbefore
      · simp at hbefore
      · simp at hbefore
    · simp [misconfigured] at h

/-- With default inputs, composing parts never leaves an input of a part unresolved. -/
theorem build_ne_inputUnresolved (hparts : ∀ c ∈ d.parts, c.Composed) (hinputs : d.inputs = none)
    (v name : String) : d.build ≠ misconfigured (.inputUnresolved v name) := by
  intro h
  unfold build at h
  split at h
  · simp [misconfigured] at h
  · split at h
    · rename_i cause hcause
      obtain ⟨w, -, rfl⟩ := Option.map_eq_some_iff.1 hcause
      simp [misconfigured] at h
    · cases horder : d.order with
      | error e =>
        rw [horder, error_bind] at h
        obtain rfl := Except.error.inj h
        exact order_ne_inputUnresolved v name horder
      | ok ordered =>
        rw [horder, ok_bind] at h
        split at h
        · rename_i cause hcause
          obtain rfl : cause = .inputUnresolved v name := by simpa [misconfigured] using h
          obtain ⟨x, hx, hcause⟩ := List.exists_of_findSome?_eq_some hcause
          simp only [id] at hcause
          simp only [List.mem_cons, List.not_mem_nil, or_false, hcause] at hx
          rcases hx with hx | hx | hx | hx | hx
          · unfold Signature.stateAndOutput? at hx
            split at hx <;> simp at hx
          · simp [hinputs] at hx
          · rw [unresolved?_eq_none hparts hinputs horder] at hx
            cases hx
          · obtain ⟨w, -, hw⟩ := Option.map_eq_some_iff.1 hx.symm
            cases hw
          · unfold unknownSettings? at hx
            split at hx <;> simp at hx
        · simp [misconfigured] at h

end Composition

end Catchment
