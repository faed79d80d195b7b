import Catchment.Proofs.BucketModels
import Catchment.Proofs.RearrangedRoutes
import Catchment.Proofs.RouteRuns

/-!
# Rearranged parts

A part of a model is run on the rows that stand under the names of its inputs, and the names that
parts produce are all different. So the parts of a model that is sorted may stand in any order, as
may the fluxes of a bucket or of a route: the component is accepted again, and what it returns by
name is the same.
-/
namespace Catchment

variable {K : Type} [Scalar K] {n t : Nat} {args : RunArguments K} {s : Settings K}

namespace Component

/-- The second component has the names of the first one, in any order, and returns what the first
one returns by name. -/
structure Rearranges (c c' : Component K) : Prop where
  signature : c.signature.Rearranges c'.signature
  rowNames : c'.rowNames.Perm c.rowNames
  compute : ∀ {n t : Nat} (x : String → Grid [n, t] K) (args : RunArguments K) (s : Settings K)
    (out : Outcome n t K), c.compute args s (c.signature.inputs.map x) = .ok out →
      ∃ y : String → Grid [n, t] K, out.rows = c.rowNames.map y ∧ ∃ warnings,
        c'.compute args s (c'.signature.inputs.map x) = .ok ⟨c'.rowNames.map y, warnings⟩ ∧
          warnings.Perm out.warnings

/-- The second component has the names of the first one, in any order. Whatever the first one
returns for inputs by name are rows by name, and the second one returns them too for these inputs;
only the order of the warnings may differ. -/
structure SameByName (c c' : Component K) : Prop where
  signature : c.signature.Rearranges c'.signature
  rowNames : c'.rowNames.Perm c.rowNames
  run : ∀ {n t : Nat} (x : String → Grid [n, t] K) (single : Bool) (input input' : Nested K),
    (InputRows.named c.signature.inputs x single).Reads input →
      (InputRows.named c'.signature.inputs x single).Reads input' →
        ∀ (args : RunArguments K) (s : Settings K) (r : RunResult K),
          c.run input args s = .ok r →
            ∃ y : String → Grid [n, t] K, r.rows = (RunResult.named c.rowNames y single).rows ∧
              ∃ warnings, warnings.Perm r.warnings ∧ c'.run input' args s =
                .ok ⟨(RunResult.named c'.rowNames y single).rows, warnings⟩

theorem Rearranges.sameByName {c c' : Component K} (h : c.Rearranges c') : c.SameByName c' where
  signature := h.signature
  rowNames := h.rowNames
  run x single input input' hreads hreads' args s r hrun := by
    obtain ⟨-, out, hout, rfl⟩ := (run_eq_ok_of_reads hreads).1 hrun
    obtain ⟨y, hy, warnings, hout', hwarnings⟩ := h.compute x args s out hout
    refine ⟨y, ?_, warnings, hwarnings, ?_⟩
    · rw [hy]
      rfl
    · exact (run_eq_ok_of_reads hreads').2 ⟨List.length_map _, _, hout', rfl⟩

theorem rearranges_bucket {b b' : Bucket K} (h : b.Rearranges b')
    (hlaws : ∀ f ∈ b.fluxes, f.lawName? = none) : (bucket b).Rearranges (bucket b') where
  signature := h.signature
  rowNames := by
    show (b'.states ++ b'.outputs).Perm _
    rw [h.states]
    exact h.outputs.append_left _
  compute x args s out hout := by
    obtain ⟨d, hd, hout⟩ := bind_eq_ok.1 hout
    have hnetworks : b'.signature.networks = b.signature.networks := by
      rw [Bucket.networks_eq_nil hlaws, Bucket.networks_eq_nil (h.laws hlaws)]
    obtain ⟨params, hd', hparams⟩ := RunData.prepare_rearranged h.signature h.states hnetworks hd
    obtain ⟨y, hy, hout'⟩ := h.run hlaws hd hparams x hout
    exact ⟨y, hy, _, bind_eq_ok.2 ⟨_, hd', hout'⟩, .refl _⟩

theorem rearranges_route {r r' : Route K} (h : r.Rearranges r')
    (hlaws : ∀ f ∈ r.fluxes, f.lawName? = none) : (route r).Rearranges (route r') where
  signature := h.signature
  rowNames := by
    show (r'.states ++ r'.outputs).Perm _
    rw [h.states]
    exact h.outputs.append_left _
  compute x args s out hout := by
    obtain ⟨d, hd, hout⟩ := bind_eq_ok.1 hout
    obtain ⟨hsize, hd⟩ := prepareFor_route hd
    have hnetworks : r'.signature.networks = r.signature.networks := by
      rw [Route.networks_eq_nil hlaws, Route.networks_eq_nil (h.laws hlaws)]
    obtain ⟨params, hd', hparams⟩ := RunData.prepare_rearranged h.signature h.states hnetworks hd
    obtain ⟨y, hy, hout'⟩ := h.run hlaws hd hparams x hout
    refine ⟨y, hy, _, bind_eq_ok.2 ⟨_, ?_, hout'⟩, .refl _⟩
    rw [prepareFor_route_of_size (h.topology ▸ hsize)]
    exact hd'

theorem Composed.rowNames_perm {c : Component K} (hc : c.Composed) :
    c.rowNames.Perm c.signature.item.produces := by
  cases hc with
  | bucket b => exact .refl _
  | route r => exact .refl _
  | hydrograph u => exact .refl _
  | @model d _ _ built =>
    obtain ⟨-, ordered, -, -, rfl⟩ := Composition.build_eq_ok.1 built
    show (d.selected _).Perm (d.selectedSignature _).item.produces
    unfold Composition.selectedSignature Composition.selected
    cases d.outputs with
    | none => exact .refl _
    | some rows => exact (List.filter_append_perm _ rows).symm

end Component

namespace Composition

variable {d : Composition K} {parts ordered ordered' : List (Component K)}

theorem union_perm (f : Signature → List String) (h : ordered'.Perm ordered) :
    (orderedUnion (ordered'.map fun c => f c.signature)).Perm
      (orderedUnion (ordered.map fun c => f c.signature)) := orderedUnion_perm (h.map _)

theorem wholeSignature_rearranges (d : Composition K) (parts : List (Component K))
    (h : ordered'.Perm ordered) :
    (d.wholeSignature ordered).Rearranges ({ d with parts }.wholeSignature ordered') where
  inputs := by
    have hstates := union_perm Signature.states h
    have houtputs := union_perm Signature.outputs h
    simp only [wholeSignature]
    cases d.inputs with
    | some names => exact .refl _
    | none =>
      refine ((union_perm Signature.inputs h).filter _).trans (.of_eq ?_)
      refine List.filter_congr fun v _ => ?_
      simp only [List.contains_eq_mem, hstates.mem_iff, houtputs.mem_iff]
  states := union_perm Signature.states h
  outputs := union_perm Signature.outputs h
  params := union_perm Signature.params h
  networks := union_perm Signature.networks h

theorem selectedSignature_rearranges (h : ordered'.Perm ordered) :
    (d.selectedSignature (d.wholeSignature ordered)).Rearranges
      ({ d with parts }.selectedSignature ({ d with parts }.wholeSignature ordered')) := by
  have hwhole := wholeSignature_rearranges d parts h
  simp only [selectedSignature]
  cases d.outputs with
  | none => exact hwhole
  | some rows =>
    refine ⟨hwhole.inputs, ?_, ?_, hwhole.params, hwhole.networks⟩
    · refine .of_eq (List.filter_congr fun v _ => ?_)
      rw [List.contains_eq_mem, List.contains_eq_mem]
      exact decide_eq_decide.2 hwhole.states.mem_iff
    · refine .of_eq (List.filter_congr fun v _ => ?_)
      rw [List.contains_eq_mem, List.contains_eq_mem]
      exact congrArg (!·) (decide_eq_decide.2 hwhole.states.mem_iff)

theorem selected_perm (h : ordered'.Perm ordered) :
    ({ d with parts }.selected ({ d with parts }.wholeSignature ordered')).Perm
      (d.selected (d.wholeSignature ordered)) := by
  have hwhole := wholeSignature_rearranges d parts h
  simp only [selected]
  cases d.outputs with
  | none => exact hwhole.states.append hwhole.outputs
  | some rows => exact .refl _

theorem inputsProduced?_eq_none {whole : Signature} :
    inputsProduced? whole = none ↔ ∀ v ∈ whole.inputs, v ∉ whole.states ++ whole.outputs := by
  rw [← sortedNames_common_eq_nil]
  unfold inputsProduced?
  dsimp only
  split
  · rename_i hnil
    exact ⟨fun _ => hnil, fun _ => rfl⟩
  · rename_i hne
    exact ⟨fun h => (nomatch h), fun h => (hne h).elim⟩

theorem componentTwice?_eq_none :
    d.componentTwice? = none ↔ ∀ v ∈ d.partNames, d.partNames.count v ≤ 1 := by
  simp [componentTwice?]

theorem known_of_unresolved? {known : List String} (h : unresolved? known ordered = none)
    {c : Component K} (hc : c ∈ ordered) {v : String} (hv : v ∈ c.signature.inputs) :
    v ∈ known ∨ ∃ p ∈ ordered, v ∈ p.rowNames := by
  induction ordered generalizing known with
  | nil => exact nomatch hc
  | cons p ordered ih =>
    obtain ⟨hinputs, hrest⟩ := unresolved?_cons.1 h
    rcases List.mem_cons.1 hc with rfl | hc
    · exact .inl (hinputs v hv)
    · rcases ih hrest hc with hk | ⟨q, hq, hvq⟩
      · rcases List.mem_append.1 hk with hk | hk
        · exact .inl hk
        · exact .inr ⟨p, List.mem_cons_self, hk⟩
      · exact .inr ⟨q, List.mem_cons_of_mem p hq, hvq⟩

theorem mem_produced (hparts : ∀ c ∈ ordered, c.Composed) {v : String} :
    v ∈ (d.wholeSignature ordered).states ++ (d.wholeSignature ordered).outputs ↔
      v ∈ ordered.flatMap Component.rowNames := by
  simp only [wholeSignature, List.mem_append, mem_orderedUnion, List.mem_map,
    exists_exists_and_eq_and, List.mem_flatMap]
  rw [← exists_or]
  refine exists_congr fun c => ?_
  rw [← and_or_left]
  refine and_congr_right fun hc => ?_
  rw [(hparts c hc).mem_rowNames, Signature.item, List.mem_append]

/-- A model that was accepted takes none of its inputs from its parts. -/
theorem inputs_notMem (hparts : ∀ c ∈ ordered, c.Composed) (hfault : d.fault? ordered = none)
    {v : String} (hv : v ∈ (d.wholeSignature ordered).inputs) :
    v ∉ ordered.flatMap Component.rowNames := by
  rw [← mem_produced (d := d) hparts]
  obtain ⟨-, hproduced, -⟩ := fault?_eq_none.1 hfault
  cases hinputs : d.inputs with
  | none =>
    have hfree := ((mem_wholeSignature_inputs hinputs).1 hv).2
    rw [mem_produced hparts, List.mem_flatMap]
    rintro ⟨c, hc, hvc⟩
    exact hfree c hc ((hparts c hc).mem_rowNames.1 hvc)
  | some names =>
    rw [hinputs, Option.isSome_some, if_pos rfl, inputsProduced?_eq_none] at hproduced
    exact hproduced v hv

theorem nodup_rowNames (hparts : ∀ c ∈ ordered, c.Composed)
    (h : Item.InOrder (ordered.map fun c => c.signature.item)) :
    (ordered.flatMap Component.rowNames).Nodup := by
  have honce := h.once
  rw [List.flatMap_map] at honce
  exact (List.Perm.flatMap_left ordered fun c hc => (hparts c hc).rowNames_perm).nodup_iff.2 honce

/-- A model returns rows by name exactly if every part returns its own of these rows. -/
theorem compute_wiring_named (hparts : ∀ c ∈ ordered, c.Composed)
    (horder : Item.InOrder (ordered.map fun c => c.signature.item))
    (hfault : d.fault? ordered = none) {x : String → Grid [n, t] K} {out : Outcome n t K} :
    (Component.model (d.wiring ordered) ordered).compute args s
        ((d.wholeSignature ordered).inputs.map x) = .ok out ↔
      ∃ y : String → Grid [n, t] K, (∀ v ∈ (d.wholeSignature ordered).inputs, y v = x v) ∧
        (∀ c ∈ ordered, c.Returns args ((d.settings.lookup c.name).getD s) y) ∧
        out = ⟨(d.selected (d.wholeSignature ordered)).map y,
          ordered.flatMap fun c => c.warningsOver args ((d.settings.lookup c.name).getD s) y⟩ := by
  obtain ⟨-, -, hresolved, hcomputed, -⟩ := fault?_eq_none.1 hfault
  have hselect (y : String → Grid [n, t] K) :
      (RowTable.named ((d.wholeSignature ordered).inputs ++
        ordered.flatMap Component.rowNames) y).select (d.selected (d.wholeSignature ordered)) =
          .ok ((d.selected (d.wholeSignature ordered)).map y) :=
    RowTable.select_named fun v hv => List.mem_append_right _
      ((mem_produced hparts).1 (uncomputed?_eq_none.1 hcomputed v hv))
  rw [compute_wiring_eq_ok hparts (List.length_map _), ← RowTable.named_eq_zip]
  constructor
  · rintro ⟨table, htable, hrows⟩
    obtain ⟨y, hy, hresult, hreturns⟩ := Component.returns_of_runByName hparts
      (nodup_rowNames hparts horder) (fun v hv => inputs_notMem hparts hfault hv) hresolved htable
    obtain ⟨rfl, hwarnings⟩ := Prod.mk.inj hresult
    obtain ⟨rows, warnings⟩ := out
    obtain rfl := Except.ok.inj ((hselect y).symm.trans hrows)
    exact ⟨y, hy, hreturns, congrArg _ hwarnings⟩
  · rintro ⟨y, hy, hreturns, rfl⟩
    have hx : RowTable.named (d.wholeSignature ordered).inputs x =
        .named (d.wholeSignature ordered).inputs y :=
      List.map_congr_left fun v hv => by rw [hy v hv]
    rw [hx]
    exact ⟨_, Component.runByName_of_returns hresolved hreturns, hselect y⟩

/-- A composition that was accepted is accepted with its parts in any order that is in order. -/
theorem fault?_rearranged (hparts : ∀ c ∈ ordered, c.Composed) (hfault : d.fault? ordered = none)
    (hperm : parts.Perm d.parts) (h : ordered'.Perm ordered)
    (horder : Item.InOrder (ordered'.map fun c => c.signature.item)) :
    { d with parts }.fault? ordered' = none := by
  obtain ⟨hdisjoint, hproduced, hresolved, hcomputed, hsettings⟩ := fault?_eq_none.1 hfault
  have hwhole := wholeSignature_rearranges d parts h
  have hmem {v : String} : v ∈ ({ d with parts }.wholeSignature ordered').states ++
      ({ d with parts }.wholeSignature ordered').outputs ↔
        v ∈ (d.wholeSignature ordered).states ++ (d.wholeSignature ordered).outputs :=
    (hwhole.states.append hwhole.outputs).mem_iff
  refine fault?_eq_none.2 ⟨?_, ?_, ?_, ?_, ?_⟩
  · rw [Signature.stateAndOutput?_eq_none] at hdisjoint ⊢
    exact fun v hv ho => hdisjoint v (hwhole.states.mem_iff.1 hv) (hwhole.outputs.mem_iff.1 ho)
  · dsimp only
    split
    · rename_i hsome
      rw [if_pos hsome, inputsProduced?_eq_none] at hproduced
      exact inputsProduced?_eq_none.2 fun v hv ho =>
        hproduced v (hwhole.inputs.mem_iff.1 hv) (hmem.1 ho)
    · rfl
  · refine unresolved?_of_inOrder horder (fun c hc => hparts c (h.mem_iff.1 hc)) fun c hc v hv => ?_
    rcases known_of_unresolved? hresolved (h.mem_iff.1 hc) hv with hv | ⟨p, hp, hv⟩
    · exact .inl (hwhole.inputs.mem_iff.2 hv)
    · exact .inr ⟨p, h.mem_iff.2 hp, (hparts p hp).mem_rowNames.1 hv⟩
  · rw [uncomputed?_eq_none] at hcomputed ⊢
    exact fun v hv => hmem.2 (hcomputed v ((selected_perm h).mem_iff.1 hv))
  · rw [unknownSettings?_eq_none] at hsettings ⊢
    exact fun v hv => (hperm.map Component.name).mem_iff.2 (hsettings v hv)

/-- A model that sorts its parts accepts them in any order, and returns the same by name. -/
theorem build_rearranged (hparts : ∀ c ∈ d.parts, c.Composed) (hsort : d.sort = true)
    {c : Component K} (built : d.build = .ok c) (hperm : parts.Perm d.parts) :
    ∃ c', { d with parts }.build = .ok c' ∧ c.Rearranges c' := by
  obtain ⟨⟨hne, htwice⟩, ordered, hordered, hfault, rfl⟩ := build_eq_ok.1 built
  obtain ⟨hsorted, horder⟩ := order_eq_ok hordered
  obtain ⟨ordered', hordered'⟩ :=
    sortItems_exists "component" (hsorted.trans hperm.symm) horder
  have hordered' : { d with parts }.order = .ok ordered' := by
    rw [order, hsort, hordered']
  obtain ⟨hsorted', horder'⟩ := order_eq_ok hordered'
  have h : ordered'.Perm ordered := (hsorted'.trans hperm).trans hsorted.symm
  have hcomposed : ∀ c ∈ ordered, c.Composed := fun c hc => hparts c (hsorted.mem_iff.1 hc)
  have hcomposed' : ∀ c ∈ ordered', c.Composed := fun c hc => hcomposed c (h.mem_iff.1 hc)
  have hfault' := fault?_rearranged hcomposed hfault hperm h horder'
  have htwice' : { d with parts }.componentTwice? = none := by
    have hnames : ({ d with parts } : Composition K).partNames.Perm d.partNames := hperm.map _
    rw [componentTwice?_eq_none] at htwice ⊢
    exact fun v hv => hnames.count_eq v ▸ htwice v (hnames.mem_iff.1 hv)
  have hne' : parts ≠ [] := by
    rintro rfl
    exact hne hperm.nil_eq.symm
  refine ⟨_, build_eq_ok.2 ⟨⟨hne', htwice'⟩, ordered', hordered', hfault', rfl⟩,
    selectedSignature_rearranges h, selected_perm h, fun x args s out hout => ?_⟩
  have hinputs := (wholeSignature_rearranges d parts h).inputs
  have hread : (d.wiring ordered).signature.inputs = (d.wholeSignature ordered).inputs :=
    signature_wiring_inputs
  have hread' : ({ d with parts }.wiring ordered').signature.inputs =
      ({ d with parts }.wholeSignature ordered').inputs := signature_wiring_inputs
  obtain ⟨y, hy, hreturns, rfl⟩ := (compute_wiring_named hcomposed horder hfault).1 (hread ▸ hout)
  refine ⟨y, rfl, _, ?_, h.flatMap_right _⟩
  exact hread' ▸ (compute_wiring_named hcomposed' horder' hfault').2
    ⟨y, fun v hv => hy v (hinputs.mem_iff.1 hv), fun c hc => hreturns c (h.mem_iff.1 hc), rfl⟩

end Composition

theorem Bucket.toBucketDraft_of_ofDraft {d : BucketDraft K} {b : Bucket K}
    (h : ofDraft d = .ok b) : b.toBucketDraft = d := by
  unfold ofDraft at h
  split at h
  · simp [misconfigured] at h
  · split at h
    · simp at h
    · split at h
      · simp [misconfigured] at h
      · rw [← Except.ok.inj h]

theorem Route.toRouteDraft_of_ofDraft {d : RouteDraft K} {r : Route K}
    (h : ofDraft d = .ok r) : r.toRouteDraft = d := by
  unfold ofDraft at h
  split at h
  · simp at h
  · split at h
    · simp [misconfigured] at h
    · rw [← Except.ok.inj h]

theorem Bucket.Rearranges.symm {b b' : Bucket K} (h : b.Rearranges b') : b'.Rearranges b :=
  ⟨h.rates.symm, h.fluxes.symm⟩

theorem Route.Rearranges.symm {r r' : Route K} (h : r.Rearranges r') : r'.Rearranges r :=
  ⟨h.rates.symm, h.fluxes.symm, h.topology.symm, h.outflow.symm, h.inflow.symm⟩

/-- Declaration order carries no meaning when sorting is on: the fluxes of a bucket or a route and
the parts of a model are accepted in every other order, and the component that results is the same
by name. -/
theorem Component.order_of_sorted_irrelevant :
    (∀ (d : BucketDraft K) (b : Bucket K), Bucket.ofDraft d = .ok b → d.sort = true →
      (∀ f ∈ d.fluxes, f.lawName? = none) → ∀ fluxes : List (Declaration K),
        fluxes.Perm d.fluxes → ∃ b', Bucket.ofDraft { d with fluxes } = .ok b' ∧
          (bucket b).SameByName (bucket b') ∧ (bucket b').SameByName (bucket b)) ∧
    (∀ (d : RouteDraft K) (r : Route K), Route.ofDraft d = .ok r → d.sort = true →
      (∀ f ∈ d.fluxes, f.lawName? = none) → ∀ fluxes : List (Declaration K),
        fluxes.Perm d.fluxes → ∃ r', Route.ofDraft { d with fluxes } = .ok r' ∧
          (route r).SameByName (route r') ∧ (route r').SameByName (route r)) ∧
    (∀ (d : Composition K) (c : Component K), d.build = .ok c → d.sort = true →
      (∀ p ∈ d.parts, p.Composed) → ∀ parts : List (Component K), parts.Perm d.parts →
        ∃ c', { d with parts }.build = .ok c' ∧ c.SameByName c' ∧ c'.SameByName c) := by
  refine ⟨fun d b hb hsort hlaws fluxes hperm => ?_, fun d r hr hsort hlaws fluxes hperm => ?_,
    fun d c built hsort hparts parts hperm => ?_⟩
  · obtain rfl := Bucket.toBucketDraft_of_ofDraft hb
    obtain ⟨b', hb', h⟩ := Bucket.ofDraft_rearranged hsort hperm
    exact ⟨b', hb', (rearranges_bucket h hlaws).sameByName,
      (rearranges_bucket h.symm (h.laws hlaws)).sameByName⟩
  · obtain rfl := Route.toRouteDraft_of_ofDraft hr
    obtain ⟨r', hr', h⟩ := Route.ofDraft_rearranged hsort hperm
    exact ⟨r', hr', (rearranges_route h hlaws).sameByName,
      (rearranges_route h.symm (h.laws hlaws)).sameByName⟩
  · obtain ⟨c', built', h⟩ := Composition.build_rearranged hparts hsort built hperm
    obtain ⟨c'', built'', h'⟩ := Composition.build_rearranged (d := { d with parts })
      (fun p hp => hparts p (hperm.mem_iff.1 hp)) hsort built' hperm.symm
    obtain rfl := Except.ok.inj (built.symm.trans built'')
    exact ⟨c', built', h.sameByName, h'.sameByName⟩

def seepage : Flux Float :=
  ⟨{ name := "seepage", outputs := ["w"], inputs := ["q"], params := ["k"]
     exprs := [.binary .mul (.var "q") (.par "k")], law := none }, by decide⟩

def Bucket.seepingStore : BucketDraft Float :=
  { linearStore.toBucketDraft with fluxes := .flux seepage :: linearStore.fluxes }

def Route.seepingStores : RouteDraft Float :=
  { twoStores.toRouteDraft with fluxes := .flux seepage :: twoStores.fluxes }

theorem Component.order_of_stores_irrelevant :
    (∃ b b' : Bucket Float, Bucket.ofDraft Bucket.seepingStore = .ok b ∧
      Bucket.ofDraft { Bucket.seepingStore with fluxes := Bucket.seepingStore.fluxes.reverse } =
        .ok b' ∧ (bucket b).SameByName (bucket b')) ∧
    (∃ r r' : Route Float, Route.ofDraft Route.seepingStores = .ok r ∧
      Route.ofDraft { Route.seepingStores with fluxes := Route.seepingStores.fluxes.reverse } =
        .ok r' ∧ (route r).SameByName (route r')) ∧
    ∃ c c' : Component Float, Composition.chain.build = .ok c ∧
      { Composition.chain with parts := Composition.chain.parts.reverse }.build = .ok c' ∧
        c.SameByName c' := by
  obtain ⟨hbucket, hroute, hmodel⟩ := order_of_sorted_irrelevant (K := Float)
  have hb : Bucket.ofDraft Bucket.seepingStore = .ok _ :=
    Bucket.ofDraft_eq_ok rfl rfl (BucketDraft.fault?_eq_none.2 (by decide))
  have hr : Route.ofDraft Route.seepingStores = .ok _ :=
    Route.ofDraft_eq_ok rfl (RouteDraft.fault?_eq_none.2 (by decide))
  have hc := Composition.chain_build
  have hparts : ∀ p ∈ Composition.chain.parts, p.Composed :=
    List.forall_mem_cons.2 ⟨.bucket _, List.forall_mem_cons.2 ⟨.bucket _, nofun⟩⟩
  obtain ⟨b', hb', hsame, -⟩ := hbucket _ _ hb rfl (by decide) _ (List.reverse_perm _)
  obtain ⟨r', hr', hsame', -⟩ := hroute _ _ hr rfl (by decide) _ (List.reverse_perm _)
  obtain ⟨c', hc', hsame'', -⟩ := hmodel _ _ hc rfl hparts _ (List.reverse_perm _)
  exact ⟨⟨_, b', hb, hb', hsame⟩, ⟨_, r', hr, hr', hsame'⟩, _, c', hc, hc', hsame''⟩

end Catchment
