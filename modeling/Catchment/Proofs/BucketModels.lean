import Catchment.Proofs.MergedBuckets
import Catchment.Proofs.NamedParts

/-!
# Models of buckets

A model of buckets returns rows by name exactly if every bucket returns its own of these rows on the
others.
-/
namespace Catchment

variable {K : Type} {n t : Nat}

/-- Rows by name as an input. -/
def InputRows.named (names : List String) (x : String → Grid [n, t] K) (single : Bool) :
    InputRows K := ⟨n, t, names.map x, single⟩

/-- Rows by name as a result without warnings. -/
def RunResult.named (names : List String) (y : String → Grid [n, t] K) (single : Bool) :
    RunResult K := ⟨Outcome.toTensor ⟨names.map y, []⟩ single, []⟩

theorem Tensor.stack_inj {s : Shape} {gs hs : List (Grid s K)}
    (h : Tensor.ofGrid (Grid.stack gs) = Tensor.ofGrid (Grid.stack hs)) : gs = hs := by
  have hrows (gs : List (Grid s K)) :
      (Tensor.ofGrid (Grid.stack gs)).rows? = some (gs.map Tensor.ofGrid) :=
    congrArg (fun rows => some (List.map Tensor.ofGrid rows)) (Grid.rows_stack gs)
  have h := congrArg Tensor.rows? h
  rw [hrows, hrows, Option.some.injEq] at h
  exact List.map_injective_iff.2 (fun g g' hg => eq_of_heq (Tensor.mk.inj hg).2) h

theorem Grid.reshape_inj {s u : Shape} {g g' : Grid s K} {h : s.size = u.size}
    (heq : g.reshape h = g'.reshape h) : g = g' := by
  cases g
  cases g'
  simpa [reshape] using heq

theorem Outcome.rows_eq_of_toTensor {o o' : Outcome n t K} {single : Bool}
    (h : o.toTensor single = o'.toTensor single) : o.rows = o'.rows := by
  unfold toTensor at h
  split at h
  · have hrows := Tensor.stack_inj h
    refine List.map_injective_iff.2 (fun g g' hg => ?_) hrows
    exact Grid.reshape_inj hg
  · exact Tensor.stack_inj h

theorem RunResult.named_inj {names : List String} {y y' : String → Grid [n, t] K} {single : Bool}
    (h : named names y single = named names y' single) : names.map y = names.map y' :=
  Outcome.rows_eq_of_toTensor (congrArg RunResult.rows h)

theorem RunResult.eq_named {x : Except Fault (RunResult K)} {names : List String}
    {y : String → Grid [n, t] K} {single : Bool}
    (h : ∃ r, x = .ok r ∧ r.warnings = [] ∧ r.rows.shape = (named names y single).rows.shape ∧
      r.rows.toList = (named names y single).rows.toList) : x = .ok (.named names y single) := by
  obtain ⟨⟨rows, warnings⟩, rfl, rfl, hshape, hlist⟩ := h
  exact congrArg (fun rows => Except.ok (RunResult.mk rows [])) (Tensor.ext_toList hshape hlist)

variable [Scalar K] [OrderedScalar K] {F : String → Format} {bs : List (Bucket K)}
  {args : RunArguments K} {s : Settings K} {known : List String}

namespace Component

omit [OrderedScalar K] in
theorem composed_buckets : ∀ c ∈ bs.map bucket, c.Composed :=
  List.forall_mem_map.2 fun b _ => .bucket b

theorem returns_bucket {b : Bucket K} (hb : b.Plain F) (hbackend : s.backend = .elementwise)
    (hs : s.Stepwise t)
    {y : String → Grid [n, t] K} (h : (bucket b).Returns args s y) :
    (bucket b).compute args s (b.signature.inputs.map y) =
      .ok ⟨(b.states ++ b.outputs).map y, []⟩ := by
  obtain ⟨z, hz, -⟩ := Bucket.compute_named hb hbackend hs h
  have hwarnings : (bucket b).warningsOver args s y = [] := congrArg Outcome.warnings hz
  rw [← hwarnings]
  exact h

omit [OrderedScalar K] in
theorem warningsOver_buckets {y : String → Grid [n, t] K}
    (h : ∀ b ∈ bs, (bucket b).compute args s (b.signature.inputs.map y) =
      .ok ⟨(b.states ++ b.outputs).map y, []⟩) :
    ((bs.map bucket).flatMap fun c => c.warningsOver args s y) = [] := by
  rw [List.flatMap_map, List.flatMap_eq_nil_iff]
  intro b hb
  rw [warningsOver, signature, h b hb]

end Component

/-- Buckets that run one after the other return rows by name, each on the rows of the others. -/
theorem runByName_named (hb : ∀ b ∈ bs, b.Plain F) (hbackend : s.backend = .elementwise)
    (hs : s.Stepwise t)
    {x : String → Grid [n, t] K} (hnew : (known ++ bs.flatMap fun b => b.states ++ b.outputs).Nodup)
    (hknown : Composition.unresolved? known (bs.map .bucket) = none)
    {result : RowTable n t K × List String}
    (h : runByName args (fun _ => s) (bs.map .bucket) (.named known x) = .ok result) :
    ∃ y : String → Grid [n, t] K, (∀ v ∈ known, y v = x v) ∧
      result = (.named (known ++ bs.flatMap fun b => b.states ++ b.outputs) y, []) ∧
      ∀ b ∈ bs, (Component.bucket b).compute args s (b.signature.inputs.map y) =
        .ok ⟨(b.states ++ b.outputs).map y, []⟩ := by
  have hnames : (bs.map Component.bucket).flatMap Component.rowNames =
      bs.flatMap fun b => b.states ++ b.outputs := List.flatMap_map ..
  obtain ⟨-, hown, hdisjoint⟩ := List.nodup_append.1 hnew
  obtain ⟨y, hyx, rfl, hreturns⟩ := Component.returns_of_runByName Component.composed_buckets
    (hnames ▸ hown) (fun v hv hvb => hdisjoint v hv v (hnames ▸ hvb) rfl) hknown h
  have hcompute (b : Bucket K) (hmem : b ∈ bs) :=
    Component.returns_bucket (hb b hmem) hbackend hs (hreturns _ (List.mem_map_of_mem hmem))
  exact ⟨y, hyx, by rw [hnames, Component.warningsOver_buckets hcompute], hcompute⟩

omit [OrderedScalar K] in
/-- Rows by name that every bucket returns are what the buckets return one after the other. -/
theorem runByName_of_compute {y : String → Grid [n, t] K}
    (hknown : Composition.unresolved? known (bs.map .bucket) = none)
    (h : ∀ b ∈ bs, (Component.bucket b).compute args s (b.signature.inputs.map y) =
      .ok ⟨(b.states ++ b.outputs).map y, []⟩) :
    runByName args (fun _ => s) (bs.map .bucket) (.named known y) =
      .ok (.named (known ++ bs.flatMap fun b => b.states ++ b.outputs) y, []) := by
  refine (Component.runByName_of_returns hknown (List.forall_mem_map.2 fun b hb =>
    Component.returns_iff.2 ⟨[], h b hb⟩)).trans ?_
  rw [Component.warningsOver_buckets h, List.flatMap_map]
  rfl

namespace Composition

omit [OrderedScalar K] in
theorem ordered_buckets {d : Composition K} (hparts : d.parts = bs.map .bucket)
    {ordered : List (Component K)} (hperm : ordered.Perm d.parts) :
    ∃ bs' : List (Bucket K), ordered = bs'.map .bucket ∧ bs'.Perm bs := by
  have hall : ∀ c ∈ ordered, ∃ b : Bucket K, c = .bucket b := by
    intro c hc
    rw [hperm.mem_iff, hparts] at hc
    obtain ⟨b, -, rfl⟩ := List.mem_map.1 hc
    exact ⟨b, rfl⟩
  obtain ⟨bs', hbs⟩ := forall₂_exists.2 hall
  have hordered : ordered = bs'.map .bucket := by
    rw [← List.forall₂_eq_eq_eq, List.forall₂_map_right_iff]
    exact hbs
  refine ⟨bs', hordered, ?_⟩
  rw [hordered, hparts] at hperm
  exact (List.map_perm_map_iff fun _ _ h => Component.bucket.inj h).1 hperm

omit [OrderedScalar K]

variable {d : Composition K}

theorem mem_inputs_buckets (hinputs : d.inputs = none) {v : String} :
    v ∈ (d.wholeSignature (bs.map .bucket)).inputs ↔ (∃ b ∈ bs, v ∈ b.signature.inputs) ∧
      ∀ b ∈ bs, v ∉ b.states ++ b.outputs := by
  rw [mem_wholeSignature_inputs hinputs]
  simp only [List.mem_map, exists_exists_and_eq_and, forall_exists_index, and_imp,
    forall_apply_eq_imp_iff₂]
  exact .rfl

theorem mem_produced_buckets {v : String} :
    v ∈ (d.wholeSignature (bs.map .bucket)).states ++
        (d.wholeSignature (bs.map .bucket)).outputs ↔ ∃ b ∈ bs, v ∈ b.states ++ b.outputs := by
  simp only [wholeSignature, List.mem_append, mem_orderedUnion, List.mem_map,
    exists_exists_and_eq_and, and_or_left, exists_or]
  exact .rfl

theorem nodup_inputs (hinputs : d.inputs = none) (ordered : List (Component K)) :
    (d.wholeSignature ordered).inputs.Nodup := by
  simp only [wholeSignature, hinputs, Option.getD_none]
  exact (nodup_orderedUnion _).filter _

theorem nodup_produced {ordered : List (Component K)}
    (h : (d.wholeSignature ordered).stateAndOutput? = none) :
    ((d.wholeSignature ordered).states ++ (d.wholeSignature ordered).outputs).Nodup := by
  refine List.nodup_append.2 ⟨nodup_orderedUnion _, nodup_orderedUnion _, ?_⟩
  rintro v hv w hw rfl
  exact Signature.stateAndOutput?_eq_none.1 h v hv hw

theorem nodup_known (hinputs : d.inputs = none)
    (h : Item.InOrder (bs.map fun b => b.signature.item)) :
    ((d.wholeSignature (bs.map .bucket)).inputs ++
      bs.flatMap fun b => b.states ++ b.outputs).Nodup := by
  have honce := h.once
  rw [List.flatMap_map] at honce
  refine List.nodup_append.2 ⟨nodup_inputs hinputs _, honce, ?_⟩
  rintro v hv w hw rfl
  obtain ⟨b, hb, hvb⟩ := List.mem_flatMap.1 hw
  exact ((mem_inputs_buckets hinputs).1 hv).2 b hb hvb

theorem selected_default (houtputs : d.outputs = none) (whole : Signature) :
    d.selected whole = whole.states ++ whole.outputs := by
  rw [selected, houtputs]
  rfl

theorem select_buckets (houtputs : d.outputs = none) (y : String → Grid [n, t] K) :
    (RowTable.named ((d.wholeSignature (bs.map .bucket)).inputs ++
        bs.flatMap fun b => b.states ++ b.outputs) y).select
      (d.selected (d.wholeSignature (bs.map .bucket))) =
        .ok ((d.selected (d.wholeSignature (bs.map .bucket))).map y) := by
  refine RowTable.select_named fun v hv => List.mem_append_right _ ?_
  rw [selected_default houtputs] at hv
  exact List.mem_flatMap.2 (mem_produced_buckets.1 hv)

structure OfBuckets (d : Composition K) (bs : List (Bucket K)) : Prop where
  inputs : d.inputs = none
  outputs : d.outputs = none
  settings : d.settings = []
  order : Item.InOrder (bs.map fun b => b.signature.item)
  resolved : unresolved? (d.wholeSignature (bs.map .bucket)).inputs (bs.map .bucket) = none
  disjoint : (d.wholeSignature (bs.map .bucket)).stateAndOutput? = none

def bucketModel (d : Composition K) (bs : List (Bucket K)) : Component K :=
  .model (d.wiring (bs.map .bucket)) (bs.map .bucket)

theorem bucketModel_inputs :
    (d.bucketModel bs).signature.inputs = (d.wholeSignature (bs.map .bucket)).inputs :=
  signature_wiring_inputs

theorem bucketModel_rowNames : (d.bucketModel bs).rowNames =
    d.selected (d.wholeSignature (bs.map .bucket)) := rfl

namespace OfBuckets

/-- What a model of buckets returns are rows by name that every bucket returns. -/
theorem named_of_run [OrderedScalar K] (h : d.OfBuckets bs)
    (hb : ∀ b ∈ bs, b.Plain F) (hbackend : s.backend = .elementwise) (hs : s.Stepwise t)
    {x : String → Grid [n, t] K} {single : Bool} {input : Nested K}
    (hreads : (InputRows.named (d.bucketModel bs).signature.inputs x single).Reads input)
    {result : RunResult K} (hrun : (d.bucketModel bs).run input args s = .ok result) :
    ∃ y : String → Grid [n, t] K, (∀ v ∈ (d.bucketModel bs).signature.inputs, y v = x v) ∧
      result = .named (d.bucketModel bs).rowNames y single ∧
      ∀ b ∈ bs, (Component.bucket b).compute args s (b.signature.inputs.map y) =
        .ok ⟨(b.states ++ b.outputs).map y, []⟩ := by
  rw [bucketModel_inputs] at hreads ⊢
  obtain ⟨given, hgiven, -, table, rows, warnings, htable, hrows, rfl⟩ :=
    (run_wiring_eq_ok Component.composed_buckets).1 hrun
  obtain rfl := hgiven.unique hreads
  rw [h.settings] at htable
  obtain ⟨y, hy, hresult, hcompute⟩ := runByName_named hb hbackend hs (nodup_known h.inputs h.order)
    h.resolved ((congrArg _ (RowTable.named_eq_zip _ x)).trans htable)
  obtain ⟨rfl, rfl⟩ := Prod.mk.inj hresult
  obtain rfl := Except.ok.inj ((select_buckets h.outputs y).symm.trans hrows)
  exact ⟨y, hy, rfl, hcompute⟩

/-- Rows by name that every bucket returns are what the model of the buckets returns. -/
theorem run_of_named (h : d.OfBuckets bs) {x y : String → Grid [n, t] K} {single : Bool}
    {input : Nested K}
    (hreads : (InputRows.named (d.bucketModel bs).signature.inputs x single).Reads input)
    (hy : ∀ v ∈ (d.bucketModel bs).signature.inputs, y v = x v)
    (hcompute : ∀ b ∈ bs, (Component.bucket b).compute args s (b.signature.inputs.map y) =
      .ok ⟨(b.states ++ b.outputs).map y, []⟩) :
    (d.bucketModel bs).run input args s =
      .ok (.named (d.bucketModel bs).rowNames y single) := by
  have hx : (d.bucketModel bs).signature.inputs.map x = (d.bucketModel bs).signature.inputs.map y :=
    List.map_congr_left fun v hv => (hy v hv).symm
  rw [bucketModel_inputs] at hreads hx
  refine (run_wiring_eq_ok Component.composed_buckets).2 ⟨_, hreads, List.length_map _, _, _, _, ?_,
    select_buckets h.outputs y, rfl⟩
  rw [h.settings]
  refine Eq.trans ?_ (runByName_of_compute h.resolved hcompute)
  show runByName _ _ _ (List.zip _ (List.map x _)) = _
  rw [hx, ← RowTable.named_eq_zip]
  rfl

end OfBuckets

/-- A model that was built of buckets is their model in an order of execution. -/
theorem ofBuckets_of_build {c : Component K} (hparts : d.parts = bs.map .bucket)
    (hinputs : d.inputs = none) (houtputs : d.outputs = none) (hsettings : d.settings = [])
    (built : d.build = .ok c) :
    bs ≠ [] ∧ ∃ bs', bs'.Perm bs ∧ d.OfBuckets bs' ∧ c = d.bucketModel bs' := by
  obtain ⟨⟨hne, -⟩, ordered, hordered, hfault, rfl⟩ := build_eq_ok.1 built
  obtain ⟨hperm, horder⟩ := order_eq_ok hordered
  obtain ⟨bs', rfl, hbs⟩ := ordered_buckets hparts hperm
  obtain ⟨hdisjoint, -, hresolved, -⟩ := fault?_eq_none.1 hfault
  rw [List.map_map] at horder
  refine ⟨?_, bs', hbs, ⟨hinputs, houtputs, hsettings, horder, hresolved, hdisjoint⟩, rfl⟩
  rintro rfl
  exact hne hparts

end Composition

end Catchment
