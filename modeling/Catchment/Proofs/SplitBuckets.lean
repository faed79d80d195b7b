import Catchment.Proofs.BucketModels

/-!
# Split buckets

In a model of buckets a later bucket reads the finished rows of the earlier ones; in the one bucket
of all their fluxes and rates the same values are computed anew at every step. Both return the same
rows by name, as long as no row loses the format of its values.
-/
namespace Catchment

namespace Composition

variable {K : Type} [Scalar K] {d : Composition K} {bs ordered : List (Bucket K)}
  {name : Option String} {m : Bucket K} {F : String → Format} {n t : Nat}
  {args : RunArguments K} {s : Settings K}

theorem mem_inputs_merged (h : d.OfBuckets ordered) (hbs : ordered.Perm bs)
    (hm : m.toBucketDraft = .merge name bs) {v : String} :
    v ∈ m.signature.inputs ↔ v ∈ (d.bucketModel ordered).signature.inputs := by
  rw [bucketModel_inputs, Bucket.mem_inputs_merge hm, mem_inputs_buckets h.inputs]
  simp only [hbs.mem_iff]

theorem rowNames_merged (h : d.OfBuckets ordered) (hbs : ordered.Perm bs)
    (hm : m.toBucketDraft = .merge name bs) :
    (m.states ++ m.outputs).Perm (d.bucketModel ordered).rowNames := by
  rw [bucketModel_rowNames, selected_default h.outputs,
    List.perm_ext_iff_of_nodup m.rowNames_nodup (nodup_produced h.disjoint)]
  intro v
  rw [mem_produced_buckets, hm, BucketDraft.states_merge, List.mem_append, List.mem_flatMap,
    BucketDraft.mem_outputs_merge, ← exists_or]
  simp only [hbs.mem_iff, List.mem_append, and_or_left]

section

variable [OrderedScalar K] {x : String → Grid [n, t] K} {single : Bool} {input input' : Nested K}
  {result : RunResult K}

/-- What a model of buckets returns, the merged bucket returns under the same names. -/
theorem merged_of_run (h : d.OfBuckets ordered) (hbs : ordered.Perm bs) (hne : bs ≠ [])
    (hm : m.toBucketDraft = .merge name bs)
    (hplain : (BucketDraft.merge name bs).Plain F) (hbackend : s.backend = .elementwise)
    (hn : 0 < n) (ht : 0 < t) (hs : s.Stepwise t)
    (hreads : (InputRows.named (d.bucketModel ordered).signature.inputs x single).Reads input)
    (hreads' : (InputRows.named m.signature.inputs x single).Reads input')
    (hrun : (d.bucketModel ordered).run input args s = .ok result) :
    ∃ y : String → Grid [n, t] K, result = .named (d.bucketModel ordered).rowNames y single ∧
      (Component.bucket m).run input' args s = .ok (.named (m.states ++ m.outputs) y single) := by
  obtain ⟨y, hy, rfl, hcompute⟩ :=
    h.named_of_run (fun b hb => hplain.of_mem (hbs.mem_iff.1 hb)) hbackend hs hreads hrun
  have hx : m.signature.inputs.map x = m.signature.inputs.map y :=
    List.map_congr_left fun v hv => (hy v ((mem_inputs_merged h hbs hm).1 hv)).symm
  have hmerged := (compute_merge hm hne hplain hbackend hs hn ht).2 fun b hb =>
    hcompute b (hbs.mem_iff.2 hb)
  rw [← hx] at hmerged
  exact ⟨y, rfl, Component.run_eq_ok.2 ⟨_, hreads', List.length_map _, _, hmerged, rfl⟩⟩

/-- What the merged bucket returns, the model of the buckets returns under the same names. -/
theorem run_of_merged (h : d.OfBuckets ordered) (hbs : ordered.Perm bs) (hne : bs ≠ [])
    (hm : m.toBucketDraft = .merge name bs)
    (hplain : (BucketDraft.merge name bs).Plain F) (hbackend : s.backend = .elementwise)
    (hn : 0 < n) (ht : 0 < t) (hs : s.Stepwise t)
    (hreads : (InputRows.named (d.bucketModel ordered).signature.inputs x single).Reads input)
    (hreads' : (InputRows.named m.signature.inputs x single).Reads input')
    (hrun : (Component.bucket m).run input' args s = .ok result) :
    ∃ y : String → Grid [n, t] K, result = .named (m.states ++ m.outputs) y single ∧
      (d.bucketModel ordered).run input args s =
        .ok (.named (d.bucketModel ordered).rowNames y single) := by
  obtain ⟨given, hgiven, -, out, hout, rfl⟩ := Component.run_eq_ok.1 hrun
  obtain rfl := hgiven.unique hreads'
  obtain ⟨y, rfl, hy⟩ := Bucket.compute_named (hm ▸ hplain) hbackend hs hout
  have hyx : ∀ v ∈ m.signature.inputs, y v = x v := fun v hv => hy v (Bucket.inputs_notMem hv)
  have hx : m.signature.inputs.map y = m.signature.inputs.map x := List.map_congr_left hyx
  have hmerged : (Component.bucket m).compute args s (m.signature.inputs.map y) =
      .ok ⟨(m.states ++ m.outputs).map y, []⟩ := hx ▸ hout
  have hcompute := (compute_merge hm hne hplain hbackend hs hn ht).1 hmerged
  exact ⟨y, rfl, h.run_of_named hreads (fun v hv => hyx v ((mem_inputs_merged h hbs hm).2 hv))
    fun b hb => hcompute b (hbs.mem_iff.1 hb)⟩

end

/-- A model of buckets and the one bucket of all their fluxes and rates. The bucket can be made,
reads the same names and has the same row names. With a fixed-step solver, the elementwise backend
and plain formats both return rows by name, and the one returns some rows exactly if the other
returns them. -/
theorem merging_preserves_runs [OrderedScalar K] {c : Component K}
    (hparts : d.parts = bs.map .bucket) (hinputs : d.inputs = none) (houtputs : d.outputs = none)
    (hsettings : d.settings = []) (built : d.build = .ok c) (name : Option String) :
    ∃ m, Bucket.ofDraft (.merge name bs) = .ok m ∧
      (∀ v, v ∈ (Component.bucket m).signature.inputs ↔ v ∈ c.signature.inputs) ∧
      (Component.bucket m).rowNames.Perm c.rowNames ∧
      ∀ (n t : Nat) (x : String → Grid [n, t] K) (single : Bool) (input input' : Nested K)
        (args : RunArguments K) (s : Settings K) (F : String → Format), 0 < n → 0 < t →
        s.Stepwise t → s.backend = .elementwise → (BucketDraft.merge name bs).Plain F →
        (InputRows.named c.signature.inputs x single).Reads input →
        (InputRows.named (Component.bucket m).signature.inputs x single).Reads input' →
        (∀ y : String → Grid [n, t] K,
          c.run input args s = .ok (.named c.rowNames y single) ↔
            (Component.bucket m).run input' args s =
              .ok (.named (Component.bucket m).rowNames y single)) ∧
        (∀ result, c.run input args s = .ok result →
          ∃ y : String → Grid [n, t] K, result = .named c.rowNames y single) ∧
        ∀ result, (Component.bucket m).run input' args s = .ok result →
          ∃ y : String → Grid [n, t] K, result = .named (Component.bucket m).rowNames y single := by
  obtain ⟨hne, ordered, hbs, h, rfl⟩ :=
    ofBuckets_of_build hparts hinputs houtputs hsettings built
  obtain ⟨m, hmerge, hm⟩ := BucketDraft.merge_exists name hbs h.order
  have hrows := rowNames_merged h hbs hm
  refine ⟨m, hmerge, fun v => mem_inputs_merged h hbs hm, hrows, ?_⟩
  intro n t x single input input' args s F hn ht hs hbackend hplain hreads hreads'
  have hnames {y z : String → Grid [n, t] K} : (m.states ++ m.outputs).map y =
      (m.states ++ m.outputs).map z ↔
      (d.bucketModel ordered).rowNames.map y = (d.bucketModel ordered).rowNames.map z := by
    simp only [List.map_inj_left, hrows.mem_iff]
  refine ⟨fun y => ⟨fun hrun => ?_, fun hrun => ?_⟩, fun result hrun => ?_, fun result hrun => ?_⟩
  · obtain ⟨z, hz, hrun'⟩ := merged_of_run h hbs hne hm hplain hbackend hn ht hs hreads hreads' hrun
    rw [hrun', RunResult.named, ← hnames.2 (RunResult.named_inj hz)]
    rfl
  · obtain ⟨z, hz, hrun'⟩ := run_of_merged h hbs hne hm hplain hbackend hn ht hs hreads hreads' hrun
    rw [hrun', RunResult.named, ← hnames.1 (RunResult.named_inj hz)]
    rfl
  · obtain ⟨y, hy, -⟩ := merged_of_run h hbs hne hm hplain hbackend hn ht hs hreads hreads' hrun
    exact ⟨y, hy⟩
  · obtain ⟨y, hy, -⟩ := run_of_merged h hbs hne hm hplain hbackend hn ht hs hreads hreads' hrun
    exact ⟨y, hy⟩

def ofFlux (f : Flux Float)
    (horder : BucketDraft.order ⟨some f.name, [.flux f], [], true⟩ = .ok [.flux f])
    (hfault : BucketDraft.fault? ⟨some f.name, [.flux f], [], true⟩ [.flux f] = none) :
    Bucket Float where
  name := some f.name
  fluxes := [.flux f]
  rates := []
  sort := true
  noRate := rfl
  ordered := [.flux f]
  order_eq := horder
  accepted := hfault

def below : Expr Float := .binary .lt (.var "x") (.const Scalar.one)

def tenthOf (e : Expr Float) : Expr Float :=
  .binary .mul (.binary .mul e (.const (Scalar.ratio 1 10))) (.var "x")

def root : Bucket Float :=
  ofFlux ⟨⟨"root", ["y"], ["x"], [], [.unary .sqrt below], none⟩, by decide⟩ rfl
    (BucketDraft.fault?_eq_none.2 (by decide))

def rootScaled : Bucket Float :=
  ofFlux ⟨⟨"scaled", ["w"], ["y", "x"], [], [tenthOf (.var "y")], none⟩, by decide⟩ rfl
    (BucketDraft.fault?_eq_none.2 (by decide))

def opposite : Bucket Float :=
  ofFlux ⟨⟨"opposite", ["y"], ["x"], [], [.unary .neg (.binary .pow below below)], none⟩,
    by decide⟩ rfl (BucketDraft.fault?_eq_none.2 (by decide))

def oppositeScaled : Bucket Float :=
  ofFlux ⟨⟨"scaled", ["w"], ["y", "x"], [], [tenthOf (.unary .sqrt (.unary .abs (.var "y")))],
    none⟩, by decide⟩ rfl (BucketDraft.fault?_eq_none.2 (by decide))

/-- A flux that is a bare constant. -/
def share : Bucket Float :=
  ofFlux ⟨⟨"share", ["y"], [], [], [.const (Scalar.ratio 1 10)], none⟩, by decide⟩ rfl
    (BucketDraft.fault?_eq_none.2 (by decide))

def shareScaled : Bucket Float :=
  ofFlux ⟨⟨"scaled", ["w"], ["y", "x"], [], [.binary .mul (.binary .mul (.unary .sqrt below)
    (.var "y")) (.var "x")], none⟩, by decide⟩ rfl (BucketDraft.fault?_eq_none.2 (by decide))

def modelOf (bs : List (Bucket Float)) : Composition Float where
  name := none
  parts := bs.map .bucket
  sort := true
  inputs := none
  outputs := none
  settings := []

theorem modelOf_build {bs ordered : List (Bucket Float)} (hne : bs ≠ [])
    (honce : (modelOf bs).componentTwice? = none)
    (horder : (modelOf bs).order = .ok (ordered.map .bucket))
    (hdisjoint : ((modelOf bs).wholeSignature (ordered.map .bucket)).stateAndOutput? = none)
    (hresolved : unresolved? ((modelOf bs).wholeSignature (ordered.map .bucket)).inputs
      (ordered.map .bucket) = none) :
    (modelOf bs).build = .ok ((modelOf bs).bucketModel ordered) := by
  have hparts : (modelOf bs).parts ≠ [] := by simpa [modelOf] using hne
  refine build_eq_ok.2 ⟨⟨hparts, honce⟩, _, horder, fault?_eq_none.2 ⟨hdisjoint, rfl, hresolved,
    uncomputed?_eq_none.2 fun v hv => hv, unknownSettings?_eq_none.2 fun v hv => nomatch hv⟩, rfl⟩

/-- A model of two buckets and their merged bucket return these rows for the number one half, and
the first flux has this format while the second one is a double. -/
def ReturnsFor (bs : List (Bucket Float)) (g : Format) (rows merged : List Float) : Prop :=
  let input : Nested Float := .list [.list [.entry (.real (Scalar.ratio 1 2))]]
  let F (v : String) : Format := if v = "y" then g else .double
  (∀ f ∈ (BucketDraft.merge none bs).formulas, f.2.format F = .ok (F f.1)) ∧
    ∃ c m, (modelOf bs).build = .ok c ∧ Bucket.ofDraft (.merge none bs) = .ok m ∧
      c.rowNames = ["y", "w"] ∧ (Component.bucket m).rowNames = ["y", "w"] ∧
      (∃ r, c.run input ⟨[], []⟩ .standard = .ok r ∧ r.rows.toList = rows) ∧
      ∃ r, (Component.bucket m).run input ⟨[], []⟩ .standard = .ok r ∧ r.rows.toList = merged

theorem root_returns : ReturnsFor [root, rootScaled] .half [Scalar.one, Scalar.ratio 1 20]
    [Scalar.one, Scalar.ratio 819 16384] := by
  have hbuild : (modelOf [root, rootScaled]).build = .ok ((modelOf [root, rootScaled]).bucketModel
      [root, rootScaled]) :=
    modelOf_build (by simp) rfl rfl (Signature.stateAndOutput?_eq_none.2 (by decide)) rfl
  exact ⟨List.forall_mem_cons.2 ⟨rfl, List.forall_mem_cons.2 ⟨rfl, nofun⟩⟩, _, _, hbuild,
    Bucket.ofDraft_eq_ok rfl rfl (BucketDraft.fault?_eq_none.2 (by decide)), rfl, rfl,
    exists_ok_of_check (by decide +kernel), exists_ok_of_check (by decide +kernel)⟩

theorem opposite_returns : ReturnsFor [opposite, oppositeScaled] .int8
    [Scalar.ofInt (-1), Scalar.ratio 1 20] [Scalar.ofInt (-1), Scalar.ratio 819 16384] := by
  have hbuild : (modelOf [opposite, oppositeScaled]).build =
      .ok ((modelOf [opposite, oppositeScaled]).bucketModel [opposite, oppositeScaled]) :=
    modelOf_build (by simp) rfl rfl (Signature.stateAndOutput?_eq_none.2 (by decide)) rfl
  exact ⟨List.forall_mem_cons.2 ⟨rfl, List.forall_mem_cons.2 ⟨rfl, nofun⟩⟩, _, _, hbuild,
    Bucket.ofDraft_eq_ok rfl rfl (BucketDraft.fault?_eq_none.2 (by decide)), rfl, rfl,
    exists_ok_of_check (by decide +kernel), exists_ok_of_check (by decide +kernel)⟩

theorem share_returns : ReturnsFor [share, shareScaled] .literal
    [Scalar.ratio 1 10, Scalar.ratio 1 20] [Scalar.ratio 1 10, Scalar.ratio 819 16384] := by
  have hbuild : (modelOf [share, shareScaled]).build =
      .ok ((modelOf [share, shareScaled]).bucketModel [share, shareScaled]) :=
    modelOf_build (by simp) rfl rfl (Signature.stateAndOutput?_eq_none.2 (by decide)) rfl
  exact ⟨List.forall_mem_cons.2 ⟨rfl, List.forall_mem_cons.2 ⟨rfl, nofun⟩⟩, _, _, hbuild,
    Bucket.ofDraft_eq_ok rfl rfl (BucketDraft.fault?_eq_none.2 (by decide)), rfl, rfl,
    exists_ok_of_check (by decide +kernel), exists_ok_of_check (by decide +kernel)⟩

/-- A number of half precision and an integer of eight bits become doubles between the buckets of a
model, and a constant that meets a number of half precision meets it in double precision. -/
theorem half_precision_differs :
    ReturnsFor [root, rootScaled] .half [Scalar.one, Scalar.ratio 1 20]
        [Scalar.one, Scalar.ratio 819 16384] ∧
      ReturnsFor [opposite, oppositeScaled] .int8 [Scalar.ofInt (-1), Scalar.ratio 1 20]
        [Scalar.ofInt (-1), Scalar.ratio 819 16384] ∧
      ReturnsFor [share, shareScaled] .literal [Scalar.ratio 1 10, Scalar.ratio 1 20]
        [Scalar.ratio 1 10, Scalar.ratio 819 16384] ∧
      (Scalar.ratio 1 20 : Float) ≠ Scalar.ratio 819 16384 :=
  ⟨root_returns, opposite_returns, share_returns, by decide⟩

def lowerStore : Bucket Float where
  name := some "lower"
  fluxes := [.flux ⟨{
    name := "seepage", outputs := ["w"], inputs := ["g"], params := ["k"]
    exprs := [.binary .mul (.var "g") (.par "k")], law := none }, by decide⟩]
  rates := [⟨{
    name := "content", state := "g", inputs := ["q", "w"], params := []
    expr := .binary .sub (.var "q") (.var "w") }, by decide⟩]
  sort := true
  noRate := rfl
  ordered := _
  order_eq := rfl
  accepted := BucketDraft.fault?_eq_none.2 (by decide)

theorem cascade_plain :
    (BucketDraft.merge none [lowerStore, Bucket.linearStore]).Plain (fun _ => .double) where
  laws := by decide
  free := by decide
  formats := by
    refine ⟨fun _ => .inl rfl, List.forall_mem_cons.2 ⟨?_, List.forall_mem_cons.2 ⟨?_, ?_⟩⟩,
      by decide⟩
    · exact fun g hg => (Except.ok.inj hg).symm
    · exact fun g hg => (Except.ok.inj hg).symm
    · exact fun f hf => nomatch hf
  rates := by decide

def cascadeRows : String → Grid [1, 2] Float
  | "s" => ⟨#v[Scalar.one, Scalar.ratio 3 2]⟩
  | "q" => ⟨#v[Scalar.ratio 1 2, Scalar.ratio 3 4]⟩
  | "g" => ⟨#v[Scalar.zero, Scalar.ratio 1 2]⟩
  | "w" => ⟨#v[Scalar.zero, Scalar.ratio 1 4]⟩
  | _ => Grid.replicate Scalar.one

theorem cascade_run :
    let one : Nested Float := .entry (.real Scalar.one)
    let args : RunArguments Float := ⟨[("k", .entry (.real (Scalar.ratio 1 2)))], [("s", one)]⟩
    ∃ c m, (modelOf [lowerStore, Bucket.linearStore]).build = .ok c ∧
      Bucket.ofDraft (.merge none [lowerStore, Bucket.linearStore]) = .ok m ∧
      c.run (.list [.list [one, one]]) args .standard =
        .ok (.named ["s", "g", "q", "w"] cascadeRows true) ∧
      (Component.bucket m).run (.list [.list [one, one]]) args .standard =
        .ok (.named ["g", "s", "w", "q"] cascadeRows true) := by
  intro one args
  have hbuild : (modelOf [lowerStore, Bucket.linearStore]).build =
      .ok ((modelOf [lowerStore, Bucket.linearStore]).bucketModel
        [Bucket.linearStore, lowerStore]) :=
    modelOf_build (by simp) rfl rfl (Signature.stateAndOutput?_eq_none.2 (by decide)) rfl
  obtain ⟨m, hm, -, -, hrun⟩ := merging_preserves_runs rfl rfl rfl rfl hbuild none
  obtain rfl := Except.ok.inj (hm.symm.trans
    (Bucket.ofDraft_eq_ok rfl rfl (BucketDraft.fault?_eq_none.2 (by decide))))
  have hstepwise : (Settings.standard : Settings Float).Stepwise 2 := by
    refine ⟨by decide, fun times htimes => ?_⟩
    obtain rfl := Except.ok.inj htimes
    exact ⟨by decide, by decide⟩
  obtain ⟨r, hr, hwarnings, hshape, hrows⟩ : ∃ r,
      ((modelOf [lowerStore, Bucket.linearStore]).bucketModel [Bucket.linearStore, lowerStore]).run
        (.list [.list [one, one]]) args .standard = .ok r ∧ r.warnings = [] ∧
          r.rows.shape = [4, 2] ∧ r.rows.toList =
            (RunResult.named ["s", "g", "q", "w"] cascadeRows true).rows.toList :=
    exists_ok_of_check (by decide +kernel)
  obtain rfl : r = .named ["s", "g", "q", "w"] cascadeRows true := by
    obtain ⟨rows, warnings⟩ := r
    rw [show rows = _ from Tensor.ext_toList hshape hrows, show warnings = _ from hwarnings]
    rfl
  exact ⟨_, _, hbuild, hm, hr, ((hrun 1 2 cascadeRows true _ _ args .standard _ (by decide)
    (by decide) hstepwise rfl cascade_plain ⟨_, rfl, rfl⟩ ⟨_, rfl, rfl⟩).1 cascadeRows).1 hr⟩

end Composition

end Catchment
