import Catchment.Proofs.BucketModels
import Catchment.Proofs.FormattedRuns
import Catchment.Proofs.RouteRuns

/-!
# Routes as buckets

A route whose fluxes and rates are made into a bucket: the bucket that is given the inflow row of the
route returns the other rows of the route. Without edges the inflow row is zero, and then the route
returns what the bucket returns. The rates of a bucket read the fluxes as they were computed and the
rates of a route read them as doubles, so the formats of the fluxes must not matter to the rates.
-/
namespace Catchment

variable {K : Type} [Scalar K] {n t : Nat}

/-- Names that stand for doubles or for literals which meet no number of half precision may as well
all stand for doubles. -/
theorem Expr.valueAt_doubles {F : String → Format} {e : Expr K} (hsteady : e.steady F = true)
    (hplain : ∀ v ∈ e.reads, F v = .double ∨ F v = .literal) (z p : String → K) (x : K) :
    e.valueAt .elementwise F z p = .ok x ↔
      e.valueAt .elementwise (fun _ => .double) z p = .ok x := by
  have halike : Alike F e (e.evalCell (Scope.named F z) (Scope.doubles p))
      (e.evalCell (Scope.named (fun _ => .double) z) (Scope.doubles p)) := by
    refine Expr.evalCell_alike hsteady (fun v hv => ⟨.double (z v), rfl, rfl, ?_⟩) fun _ _ => rfl
    exact (hplain v hv).imp_right fun hv => ⟨hv, rfl⟩
  simp only [Expr.valueAt, bind_eq_ok, pure_eq_ok, Except.ok.injEq]
  constructor
  · rintro ⟨c, hc, rfl⟩
    obtain ⟨c', hc', hnear, -⟩ := halike.of_ok hc
    exact ⟨c', hc', hnear.1.symm⟩
  · rintro ⟨c', hc', rfl⟩
    obtain ⟨c, hc, hnear, -⟩ := halike.ok_of hc'
    exact ⟨c, hc, hnear.1⟩

theorem Component.run_named_iff {c : Component K} {x y : String → Grid [n, t] K} {single : Bool}
    {input : Nested K} {args : RunArguments K} {s : Settings K} {names : List String}
    (h : (InputRows.named c.signature.inputs x single).Reads input) :
    c.run input args s = .ok (.named names y single) ↔
      c.compute args s (c.signature.inputs.map x) = .ok ⟨names.map y, []⟩ := by
  rw [run_eq_ok_of_reads h]
  constructor
  · rintro ⟨-, ⟨rows, warnings⟩, hcompute, hresult⟩
    obtain rfl : [] = warnings := congrArg RunResult.warnings hresult
    have hrows : names.map y = rows :=
      Outcome.rows_eq_of_toTensor (congrArg RunResult.rows hresult)
    rw [hrows]
    exact hcompute
  · exact fun hcompute => ⟨List.length_map _, _, hcompute, rfl⟩

/-- The bucket with the fluxes and the rates of a route. -/
def RouteDraft.bucket (d : RouteDraft K) (name : Option String) : BucketDraft K where
  name
  fluxes := d.fluxes
  rates := d.rates
  sort := d.sort

namespace Route

variable {r : Route K} {name : Option String}

def toBucket (r : Route K) (name : Option String) (h : ∀ d, Declaration.state d ∉ r.fluxes) :
    Bucket K where
  toBucketDraft := r.bucket name
  noRate := BucketDraft.rateAmongFluxes?_eq_none.2 h
  ordered := r.ordered
  order_eq := r.order_eq
  accepted := BucketDraft.fault?_eq_none.2
    ⟨r.states_nodup, fun s hs hout => r.state_notMem_outputs s hs (r.mem_outputs.2 (.inl hout))⟩

theorem ofDraft_bucket (h : ∀ d, Declaration.state d ∉ r.fluxes) :
    Bucket.ofDraft (r.bucket name) = .ok (r.toBucket name h) := Bucket.ofDraft_eq_ok _ _ _

theorem reads_inflow (h : ∀ d, Declaration.state d ∉ r.fluxes) :
    ∀ f ∈ r.ordered, r.inflow ∉ f.reads := by
  intro f hf
  cases f with
  | state d => exact absurd (r.ordered_perm.mem_iff.1 hf) (h d)
  | _ => exact r.inflow_notMem_inputs _ hf

/-- The bucket reads what the route reads, and the inflow if a rate reads it. -/
theorem mem_inputs_toBucket (h : ∀ d, Declaration.state d ∉ r.fluxes) {v : String} :
    v ∈ (r.toBucket name h).signature.inputs ↔
      v ∈ r.signature.inputs ∨ v = r.inflow ∧ ∃ d ∈ r.rates, r.inflow ∈ d.reads := by
  have hbucket : v ∈ (r.toBucket name h).signature.inputs ↔
      (∃ f ∈ r.fluxes ++ r.rates.map Declaration.state, v ∈ f.reads) ∧ v ∉ r.fluxOutputs ∧
        v ∉ r.states := Signature.mem_inputs_ofDeclarations
  rw [hbucket, r.mem_inputs, r.mem_outputs]
  by_cases hv : v = r.inflow
  · subst hv
    have hstate : r.inflow ∉ r.states :=
      fun hs => r.state_notMem_outputs _ hs (r.mem_outputs.2 (.inr rfl))
    simp only [r.inflow_notMem, hstate, not_false_eq_true, and_true, true_and, or_true,
      not_true_eq_false, and_false, false_or]
    constructor
    · rintro ⟨f, hf, hread⟩
      rcases List.mem_append.1 hf with hf | hf
      · exact absurd hread (reads_inflow h f (r.ordered_perm.mem_iff.2 hf))
      · obtain ⟨d, hd, rfl⟩ := List.mem_map.1 hf
        exact ⟨d, hd, hread⟩
    · rintro ⟨d, hd, hread⟩
      exact ⟨.state d, List.mem_append_right _ (List.mem_map_of_mem hd), hread⟩
  · simp only [hv, or_false, false_and]

/-- Every flux that a rate reads is a double, or a literal which meets no number of half precision
there. -/
def PlainRates (r : Route K) : Prop :=
  ∀ d ∈ r.rates, d.expr.steady r.formats = true ∧
    ∀ v ∈ d.expr.reads, r.formats v = .double ∨ r.formats v = .literal

instance (r : Route K) : Decidable r.PlainRates :=
  inferInstanceAs (Decidable (∀ d ∈ r.rates, d.expr.steady r.formats = true ∧
    ∀ v ∈ d.expr.reads, r.formats v = .double ∨ r.formats v = .literal))

variable {args : RunArguments K} {s : Settings K} {y : String → Grid [n, t] K}

/-- A run of a route is a run of its bucket in which the inflow is what the tributaries give. -/
theorem namedRun_iff_bucket (hbackend : s.backend = .elementwise) (hplain : r.PlainRates) :
    r.NamedRun args s
        (fun i z => ∀ f ∈ r.formulas, HoldsAt s.backend r.formats z (args.paramAt s i) f) y ↔
      Catchment.NamedRun r.formats (r.bucket name) args s y ∧ ∀ i j, namedAt y i j r.inflow =
        r.topology.inflowSum (fun k : Fin n => namedAt y k j r.outflow) i := by
  have hgains (d : StateFlux K) (hd : d ∈ r.rates) (z p : String → K) (x : K) :
      GainsTo s.backend r.formats z p s.minValue d x ↔
        GainsTo s.backend (fun _ => .double) z p s.minValue d x := by
    obtain ⟨hsteady, hreads⟩ := hplain d hd
    rw [hbackend]
    exact exists_congr fun y =>
      and_congr_left fun _ => Expr.valueAt_doubles hsteady hreads z p y
  constructor
  · intro h
    exact ⟨⟨h.initial, fun f hf i j => h.holds i j f hf, fun d hd i j j' hj =>
      (hgains d hd _ _ _).2 (h.gains d hd i j j' hj)⟩, h.inflow⟩
  · rintro ⟨h, hinflow⟩
    exact ⟨h.initial, fun i j f hf => h.holds f hf i j, hinflow, fun d hd i j j' hj =>
      (hgains d hd _ _ _).1 (h.gains d hd i j j' hj)⟩

/-- Without edges nothing flows in. -/
theorem inflow_eq_zero_iff (hedges : r.topology.edges = []) :
    y r.inflow = Grid.replicate Scalar.zero ↔ ∀ i j, namedAt y i j r.inflow =
      r.topology.inflowSum (fun k : Fin n => namedAt y k j r.outflow) i := by
  have hzero (i : Fin n) (j : Fin t) :
      r.topology.inflowSum (fun k : Fin n => namedAt y k j r.outflow) i = Scalar.zero := by
    have hnone : r.topology.upstream n i = [] := by simp [Topology.upstream, Topology.drains, hedges]
    rw [Topology.inflowSum, hnone, List.foldl_nil]
  simp only [hzero]
  constructor
  · intro h i j
    rw [namedAt, h, Grid.get_replicate]
  · intro h
    refine Grid.ext_get fun i => ?_
    rw [Grid.get_replicate]
    exact h i.head i.tail.head

variable [OrderedScalar K] (hlaws : ∀ f ∈ r.fluxes, f.lawName? = none)
  (hstates : ∀ d, Declaration.state d ∉ r.fluxes) (hfree : RatesFree r.rates)
  (hbackend : s.backend = .elementwise) (hplain : r.PlainRates) (hs : s.Stepwise t) (hn : 0 < n)
  (ht : 0 < t) (hsize : r.topology.size = n)

include hlaws hfree hbackend hplain hs hn ht hsize

/-- A route returns rows by name exactly if its inflow row is what the tributaries give and the
bucket returns the other rows. -/
theorem compute_iff_bucket :
    (Component.route r).compute args s (r.signature.inputs.map y) =
        .ok ⟨(r.states ++ r.outputs).map y, []⟩ ↔
      (∀ i j, namedAt y i j r.inflow =
        r.topology.inflowSum (fun k : Fin n => namedAt y k j r.outflow) i) ∧
      (Component.bucket (r.toBucket name hstates)).compute args s
        ((r.toBucket name hstates).signature.inputs.map y) =
          .ok ⟨(r.states ++ r.fluxOutputs).map y, []⟩ := by
  have hroute : (Component.route r).prepareFor n t args s =
      RunData.prepare r.signature n t args s := by
    rw [Component.prepareFor, nodesFault?, if_pos hsize]
  have hprepare : RunData.prepare (r.toBucket name hstates).signature n t args s =
      RunData.prepare r.signature n t args s := RunData.prepare_congr rfl rfl rfl
  have hbucket : (Component.bucket (r.toBucket name hstates)).prepareFor n t args s =
      RunData.prepare r.signature n t args s := hprepare
  rw [Component.compute, Component.compute, hroute, hbucket, bind_eq_ok, bind_eq_ok,
    ← exists_and_left]
  refine exists_congr fun d => ?_
  rw [and_left_comm]
  refine and_congr_right fun hd => ?_
  refine Iff.trans (run_iff_formatted hlaws (reads_inflow hstates) hfree hs hn ht hsize hd) ?_
  rw [namedRun_iff_bucket hbackend hplain, and_comm]
  exact and_congr_right fun _ =>
    (Bucket.run_iff_formatted hlaws hfree hs hn ht (hprepare.trans hd)).symm

omit hlaws hfree hbackend hplain hs hn ht hsize

/-- A route of formulas and the bucket of its fluxes and rates. The bucket can be made; it reads what
the route reads, and the inflow if a rate reads it, and it has all rows of the route but the inflow.
Given the rows that a fixed-step run of the route with the elementwise backend returns, it returns
these rows. Over a network without edges, the route then returns some rows exactly if its inflow row
is zero and the bucket returns the other rows. -/
theorem run_is_bucket_run (hlaws : ∀ f ∈ r.fluxes, f.lawName? = none)
    (hstates : ∀ d, Declaration.state d ∉ r.fluxes) (hfree : RatesFree r.rates)
    (name : Option String) :
    ∃ b, Bucket.ofDraft (r.bucket name) = .ok b ∧
      (∀ v, v ∈ (Component.bucket b).signature.inputs ↔
        v ∈ (Component.route r).signature.inputs ∨
          v = r.inflow ∧ ∃ d ∈ r.rates, r.inflow ∈ d.reads) ∧
      (Component.route r).rowNames = (Component.bucket b).rowNames ++ [r.inflow] ∧
      ∀ {n t : Nat} {x : String → Grid [n, t] K} {single : Bool} {input : Nested K}
        {args : RunArguments K} {s : Settings K}, 0 < n → s.Stepwise t →
        s.backend = .elementwise → r.PlainRates →
        (InputRows.named (Component.route r).signature.inputs x single).Reads input →
        (∀ result, (Component.route r).run input args s = .ok result →
          ∃ y : String → Grid [n, t] K,
            (∀ v ∈ (Component.route r).signature.inputs, y v = x v) ∧
            result = .named (Component.route r).rowNames y single ∧
            ∀ input', (InputRows.named (Component.bucket b).signature.inputs y single).Reads input' →
              (Component.bucket b).run input' args s =
                .ok (.named (Component.bucket b).rowNames y single)) ∧
        (r.topology.edges = [] → r.topology.size = n → 0 < t →
          ∀ (y : String → Grid [n, t] K) (input' : Nested K),
            (∀ v ∈ (Component.route r).signature.inputs, y v = x v) →
            (InputRows.named (Component.bucket b).signature.inputs y single).Reads input' →
            ((Component.route r).run input args s =
                .ok (.named (Component.route r).rowNames y single) ↔
              y r.inflow = Grid.replicate Scalar.zero ∧
                (Component.bucket b).run input' args s =
                  .ok (.named (Component.bucket b).rowNames y single))) := by
  refine ⟨r.toBucket name hstates, ofDraft_bucket hstates, fun v => mem_inputs_toBucket hstates,
    (List.append_assoc ..).symm, ?_⟩
  intro n t x single input args s hn hs hbackend hplain hreads
  have hrows (y : String → Grid [n, t] K) (hy : ∀ v ∈ r.signature.inputs, y v = x v) :
      r.signature.inputs.map x = r.signature.inputs.map y :=
    List.map_congr_left fun v hv => (hy v hv).symm
  refine ⟨fun result hrun => ?_, fun hedges hsize ht y input' hy hreads' => ?_⟩
  · obtain ⟨given, hgiven, hcount, out, hcompute, rfl⟩ := Component.run_eq_ok.1 hrun
    obtain rfl := hgiven.unique hreads
    obtain ⟨d, hprepare, hout⟩ := bind_eq_ok.1 hcompute
    obtain ⟨hsize, hd⟩ := Component.prepareFor_route hprepare
    have ht := (accepted_of_run hsize hout).2.1
    obtain ⟨-, y, hin, rfl, -⟩ := namedRun_of_elementwise hfree
      (fun f hf => Declaration.elementwise_of_formulas (hlaws f hf) args.params) hs hsize hd hcount
      hout
    refine ⟨y, fun v hv => (List.map_inj_left.1 hin v hv).symm, rfl, fun input' hreads' => ?_⟩
    refine (Component.run_named_iff hreads').2 ?_
    refine ((compute_iff_bucket hlaws hstates hfree hbackend hplain hs hn ht hsize).1 ?_).2
    exact hin ▸ hcompute
  · rw [Component.run_named_iff hreads, Component.run_named_iff hreads']
    have hin : (Component.route r).signature.inputs.map x = r.signature.inputs.map y := hrows y hy
    rw [hin, inflow_eq_zero_iff hedges]
    exact compute_iff_bucket hlaws hstates hfree hbackend hplain hs hn ht hsize

def loneStore : Route Float :=
  { twoStores with
    topology := { nodes := [.text "below"], edges := [], accepted := rfl, links := _, links_eq := rfl }
    accepted := RouteDraft.fault?_eq_none.2 (by decide) }

def twoStoresRows : String → Grid [2, 2] Float
  | "s" => ⟨#v[Scalar.one, Scalar.ratio 3 2, Scalar.one, Scalar.ofInt 2]⟩
  | "q" => ⟨#v[Scalar.ratio 1 2, Scalar.ratio 3 4, Scalar.ratio 1 2, Scalar.one]⟩
  | "u" => ⟨#v[Scalar.zero, Scalar.zero, Scalar.ratio 1 2, Scalar.ratio 3 4]⟩
  | _ => Grid.replicate Scalar.one

def loneStoreRows : String → Grid [1, 2] Float
  | "s" => ⟨#v[Scalar.one, Scalar.ratio 5 2]⟩
  | "q" => ⟨#v[Scalar.ratio 1 2, Scalar.ratio 5 4]⟩
  | "u" => Grid.replicate Scalar.zero
  | _ => Grid.replicate (Scalar.ofInt 2)

theorem stepwise_standard : (Settings.standard : Settings Float).Stepwise 2 := by
  refine ⟨by decide, fun times htimes => ?_⟩
  obtain rfl := Except.ok.inj htimes
  exact ⟨by decide, by decide⟩

theorem twoStores_noRates : ∀ d, Declaration.state d ∉ twoStores.fluxes :=
  fun _ h => nomatch List.mem_singleton.1 h

theorem twoStores_bucket :
    let args : RunArguments Float :=
      ⟨[("k", .entry (.real (Scalar.ratio 1 2)))], [("s", .entry (.real Scalar.one))]⟩
    let given {n : Nat} (rows : List (Grid [n, 2] Float)) : Nested Float :=
      .tensor (.ofGrid (Grid.stack rows))
    ∃ b, Bucket.ofDraft (twoStores.bucket none) = .ok b ∧
      (Component.route twoStores).run (given [twoStoresRows "p"]) args .standard =
        .ok (.named ["s", "q", "u"] twoStoresRows false) ∧
      (Component.bucket b).run (given [twoStoresRows "p", twoStoresRows "u"]) args .standard =
        .ok (.named ["s", "q"] twoStoresRows false) ∧
      (Component.bucket b).run (given [loneStoreRows "p", loneStoreRows "u"]) args .standard =
        .ok (.named ["s", "q"] loneStoreRows false) ∧
      (Component.route loneStore).run (given [loneStoreRows "p"]) args .standard =
        .ok (.named ["s", "q", "u"] loneStoreRows false) := by
  intro args given
  let b := twoStores.toBucket none twoStores_noRates
  have hbucket : Bucket.ofDraft (twoStores.bucket none) = .ok b := ofDraft_bucket twoStores_noRates
  have htwo : (Component.route twoStores).run (given [twoStoresRows "p"]) args .standard =
      .ok (.named ["s", "q", "u"] twoStoresRows false) :=
    RunResult.eq_named (exists_ok_of_check (by decide +kernel))
  have hlone : (Component.bucket b).run (given [loneStoreRows "p", loneStoreRows "u"]) args
      .standard = .ok (.named ["s", "q"] loneStoreRows false) :=
    RunResult.eq_named (exists_ok_of_check (by decide +kernel))
  have hplain : twoStores.PlainRates := by decide
  refine ⟨b, hbucket, htwo, ?_, hlone, ?_⟩
  · obtain ⟨b', hb', -, -, hrun⟩ :=
      run_is_bucket_run (r := twoStores) (by decide) twoStores_noRates (by decide) none
    obtain rfl : b' = b := Except.ok.inj (hb'.symm.trans hbucket)
    have hreads : (InputRows.named (Component.route twoStores).signature.inputs twoStoresRows
        false).Reads (given [twoStoresRows "p"]) := ⟨_, rfl, rfl⟩
    obtain ⟨y, hy, hrows, hbucket⟩ :=
      (hrun (by decide) stepwise_standard rfl hplain hreads).1 _ htwo
    have hknown : [twoStoresRows "s", twoStoresRows "q", twoStoresRows "u"] = ["s", "q", "u"].map y :=
      RunResult.named_inj hrows
    obtain ⟨hs, hq, hu⟩ : twoStoresRows "s" = y "s" ∧ twoStoresRows "q" = y "q" ∧
        twoStoresRows "u" = y "u" := by simpa using hknown
    have hp : twoStoresRows "p" = y "p" := (hy "p" (by decide)).symm
    have hin : ["p", "u"].map twoStoresRows = (Component.bucket b).signature.inputs.map y := by
      show _ = ["p", "u"].map y
      simp [hp, hu]
    have hout : ["s", "q"].map twoStoresRows = ["s", "q"].map y := by simp [hs, hq]
    rw [RunResult.named, hout]
    refine hbucket _ ?_
    rw [InputRows.named, ← hin]
    exact ⟨_, rfl, rfl⟩
  · obtain ⟨b', hb', -, -, hrun⟩ :=
      run_is_bucket_run (r := loneStore) (by decide) twoStores_noRates (by decide) none
    obtain rfl : b' = b := Except.ok.inj (hb'.symm.trans hbucket)
    have hreads : (InputRows.named (Component.route loneStore).signature.inputs loneStoreRows
        false).Reads (given [loneStoreRows "p"]) := ⟨_, rfl, rfl⟩
    exact ((hrun (by decide) stepwise_standard rfl hplain hreads).2 rfl rfl (by decide)
      loneStoreRows _ (fun _ _ => rfl) ⟨_, rfl, rfl⟩).2 ⟨rfl, hlone⟩

def unlinked (nodes : List NodeId) (h : TopologyDraft.fault? ⟨nodes, []⟩ = none) : Topology where
  nodes
  edges := []
  accepted := h
  links := _
  links_eq := rfl

def site : Topology := unlinked [.text "site"] rfl

def noSite : Topology := unlinked [] rfl

def gaugeDraft (t : Topology) (f : Flux Float) (rates : List (StateFlux Float)) :
    RouteDraft Float where
  name := some "gauge"
  fluxes := [.flux f]
  rates
  topology := t
  outflow := "q"
  inflow := "u"
  sort := true

def gauge (t : Topology) (f : Flux Float) (rates : List (StateFlux Float))
    (horder : (gaugeDraft t f rates).order = .ok [.flux f])
    (hfault : (gaugeDraft t f rates).fault? [.flux f] = none) : Route Float where
  toRouteDraft := gaugeDraft t f rates
  ordered := [.flux f]
  order_eq := horder
  accepted := hfault

def below (v : String) : Expr Float := .binary .lt (.var v) (.const Scalar.one)

def tenthOf (e : Expr Float) : Expr Float :=
  .binary .mul (.binary .mul e (.const (Scalar.ratio 1 10))) (.var "x")

/-- The power of two flags is an integer of eight bits. -/
def wholeBelow (v : String) : Expr Float := .binary .pow (below v) (below v)

def rootGauge : Route Float :=
  gauge site ⟨⟨"root", ["q"], ["x"], [], [.unary .sqrt (below "x")], none⟩, by decide⟩
    [⟨⟨"gain", "s", tenthOf (.var "q"), ["q", "x"], []⟩, by decide⟩] rfl
    (RouteDraft.fault?_eq_none.2 (by decide))

def oppositeGauge : Route Float :=
  gauge site ⟨⟨"opposite", ["q"], ["x"], [], [.unary .neg (wholeBelow "x")], none⟩, by decide⟩
    [⟨⟨"gain", "s", tenthOf (.unary .sqrt (.unary .abs (.var "q"))), ["q", "x"], []⟩, by decide⟩]
    rfl (RouteDraft.fault?_eq_none.2 (by decide))

/-- A flux that is a bare constant. -/
def share (x : Float) : Flux Float := ⟨⟨"share", ["q"], [], [], [.const x], none⟩, rfl⟩

def shareGauge : Route Float :=
  gauge site (share (Scalar.ratio 1 10))
    [⟨⟨"gain", "s", .binary .mul (.binary .mul (.unary .sqrt (below "x")) (.var "q")) (.var "x"),
      ["q", "x"], []⟩, by decide⟩] rfl (RouteDraft.fault?_eq_none.2 (by decide))

def emptyGauge : Route Float :=
  gauge noSite (share (Scalar.ratio 1 2))
    [⟨⟨"gain", "s", .binary .pow (wholeBelow "q") (.unary .neg (wholeBelow "q")), ["q"], []⟩,
      by decide⟩] rfl (RouteDraft.fault?_eq_none.2 (by decide))

def inflowGauge : Route Float :=
  gauge site (share (Scalar.ratio 1 2))
    [⟨⟨"gain", "s", .binary .sub (.var "u") (.var "q"), ["u", "q"], []⟩, by decide⟩] rfl
    (RouteDraft.fault?_eq_none.2 (by decide))

def statelessGauge : Route Float :=
  gauge site (share (Scalar.ratio 1 2)) [] rfl (RouteDraft.fault?_eq_none.2 (by decide))

def Answers (x : Except Fault (RunResult Float)) : Option (List Float) → Prop
  | some rows => ∃ result, x = .ok result ∧ result.rows.toList = rows
  | none => ∃ f, x = .error f

/-- What a route of formulas returns for some rows, and its bucket for others. -/
def AnswersBeside (r : Route Float) (s : Settings Float) {n t m m' : Nat}
    (x : Grid [m, n, t] Float) (x' : Grid [m', n, t] Float) (rows rows' : Option (List Float)) :
    Prop :=
  (∀ f ∈ r.fluxes, f.lawName? = none) ∧ (∀ d, Declaration.state d ∉ r.fluxes) ∧
    RatesFree r.rates ∧ ∃ b, Bucket.ofDraft (r.bucket none) = .ok b ∧
      Answers ((Component.route r).run (.tensor (.ofGrid x)) ⟨[], []⟩ s) rows ∧
      Answers ((Component.bucket b).run (.tensor (.ofGrid x')) ⟨[], []⟩ s) rows'

theorem gauge_noRates {t : Topology} {f : Flux Float} {rates : List (StateFlux Float)}
    (d : StateFlux Float) : Declaration.state d ∉ (gaugeDraft t f rates).fluxes :=
  fun h => nomatch List.mem_singleton.1 h

def halves (m n t : Nat) : Grid [m, n, t] Float := Grid.replicate (Scalar.ratio 1 2)

def sinceEver : Settings Float :=
  { Settings.standard with
    interpolation := .linear
    times := some (.list [.entry (.real (-Scalar.infinity)), .entry (.real Scalar.zero)]) }

theorem AnswersBeside.of_runs {r : Route Float} {s : Settings Float} {n t m m' : Nat}
    {x : Grid [m, n, t] Float} {x' : Grid [m', n, t] Float} {rows rows' : Option (List Float)}
    (hlaws : ∀ f ∈ r.fluxes, f.lawName? = none) (hstates : ∀ d, Declaration.state d ∉ r.fluxes)
    (hfree : RatesFree r.rates)
    (hroute : Answers ((Component.route r).run (.tensor (.ofGrid x)) ⟨[], []⟩ s) rows)
    (hbucket : Answers ((Component.bucket (r.toBucket none hstates)).run (.tensor (.ofGrid x'))
      ⟨[], []⟩ s) rows') : AnswersBeside r s x x' rows rows' :=
  ⟨hlaws, hstates, hfree, _, ofDraft_bucket hstates, hroute, hbucket⟩

/-- The rates of a route read numbers of half precision and integers of eight bits as doubles, and a
constant that meets a number of half precision meets it in double precision. Over no nodes, from an
infinite time on and over no steps the two differ as well. -/
theorem routes_and_buckets_apart :
    (rootGauge.formats "q" = .half ∧
      AnswersBeside rootGauge .standard (halves 1 1 2) (halves 1 1 2)
        (some [Scalar.zero, Scalar.ratio 1 20, Scalar.one, Scalar.one, Scalar.zero, Scalar.zero])
        (some [Scalar.zero, Scalar.ratio 819 16384, Scalar.one, Scalar.one])) ∧
    (oppositeGauge.formats "q" = .int8 ∧
      AnswersBeside oppositeGauge .standard (halves 1 1 2) (halves 1 1 2)
        (some [Scalar.zero, Scalar.ratio 1 20, -Scalar.one, -Scalar.one, Scalar.zero, Scalar.zero])
        (some [Scalar.zero, Scalar.ratio 819 16384, -Scalar.one, -Scalar.one])) ∧
    (shareGauge.formats "q" = .literal ∧
      AnswersBeside shareGauge .standard (halves 1 1 2) (halves 1 1 2)
        (some [Scalar.zero, Scalar.ratio 1 20, Scalar.ratio 1 10, Scalar.ratio 1 10, Scalar.zero,
          Scalar.zero])
        (some [Scalar.zero, Scalar.ratio 819 16384, Scalar.ratio 1 10, Scalar.ratio 1 10])) ∧
    (Scalar.ratio 1 20 : Float) ≠ Scalar.ratio 819 16384 ∧
    AnswersBeside emptyGauge .standard (halves 0 0 2) (halves 0 0 2) (some []) none ∧
    AnswersBeside inflowGauge sinceEver (halves 0 1 2)
      (Grid.replicate Scalar.zero : Grid [1, 1, 2] Float)
      (some [Scalar.zero, -Scalar.ratio 1 2, Scalar.ratio 1 2, Scalar.ratio 1 2, Scalar.zero,
        Scalar.zero])
      (some [Scalar.zero, Scalar.nan, Scalar.ratio 1 2, Scalar.ratio 1 2]) ∧
    AnswersBeside statelessGauge .standard (halves 0 1 0) (halves 0 1 0) none (some []) :=
  ⟨⟨rfl, .of_runs (by decide) gauge_noRates (by decide)
      (exists_ok_of_check (by decide +kernel))
      (exists_ok_of_check (by decide +kernel))⟩,
    ⟨rfl, .of_runs (by decide) gauge_noRates (by decide)
      (exists_ok_of_check (by decide +kernel))
      (exists_ok_of_check (by decide +kernel))⟩,
    ⟨rfl, .of_runs (by decide) gauge_noRates (by decide)
      (exists_ok_of_check (by decide +kernel))
      (exists_ok_of_check (by decide +kernel))⟩,
    by decide,
    .of_runs (by decide) gauge_noRates (by decide)
      (exists_ok_of_check (by decide +kernel))
      (exists_error_of_check (by decide +kernel)),
    .of_runs (by decide) gauge_noRates (by decide)
      (exists_ok_of_check (by decide +kernel))
      (exists_ok_of_check (by decide +kernel)),
    .of_runs (by decide) gauge_noRates (by decide)
      (exists_error_of_check (by decide +kernel))
      (exists_ok_of_check (by decide +kernel))⟩

end Route

end Catchment
