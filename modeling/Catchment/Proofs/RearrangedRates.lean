import Catchment.Proofs.ForcedPaths
import Catchment.Proofs.FormattedRuns
import Catchment.Proofs.RearrangedParts

/-!
# Rearranged rates

All rates of a fixed step are valued in the same rows. As long as no rate reads a name under which a
rate is known, the rates of a bucket or a route may stand in any order: the states change their
places, and what is returned by name is the same. A rate that does read such a name sees the input
of that name before the rate is computed, and the rate afterwards.
-/
namespace Catchment

variable {K : Type} [Scalar K] {n t : Nat} {args : RunArguments K} {s : Settings K}

theorem RunArguments.Gives.perm {params params' states states' : List String}
    (h : args.Gives s n t params states) (hparams : ∀ k, k ∈ params' ↔ k ∈ params)
    (hstates : ∀ v, v ∈ states' ↔ v ∈ states) : args.Gives s n t params' states' where
  times := h.times
  paramClasses := h.paramClasses
  stateClasses := h.stateClasses
  present := missingNames_eq_nil.2 fun k hk => missingNames_eq_nil.1 h.present k ((hparams k).1 hk)
  params k hk := h.params k ((hparams k).1 hk)
  states v hv := h.states v ((hstates v).1 hv)

theorem RatesFree.perm {K : Type} {rates rates' : List (StateFlux K)} (h : RatesFree rates)
    (hperm : rates'.Perm rates) : RatesFree rates' :=
  fun r hr r' hr' => h r (hperm.mem_iff.1 hr) r' (hperm.mem_iff.1 hr')

/-- Rows that a component returns for inputs by name are rows by name, the inputs among them. -/
theorem Component.Composed.exists_named {c : Component K} (hc : c.Composed)
    (hrows : c.rowNames.Nodup) (hinputs : ∀ v ∈ c.signature.inputs, v ∉ c.rowNames)
    {x : String → Grid [n, t] K} {out : Outcome n t K}
    (h : c.compute args s (c.signature.inputs.map x) = .ok out) :
    ∃ y : String → Grid [n, t] K, out.rows = c.rowNames.map y ∧
      ∀ v ∈ c.signature.inputs, y v = x v := by
  obtain ⟨y, hy, hx⟩ := exists_rows_by_name hrows (hc.length_compute h) x
  exact ⟨y, hy, fun v hv => hx v (hinputs v hv)⟩

variable [OrderedScalar K]

namespace Bucket

variable {b b' : Bucket K}

omit [OrderedScalar K] in
theorem run_warnings {d : RunData n t K} (hs : d.settings.solver ≠ .adaptive)
    {rows : List (Grid [n, t] K)} {out : Outcome n t K} (h : b.run d rows = .ok out) :
    out.warnings = [] := by
  obtain ⟨-, hwarnings⟩ | ⟨path, -, hfollows⟩ := b.follows_of_run h
  · exact hwarnings
  · exact hfollows.warnings_eq_nil hs

/-- Rows by name are what a bucket of formulas computes exactly if the arguments give it what it
needs and the rows are a run of named rows. -/
theorem compute_iff_formatted (hlaws : ∀ f ∈ b.fluxes, f.lawName? = none)
    (hfree : RatesFree b.rates) (hs : s.Stepwise t) (hn : 0 < n) (ht : 0 < t)
    {y : String → Grid [n, t] K} :
    (Component.bucket b).compute args s (b.signature.inputs.map y) =
        .ok ⟨(b.states ++ b.outputs).map y, []⟩ ↔
      args.Gives s n t b.signature.params b.states ∧
        NamedRun b.formats b.toBucketDraft args s y := by
  show (RunData.prepare b.signature n t args s >>= fun d => b.run d _) = _ ↔ _
  have hgives : args.Gives s n t b.signature.params b.states ↔
      ∃ d : RunData n t K, RunData.prepare b.signature n t args s = .ok d :=
    (RunData.prepare_exists (networks_eq_nil hlaws)).symm
  rw [hgives, bind_eq_ok, ← exists_and_right]
  exact exists_congr fun d => and_congr_right fun hd => run_iff_formatted hlaws hfree hs hn ht hd

omit [OrderedScalar K] in
/-- A bucket accepts its rates in any order. -/
theorem ofDraft_rates {rates : List (StateFlux K)} (hperm : rates.Perm b.rates) :
    ∃ b', ofDraft { b.toBucketDraft with rates } = .ok b' ∧ b'.fluxes = b.fluxes ∧
      b'.ordered = b.ordered ∧ b'.rates = rates := by
  have hfault : { b.toBucketDraft with rates }.fault? b.ordered = none := by
    have hstates : ({ b.toBucketDraft with rates } : BucketDraft K).states.Perm b.states :=
      hperm.map _
    obtain ⟨hnodup, hdisjoint⟩ := BucketDraft.fault?_eq_none.1 b.accepted
    exact BucketDraft.fault?_eq_none.2
      ⟨hstates.nodup_iff.2 hnodup, fun v hv => hdisjoint v (hstates.mem_iff.1 hv)⟩
  exact ⟨_, ofDraft_eq_ok (d := { b.toBucketDraft with rates }) b.noRate b.order_eq hfault, rfl,
    rfl, rfl⟩

/-- The rates of a bucket may stand in any order, as long as none of them reads a rate. -/
theorem order_of_rates_irrelevant (hfluxes : b'.fluxes = b.fluxes)
    (hordered : b'.ordered = b.ordered) (hrates : b'.rates.Perm b.rates)
    (hlaws : ∀ f ∈ b.fluxes, f.lawName? = none) (hfree : RatesFree b.rates) (hs : s.Stepwise t)
    (hn : 0 < n) (ht : 0 < t) (x : String → Grid [n, t] K) {out : Outcome n t K}
    (h : (Component.bucket b).compute args s (b.signature.inputs.map x) = .ok out) :
    ∃ y : String → Grid [n, t] K, out = ⟨(b.states ++ b.outputs).map y, []⟩ ∧
      (Component.bucket b').compute args s (b'.signature.inputs.map x) =
        .ok ⟨(b'.states ++ b'.outputs).map y, []⟩ := by
  obtain ⟨y, hy, hx⟩ := (Component.Composed.bucket b).exists_named b.rowNames_nodup
    (fun v hv => inputs_notMem hv) h
  have hx : ∀ v ∈ b.signature.inputs, y v = x v := hx
  have hsignature : b.signature.Rearranges b'.signature :=
    Signature.rearranges_ofDeclarations hrates (.of_eq hfluxes) (.of_eq (by
      rw [BucketDraft.outputs, hfluxes]
      rfl))
  have hwarnings : out.warnings = [] := by
    obtain ⟨d, hd, hrun⟩ := bind_eq_ok.1 h
    exact run_warnings ((RunData.prepare_eq_ok hd).1 ▸ hs.solver) hrun
  obtain rfl : out = ⟨(b.states ++ b.outputs).map y, []⟩ := by
    cases out
    exact congrArg₂ Outcome.mk hy hwarnings
  refine ⟨y, rfl, ?_⟩
  rw [← List.map_congr_left hx] at h
  obtain ⟨hgives, hrun⟩ := (compute_iff_formatted hlaws hfree hs hn ht).1 h
  have hformats : b'.formats = b.formats := by rw [formats, formats, hordered]
  rw [← List.map_congr_left fun v hv => hx v (hsignature.inputs.mem_iff.1 hv)]
  refine (compute_iff_formatted (by rwa [hfluxes]) (hfree.perm hrates) hs hn ht).2
    ⟨hgives.perm (fun k => hsignature.params.mem_iff) fun v => hsignature.states.mem_iff, ?_⟩
  rw [hformats]
  exact ⟨fun r hr => hrun.initial r (hrates.mem_iff.1 hr),
    fun f hf => hrun.holds f (by rwa [BucketDraft.formulas, hfluxes] at hf),
    fun r hr => hrun.gains r (hrates.mem_iff.1 hr)⟩

end Bucket

namespace Route

variable {r r' : Route K}

omit [OrderedScalar K] in
theorem run_warnings {d : RunData n t K} (hs : d.settings.solver ≠ .adaptive)
    {rows : List (Grid [n, t] K)} {out : Outcome n t K} (h : r.run d rows = .ok out) :
    out.warnings = [] := by
  obtain ⟨-, -, path, -, -, hfollows⟩ := r.follows_of_run h
  exact hfollows.warnings_eq_nil hs

/-- Rows by name are what a route of formulas over the nodes of its network computes exactly if the
arguments give it what it needs and the rows are a run of named rows. -/
theorem compute_iff_formatted (hlaws : ∀ f ∈ r.fluxes, f.lawName? = none)
    (hreads : ∀ f ∈ r.ordered, r.inflow ∉ f.reads) (hfree : RatesFree r.rates)
    (hs : s.Stepwise t) (hn : 0 < n) (ht : 0 < t) (hsize : r.topology.size = n)
    {y : String → Grid [n, t] K} :
    (Component.route r).compute args s (r.signature.inputs.map y) =
        .ok ⟨(r.states ++ r.outputs).map y, []⟩ ↔
      args.Gives s n t r.signature.params r.states ∧ r.NamedRun args s
        (fun i z => ∀ f ∈ r.formulas, HoldsAt s.backend r.formats z (args.paramAt s i) f) y := by
  show ((Component.route r).prepareFor n t args s >>= fun d => r.run d _) = _ ↔ _
  have hgives : args.Gives s n t r.signature.params r.states ↔
      ∃ d : RunData n t K, RunData.prepare r.signature n t args s = .ok d :=
    (RunData.prepare_exists (networks_eq_nil hlaws)).symm
  rw [Component.prepareFor_route_of_size hsize, hgives, bind_eq_ok, ← exists_and_right]
  exact exists_congr fun d => and_congr_right fun hd =>
    run_iff_formatted hlaws hreads hfree hs hn ht hsize hd

omit [OrderedScalar K] in
/-- A route accepts its rates in any order. -/
theorem ofDraft_rates {rates : List (StateFlux K)} (hperm : rates.Perm r.rates) :
    ∃ r', ofDraft { r.toRouteDraft with rates } = .ok r' ∧ r'.fluxes = r.fluxes ∧
      r'.ordered = r.ordered ∧ r'.rates = rates ∧ r'.topology = r.topology ∧
      r'.outflow = r.outflow ∧ r'.inflow = r.inflow := by
  have hfault : { r.toRouteDraft with rates }.fault? r.ordered = none := by
    have hstates : ({ r.toRouteDraft with rates } : RouteDraft K).states.Perm r.states :=
      hperm.map _
    exact RouteDraft.fault?_eq_none.2 ⟨hstates.nodup_iff.2 r.states_nodup,
      fun v hv => r.state_notMem_outputs v (hstates.mem_iff.1 hv), r.outflow_mem, r.inflow_notMem,
      r.inflow_notMem_inputs⟩
  exact ⟨_, ofDraft_eq_ok (d := { r.toRouteDraft with rates }) r.order_eq hfault, rfl, rfl, rfl,
    rfl, rfl, rfl⟩

/-- The rates of a route may stand in any order, as long as none of them reads a rate. -/
theorem order_of_rates_irrelevant (hfluxes : r'.fluxes = r.fluxes)
    (hordered : r'.ordered = r.ordered) (htopology : r'.topology = r.topology)
    (houtflow : r'.outflow = r.outflow) (hinflow : r'.inflow = r.inflow)
    (hrates : r'.rates.Perm r.rates) (hlaws : ∀ f ∈ r.fluxes, f.lawName? = none)
    (hfree : RatesFree r.rates) (hs : s.Stepwise t) (hn : 0 < n) (ht : 0 < t)
    (x : String → Grid [n, t] K) {out : Outcome n t K}
    (h : (Component.route r).compute args s (r.signature.inputs.map x) = .ok out) :
    ∃ y : String → Grid [n, t] K, out = ⟨(r.states ++ r.outputs).map y, []⟩ ∧
      (Component.route r').compute args s (r'.signature.inputs.map x) =
        .ok ⟨(r'.states ++ r'.outputs).map y, []⟩ := by
  obtain ⟨y, hy, hx⟩ := (Component.Composed.route r).exists_named r.rowNames_nodup
    (fun v hv => inputs_notMem hv) h
  have hx : ∀ v ∈ r.signature.inputs, y v = x v := hx
  have houtputs : r'.outputs = r.outputs := by
    rw [RouteDraft.outputs, RouteDraft.outputs, RouteDraft.fluxOutputs, RouteDraft.fluxOutputs,
      hfluxes, hinflow]
  have hsignature : r.signature.Rearranges r'.signature :=
    Signature.rearranges_ofDeclarations hrates (.of_eq hfluxes) (.of_eq houtputs)
  obtain ⟨d, hd, hrun⟩ := bind_eq_ok.1 h
  obtain ⟨hsize, hd⟩ := Component.prepareFor_route hd
  have hwarnings := run_warnings ((RunData.prepare_eq_ok hd).1 ▸ hs.solver) hrun
  obtain ⟨_, p, _, _, _, _, _, hp, -⟩ := run_eq_ok.1 hrun
  have hreads := inflow_notMem_reads hp
  obtain rfl : out = ⟨(r.states ++ r.outputs).map y, []⟩ := by
    cases out
    exact congrArg₂ Outcome.mk hy hwarnings
  refine ⟨y, rfl, ?_⟩
  rw [← List.map_congr_left hx] at h
  obtain ⟨hgives, hrun⟩ := (compute_iff_formatted hlaws hreads hfree hs hn ht hsize).1 h
  have hformats : r'.formats = r.formats := by rw [formats, formats, hordered]
  rw [← List.map_congr_left fun v hv => hx v (hsignature.inputs.mem_iff.1 hv)]
  refine (compute_iff_formatted (by rwa [hfluxes]) (by rwa [hordered, hinflow])
    (hfree.perm hrates) hs hn ht (htopology ▸ hsize)).2
    ⟨hgives.perm (fun k => hsignature.params.mem_iff) fun v => hsignature.states.mem_iff, ?_⟩
  rw [hformats]
  exact ⟨fun d hd => hrun.initial d (hrates.mem_iff.1 hd),
    fun i j f hf => hrun.holds i j f (by rwa [RouteDraft.formulas, hfluxes] at hf),
    fun i j => by rw [hinflow, houtflow, htopology]; exact hrun.inflow i j,
    fun d hd => hrun.gains d (hrates.mem_iff.1 hd)⟩

end Route

def Bucket.namesake (rates : List (StateFlux Float)) : BucketDraft Float :=
  { name := some "namesake", fluxes := [], rates, sort := true }

def Bucket.gainOf (state input : String)
    (h : StateFluxDraft.fault? ⟨"gain", state, (.var input : Expr Float), [input], []⟩ = none) :
    StateFlux Float :=
  ⟨⟨"gain", state, .var input, [input], []⟩, h⟩

/-- Behind the rate of the first state the second one gains that rate, before it the input. -/
theorem Bucket.order_of_namesakes :
    (∃ r, (do
      let b ← ofDraft (namesake [gainOf "a" "x" (by decide), gainOf "b" "d(a)" (by decide)])
      (Component.bucket b).run (.list [.list [.entry (.real 1), .entry (.real 1)],
        .list [.entry (.real 10), .entry (.real 10)]]) ⟨[], []⟩ .standard) = .ok r ∧
      r.rows.toList = [0, 1, 0, 1]) ∧
    ∃ r, (do
      let b ← ofDraft (namesake [gainOf "b" "d(a)" (by decide), gainOf "a" "x" (by decide)])
      (Component.bucket b).run (.list [.list [.entry (.real 10), .entry (.real 10)],
        .list [.entry (.real 1), .entry (.real 1)]]) ⟨[], []⟩ .standard) = .ok r ∧
      r.rows.toList = [0, 10, 0, 1] :=
  ⟨exists_ok_of_check (by decide +kernel), exists_ok_of_check (by decide +kernel)⟩

end Catchment
