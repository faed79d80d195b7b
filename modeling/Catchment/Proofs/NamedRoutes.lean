import Catchment.Proofs.AcceptedRuns
import Catchment.Proofs.ElementwiseLaws
import Catchment.Proofs.NodewiseRuns
import Catchment.Proofs.ProgramValues
import Catchment.Proofs.RouteColumns

/-!
# Routes by name

Rows under names are a run of a route exactly if at every node and time the fluxes hold and the
inflow is what the tributaries give, and each state starts and gains as its rate says. The rates read
the rows of the fluxes as doubles, whatever the formats in which the fluxes were computed.
-/
namespace Catchment

variable {K : Type} [Scalar K]

def RouteDraft.formulas (d : RouteDraft K) : List (String × Expr K) :=
  d.fluxes.flatMap Declaration.formulas

/-- Rows by name in which the fluxes hold at every node and time, every node receives what its
tributaries give, and every state starts and gains as it should. -/
structure Route.NamedRun {n t : Nat} (r : Route K) (args : RunArguments K) (s : Settings K)
    (fluxesHold : Fin n → (String → K) → Prop) (y : String → Grid [n, t] K) : Prop where
  initial : ∀ d ∈ r.rates, ∀ i (j : Fin t), j.val = 0 →
    namedAt y i j d.state = args.stateAt s i d.state
  holds : ∀ i j, fluxesHold i (namedAt y i j)
  inflow : ∀ i j, namedAt y i j r.inflow =
    r.topology.inflowSum (fun k : Fin n => namedAt y k j r.outflow) i
  gains : ∀ d ∈ r.rates, ∀ i (j j' : Fin t), j'.val = j.val + 1 →
    GainsTo s.backend (fun _ => .double) (namedAt y i j) (args.paramAt s i) s.minValue d
      (namedAt y i j' d.state)

/-- A run applies the networks to the weights that are given to it. -/
theorem Declaration.Elementwise.networkWeights {sig : Signature} {n t : Nat} {args : RunArguments K}
    {s : Settings K} {d : RunData n t K}
    (hd : RunData.prepare sig n t args s = .ok d) {f : Declaration K}
    (h : f.Elementwise args.params) : f.Elementwise d.networkWeights := by
  cases f with
  | neural f =>
    intro given theta hgiven htheta
    have hweights := (RunData.prepare_eq_ok_iff.1 hd).2.2.2.1
    rw [RunData.networkWeights, lookup_map_snd, Option.map_eq_some_iff] at hgiven
    obtain ⟨weights, hlookup, rfl⟩ := hgiven
    obtain rfl : weights = theta := Except.ok.inj htheta
    obtain ⟨k, hk, hget⟩ := List.mem_iff_getElem.1 (mem_of_lookup_eq_some hlookup)
    obtain ⟨hlen, hentry⟩ := List.forall₂_iff_get.1 (mapM_eq_ok.1 hweights)
    have hentry := hentry k (hlen ▸ hk) hk
    simp only [List.get_eq_getElem, hget] at hentry
    split at hentry
    · simp [misconfigured] at hentry
    · rename_i given hgiven
      obtain ⟨u, hu, hentry⟩ := bind_eq_ok.1 hentry
      obtain ⟨hname, rfl⟩ := Prod.mk.inj (Except.ok.inj hentry)
      exact h given u (hname ▸ hgiven) hu
  | _ => exact h

namespace Route

variable {r : Route K} {z p : String → K} {params : Scope K} {q : Program K} {backend : Backend}

theorem mem_ordered_formulas {f : String × Expr K} :
    f ∈ r.ordered.flatMap Declaration.formulas ↔ f ∈ r.formulas :=
  (r.ordered_perm.flatMap_right Declaration.formulas).mem_iff

theorem mem_fluxOutputs_iff (hlaws : ∀ f ∈ r.fluxes, f.lawName? = none) {v : String} :
    v ∈ r.fluxOutputs ↔ v ∈ (r.ordered.flatMap Declaration.formulas).map Prod.fst := by
  rw [r.mem_fluxOutputs, List.map_flatMap, List.mem_flatMap, List.mem_flatMap]
  refine exists_congr fun f => and_congr_right fun hf => ?_
  rw [Declaration.map_fst_formulas (hlaws f (r.ordered_perm.mem_iff.1 hf))]

theorem formulas_reads (hreads : ∀ f ∈ r.ordered, r.inflow ∉ f.reads) {f : String × Expr K}
    (hf : f ∈ r.ordered.flatMap Declaration.formulas) {v : String} (hv : v ∈ f.2.reads) :
    v ∈ r.rowsRead ∨ v ∈ r.fluxOutputs := by
  obtain ⟨g, hg, hf⟩ := List.mem_flatMap.1 hf
  have hown : ∀ v ∈ g.reads, v ∉ g.outputs := r.inOrder.own g.item (List.mem_map_of_mem hg)
  rcases (g.scheduled_formulas hown).2 f hf v hv with hv | hv
  · have hknown := r.reads_known (List.mem_append_left _ (r.ordered_perm.mem_iff.1 hg)) hv
    rcases List.mem_append.1 hknown with hread | hout
    · exact .inl hread
    · refine .inr ((r.mem_outputs.1 hout).resolve_right ?_)
      rintro rfl
      exact hreads g hg hv
  · exact .inr (r.mem_fluxOutputs.2 (List.mem_flatMap.2 ⟨g, hg, hv⟩))

/-- The fluxes have some values exactly if their formulas hold there. -/
theorem evalAt_fluxProgram {F : String → Format} (hlaws : ∀ f ∈ r.fluxes, f.lawName? = none)
    (hreads : ∀ f ∈ r.ordered, r.inflow ∉ f.reads)
    (hF : backend = .elementwise → ExactFormats F r.formulas ∧ ∀ v ∈ r.rowsRead, F v = .double)
    (hq : q.toProgramDraft = ⟨backend, r.ordered, r.rowsRead, r.fluxOutputs⟩)
    (hparams : ∀ k ∈ r.signature.params, params k = Scope.doubles p k) :
    q.evalAt params (r.rowsRead.map z) = .ok (r.fluxOutputs.map z) ↔
      ∀ f ∈ r.formulas, HoldsAt backend F z p f := by
  have hformulas : q.formulas = r.ordered.flatMap Declaration.formulas := by
    rw [Program.formulas, hq]
  have hbackend : q.backend = backend := congrArg ProgramDraft.backend hq
  have hevaluates : q.Evaluates F q.formulas := by
    rw [hformulas]
    refine ⟨Declaration.scheduled r.inOrder, fun f hf v hv => ?_, fun hb => ?_, fun hb => ?_⟩
    · rw [hq]
      exact (formulas_reads hreads hf hv).imp_right (mem_fluxOutputs_iff hlaws).1
    · exact fun f hf => (hF (hbackend ▸ hb)).1 f (mem_ordered_formulas.1 hf)
    · rw [hq]
      exact (hF (hbackend ▸ hb)).2
  have hvalues := q.evalAt_eq_ok (z := z) hevaluates
    (fun o => by rw [hformulas, hq]; exact mem_fluxOutputs_iff hlaws)
    (fun k hk => hparams k (params_fluxProgram hq hk))
  rw [hformulas, hbackend, hq] at hvalues
  simp only [mem_ordered_formulas] at hvalues
  exact hvalues

/-- The rates are valued among doubles. -/
theorem evalAt_rateProgram (hfree : RatesFree r.rates) (hq : q.toProgramDraft =
      ⟨backend, r.rates.map .state, r.rowsRead ++ r.outputs, r.states.map rateName⟩)
    (hparams : ∀ k ∈ r.signature.params, params k = Scope.doubles p k) {xs : List K} :
    q.evalAt params ((r.rowsRead ++ r.outputs).map z) = .ok xs ↔
      (r.rates.mapM fun d => d.expr.valueAt backend (fun _ => .double) z p) = .ok xs := by
  have hbackend : q.backend = backend := congrArg ProgramDraft.backend hq
  have hevaluates : q.Evaluates (fun _ => .double) [] :=
    ⟨.nil, nofun, fun _ => nofun, fun _ _ _ => rfl⟩
  have hvalues := q.evalAt_rates (z := z) hevaluates r.states_nodup hfree
    (by rw [Program.formulas, hq, flatMap_formulas_state, List.nil_append]) (by rw [hq]; rfl)
    (fun d hd v hv => .inl ?_) (fun k hk => hparams k (params_rateProgram hq hk))
    nofun xs
  · rw [hbackend, hq] at hvalues
    exact hvalues
  · rw [hq]
    exact r.reads_known (List.mem_append_right _ (List.mem_map_of_mem hd)) (d.reads_subset v hv)

variable {n t : Nat} {args : RunArguments K} {s : Settings K} {d : RunData n t K}
  {y : String → Grid [n, t] K} {fluxesAt : Fin n → List K → Except Fault (List K)}
  {fluxesHold : Fin n → (String → K) → Prop}

theorem columnAt_known (i : Fin n) (j : Fin t) :
    columnAt (r.signature.inputs.map y) i j ++ columnAt (r.states.map y) i j ++
        columnAt (r.fluxOutputs.map y) i j ++ [(y r.inflow).get (.nodeTime i j)] =
      (r.rowsRead ++ r.outputs).map (namedAt y i j) := by
  simp only [columnAt_map, rowsRead, RouteDraft.outputs, List.map_append, List.append_assoc]
  rfl

/-- Columns that follow each other are a run of named rows. -/
theorem columnRun_iff_namedRun (hfree : RatesFree r.rates)
    (hd : RunData.prepare r.signature n t args s = .ok d)
    (hq : q.toProgramDraft =
      ⟨s.backend, r.rates.map .state, r.rowsRead ++ r.outputs, r.states.map rateName⟩)
    (hlocal : ∀ i z, fluxesAt i (r.rowsRead.map z) = .ok (r.fluxOutputs.map z) ↔
      fluxesHold i z) :
    r.ColumnRun d fluxesAt (fun i => q.evalAt (nodeScope d.params i)) (r.signature.inputs.map y)
        (r.states.map y) (r.fluxOutputs.map y) (y r.inflow) ↔
      r.NamedRun args s fluxesHold y := by
  obtain ⟨rfl, -⟩ := RunData.prepare_eq_ok hd
  have hinitial (i : Fin n) (j : Fin t) : columnAt (r.states.map y) i j =
      d.initial.map (·.get (.node i)) ↔
      ∀ x ∈ r.rates, namedAt y i j x.state = args.stateAt d.settings i x.state := by
    rw [columnAt_map, RunData.initial_of_prepare hd i]
    show r.states.map _ = r.states.map _ ↔ _
    rw [List.map_inj_left]
    exact List.forall_mem_map
  have hfluxes (i : Fin n) (j : Fin t) :
      fluxesAt i (columnAt (r.signature.inputs.map y) i j ++ columnAt (r.states.map y) i j) =
        .ok (columnAt (r.fluxOutputs.map y) i j) ↔ fluxesHold i (namedAt y i j) := by
    rw [← hlocal]
    simp only [columnAt_map, rowsRead, List.map_append]
  have hinflow : (∃ outflow, (r.fluxOutputs.zip (r.fluxOutputs.map y)).lookup r.outflow =
        some outflow ∧ ∀ i j, (y r.inflow).get (.nodeTime i j) =
          r.topology.inflowSum (fun k : Fin n => outflow.get (.nodeTime k j)) i) ↔
      ∀ i j, namedAt y i j r.inflow =
        r.topology.inflowSum (fun k : Fin n => namedAt y k j r.outflow) i := by
    rw [← List.map_prod_left_eq_zip, lookup_map_self y r.outflow_mem]
    simp only [Option.some.injEq, exists_eq_left']
    rfl
  have hgains (i : Fin n) (j j' : Fin t) :
      (do
        let rates ← q.evalAt (nodeScope d.params i)
          (columnAt (r.signature.inputs.map y) i j ++ columnAt (r.states.map y) i j ++
            columnAt (r.fluxOutputs.map y) i j ++ [(y r.inflow).get (.nodeTime i j)])
        return addRates d.settings.minValue (columnAt (r.states.map y) i j) rates) =
          Except.ok (columnAt (r.states.map y) i j') ↔
      ∀ x ∈ r.rates, GainsTo d.settings.backend (fun _ => .double) (namedAt y i j)
        (args.paramAt d.settings i) d.settings.minValue x (namedAt y i j' x.state) := by
    have hmap (w : String → K) : r.states.map w = r.rates.map fun x => w x.state := List.map_map
    rw [columnAt_known, bind_eq_ok]
    simp only [columnAt_map, hmap, pure_eq_ok, Except.ok.injEq, evalAt_rateProgram hfree hq
      fun k hk => RunData.nodeScope_of_prepare hd i hk]
    exact exists_mapM_zipWith
  constructor
  · exact fun h => ⟨fun x hx i j hj => (hinitial i j).1 (h.initial i j hj) x hx,
      fun i j => (hfluxes i j).1 (h.fluxes_eq i j), hinflow.1 h.inflow_eq,
      fun x hx i j j' hj => (hgains i j j').1 (h.states_succ i j j' hj) x hx⟩
  · exact fun h => ⟨List.length_map _, List.length_map _,
      fun i j hj => (hinitial i j).2 fun x hx => h.initial x hx i j hj,
      fun i j => (hfluxes i j).2 (h.holds i j), hinflow.2 h.inflow,
      fun i j j' hj => (hgains i j j').2 fun x hx => h.gains x hx i j j' hj⟩

theorem rowNames_nodup (r : Route K) : (r.states ++ r.outputs).Nodup := by
  obtain ⟨-, houtputs, -⟩ := List.nodup_append.1 r.rowsKnown_nodup
  refine List.nodup_append.2 ⟨r.states_nodup, houtputs, ?_⟩
  rintro v hv w hw rfl
  exact r.state_notMem_outputs v hv hw

theorem inputs_notMem {v : String} (hv : v ∈ r.signature.inputs) : v ∉ r.states ++ r.outputs := by
  obtain ⟨-, houtputs, hstates⟩ := r.mem_inputs.1 hv
  rw [List.mem_append]
  exact not_or.2 ⟨hstates, houtputs⟩

/-- A route that returns something has compiled its fluxes and accepted its times. -/
theorem accepted_of_run {d : RunData n t K} (hsize : r.topology.size = n)
    {rows : List (Grid [n, t] K)} {out : Outcome n t K} (h : r.run d rows = .ok out) :
    (∃ p, r.fluxProgram d.settings.backend = .ok p) ∧ 0 < t ∧ unorderedTimes d.times = false := by
  rw [run, dif_pos hsize] at h
  obtain ⟨p, hp, h⟩ := bind_eq_ok.1 h
  obtain ⟨q, -, h⟩ := bind_eq_ok.1 h
  obtain ⟨f, hf, -⟩ := bind_eq_ok.1 h
  obtain ⟨-, hnonempty, hordered⟩ := Forcing.make_eq_ok_iff.1 ⟨f, hf⟩
  exact ⟨⟨p, hp⟩, d.times_length ▸ hnonempty, hordered⟩

section

variable [OrderedScalar K]

/-- What a route returns are rows by name; they are a run of named rows in which the fluxes hold as
they are computed in columns. -/
theorem exists_namedRun (hfree : RatesFree r.rates) (hs : s.Stepwise t)
    (hsize : r.topology.size = n) (hd : RunData.prepare r.signature n t args s = .ok d)
    {p : Program K} (hp : r.fluxProgram s.backend = .ok p)
    (htimes : ∀ rows outs : List (Grid [n, t] K),
      p.run rows d.timeBindings d.networkWeights = .ok outs →
        ∀ i j, fluxesAt i (columnAt rows i j) = .ok (columnAt outs i j))
    (hflux : ∀ rows outs : List (Grid [n] K), p.run rows d.nodeBindings d.networkWeights = .ok outs →
      ∀ i, fluxesAt i (rows.map (·.get (.node i))) = .ok (outs.map (·.get (.node i))))
    {rows : List (Grid [n, t] K)} (hrows : rows.length = r.signature.inputs.length)
    {out : Outcome n t K} (h : r.run d rows = .ok out) :
    ∃ y : String → Grid [n, t] K, rows = r.signature.inputs.map y ∧
      out = ⟨(r.states ++ r.outputs).map y, []⟩ ∧
      r.NamedRun args s (fun i z => fluxesAt i (r.rowsRead.map z) = .ok (r.fluxOutputs.map z)) y := by
  obtain ⟨rfl, hinit⟩ := RunData.prepare_eq_ok hd
  have hstrict := hs.strictTimes hd
  obtain ⟨q, hq, hqd⟩ := r.rateProgram_exists d.settings.backend
  have hrates := serves_rateProgram (RunData.supplies_of_prepare hd) hqd
  obtain ⟨states, fluxes, inflow, hrun, rfl⟩ := columnRun_of_run hp hq hs.solver hstrict hinit hsize
    htimes hflux (fun _ _ houts i => hrates.evalAt_nodes houts i) h
  have hlength : (rows ++ (states ++ fluxes ++ [inflow])).length =
      (r.signature.inputs ++ (r.states ++ r.outputs)).length := by
    simp only [List.length_append, RouteDraft.outputs, List.length_singleton, hrows,
      hrun.states_length, hrun.fluxes_length, Nat.add_assoc]
  have hnames : (r.signature.inputs ++ (r.states ++ r.outputs)).Nodup :=
    List.nodup_append.2 ⟨Signature.nodup_inputs_ofDeclarations, r.rowNames_nodup,
      fun v hv w hw hvw => inputs_notMem hv (hvw ▸ hw)⟩
  obtain ⟨y, hy, -⟩ := exists_rows_by_name hnames hlength fun _ => Grid.replicate Scalar.zero
  rw [List.map_append] at hy
  obtain ⟨rfl, hout⟩ := List.append_inj hy (hrows.trans (List.length_map _).symm)
  refine ⟨y, rfl, by rw [hout], ?_⟩
  simp only [RouteDraft.outputs, List.map_append, ← List.append_assoc] at hout
  obtain ⟨hlocal, hinflow⟩ := List.append_inj' hout rfl
  obtain ⟨rfl, rfl⟩ := List.append_inj hlocal (hrun.states_length.trans (List.length_map _).symm)
  obtain rfl : inflow = y r.inflow := (List.cons.inj hinflow).1
  exact (columnRun_iff_namedRun hfree hd hqd fun _ _ => Iff.rfl).1 hrun

/-- A run of elementwise fluxes returns rows by name that are a run of the route. -/
theorem namedRun_of_elementwise {d : RunData n t K} (hfree : RatesFree r.rates)
    (hlaws : ∀ f ∈ r.fluxes, f.Elementwise args.params) (hs : s.Stepwise t)
    (hsize : r.topology.size = n) (hd : RunData.prepare r.signature n t args s = .ok d)
    {rows : List (Grid [n, t] K)} (hrows : rows.length = r.signature.inputs.length)
    {out : Outcome n t K} (h : r.run d rows = .ok out) :
    ∃ fluxesHold, ∃ y : String → Grid [n, t] K, rows = r.signature.inputs.map y ∧
      out = ⟨(r.states ++ r.outputs).map y, []⟩ ∧ r.NamedRun args s fluxesHold y := by
  obtain ⟨hsettings, -⟩ := RunData.prepare_eq_ok hd
  obtain ⟨p, hp⟩ := (accepted_of_run hsize h).1
  rw [hsettings] at hp
  have hpd := Program.draft_of_compile hp
  have hparams (k : String) (hk : k ∈ p.params) (i : Fin n) :
      ∃ x, nodeScope d.params i k = some (.double x) :=
    ⟨_, RunData.nodeScope_of_prepare hd i (params_fluxProgram hpd hk)⟩
  obtain ⟨f, hf⟩ := Program.run_elementwise
    (fun (g : Declaration K) (hg : g ∈ p.fluxes) => show g.Elementwise d.networkWeights by
      rw [hpd] at hg
      exact (hlaws g (r.ordered_perm.mem_iff.1 hg)).networkWeights hd)
    (by rw [hpd]; exact r.rowsRead_nodup)
  let fluxesAt (i : Fin n) (xs : List K) : Except Fault (List K) := .ok (f (nodeScope d.params i) xs)
  have htimes (rows outs : List (Grid [n, t] K)) (hrun : p.run rows d.timeBindings d.networkWeights =
      .ok outs) (i : Fin n) (j : Fin t) : fluxesAt i (columnAt rows i j) = .ok (columnAt outs i j) :=
    congrArg Except.ok
      (hf d.timeBindings_hold (fun k hk i => hparams k hk i.head) hrun (.nodeTime i j)).symm
  have hflux (rows outs : List (Grid [n] K)) (hrun : p.run rows d.nodeBindings d.networkWeights =
      .ok outs) (i : Fin n) :
      fluxesAt i (rows.map (·.get (.node i))) = .ok (outs.map (·.get (.node i))) :=
    congrArg Except.ok
      (hf d.nodeBindings_hold (fun k hk i => hparams k hk i.head) hrun (.node i)).symm
  obtain ⟨y, hy, hout, hnamed⟩ := exists_namedRun hfree hs hsize hd hp htimes hflux hrows h
  exact ⟨_, y, hy, hout, hnamed⟩

end

end Route

end Catchment
