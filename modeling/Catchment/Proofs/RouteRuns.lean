import Catchment.Proofs.AcceptedRuns
import Catchment.Proofs.DoubleOrder
import Catchment.Proofs.RateFormulas
import Catchment.Proofs.RouteColumns

/-!
# Route runs

A fixed-step run of a route of formulas is a recurrence of the whole network: at each time the
fluxes are evaluated at every node, every node gains the outflows of its tributaries at that time,
and then each state gains its rate.
-/
namespace Catchment

variable {K : Type} [Scalar K]

namespace Route

variable {r : Route K}

theorem fluxProgram_exists {params τ : Scope K} {xs : List K}
    (h : evalFormulas params (r.ordered.flatMap Declaration.formulas) (scopeOf r.rowsRead xs) =
      .ok τ) :
    ∃ p, r.fluxProgram .elementwise = .ok p ∧
      p.toProgramDraft = ⟨.elementwise, r.ordered, r.rowsRead, r.fluxOutputs⟩ := by
  refine fluxProgram_of_reads .elementwise nofun fun f hf hv => ?_
  obtain ⟨g, hg, hread⟩ := mem_reads_of_inflow hf hv
  obtain ⟨hframe, hvalue⟩ := (Declaration.scheduled r.inOrder).evalFormulas_eq_ok.1 h
  obtain ⟨c, hc, -⟩ := hvalue g (List.mem_flatMap.2 ⟨f, hf, hg⟩)
  have hsome := Expr.isSome_of_evalCell hc r.inflow hread
  rw [hframe r.inflow, scopeOf, lookup_zip_of_notMem] at hsome
  · exact absurd hsome Bool.false_ne_true
  · exact fun hrow => r.rowsRead_notMem_outputs hrow (r.mem_outputs.2 (.inr rfl))
  · intro hmem
    obtain ⟨g', hg', hname⟩ := List.mem_map.1 hmem
    obtain ⟨f', hf', hg'⟩ := List.mem_flatMap.1 hg'
    refine r.inflow_notMem (r.mem_fluxOutputs.2 (List.mem_flatMap.2 ⟨f', hf', ?_⟩))
    exact hname ▸ f'.formulas_subset hg'

/-- The flux outputs at a node and a time from the inputs and the states there. -/
def fluxesAt (r : Route K) (order : List (Declaration K)) (params : Scope K)
    (inputs states : List K) : Except Fault (List K) :=
  evalOutputs params (order.flatMap Declaration.formulas) r.fluxOutputs
    (scopeOf r.rowsRead (inputs ++ states))

def ratesAt (r : Route K) (params : Scope K) (inputs states fluxes : List K) (inflow : K) :
    Except Fault (List K) :=
  evalRates params r.rates
    (scopeOf (r.rowsRead ++ r.outputs) (inputs ++ states ++ fluxes ++ [inflow]))

def statesAfter (r : Route K) (params : Scope K) (minValue : Option K)
    (inputs states fluxes : List K) (inflow : K) : Except Fault (List K) := do
  return addRates minValue states (← r.ratesAt params inputs states fluxes inflow)

/-- Rows of states, flux outputs and inflow that follow the recurrence of the network. -/
structure NetworkRun {n t : Nat} (r : Route K) (order : List (Declaration K)) (d : RunData n t K)
    (inputs states fluxes : List (Grid [n, t] K)) (inflow : Grid [n, t] K) : Prop where
  states_length : states.length = r.states.length
  fluxes_length : fluxes.length = r.fluxOutputs.length
  initial : ∀ i (j : Fin t), j.val = 0 →
    columnAt states i j = d.initial.map (·.get (.node i))
  fluxes_eq : ∀ i j, r.fluxesAt order (nodeScope d.params i) (columnAt inputs i j)
    (columnAt states i j) = .ok (columnAt fluxes i j)
  inflow_eq : ∃ outflow, (r.fluxOutputs.zip fluxes).lookup r.outflow = some outflow ∧
    ∀ i j, inflow.get (.nodeTime i j) =
      r.topology.inflowSum (fun k : Fin n => outflow.get (.nodeTime k j)) i
  states_succ : ∀ i (j j' : Fin t), j'.val = j.val + 1 →
    r.statesAfter (nodeScope d.params i) d.settings.minValue (columnAt inputs i j)
      (columnAt states i j) (columnAt fluxes i j) (inflow.get (.nodeTime i j)) =
        .ok (columnAt states i j')

variable {order order' : List (Declaration K)}

/-- The order of evaluation does not matter as long as it is a dependency order. -/
theorem fluxesAt_perm (hperm : order.Perm order') (ho : Item.InOrder (order.map Declaration.item))
    (ho' : Item.InOrder (order'.map Declaration.item)) {params : Scope K}
    {inputs states xs : List K} (h : r.fluxesAt order params inputs states = .ok xs) :
    r.fluxesAt order' params inputs states = .ok xs := by
  obtain ⟨τ, hτ, hread⟩ := bind_eq_ok.1 h
  refine bind_eq_ok.2 ⟨τ, ?_, hread⟩
  exact (Scheduled.evalFormulas_perm (Declaration.scheduled ho) (Declaration.scheduled ho')
    (hperm.flatMap_right _)).1 hτ

theorem NetworkRun.of_perm {n t : Nat} {d : RunData n t K}
    {inputs states fluxes : List (Grid [n, t] K)} {inflow : Grid [n, t] K}
    (hperm : order.Perm order') (ho : Item.InOrder (order.map Declaration.item))
    (ho' : Item.InOrder (order'.map Declaration.item))
    (h : r.NetworkRun order d inputs states fluxes inflow) :
    r.NetworkRun order' d inputs states fluxes inflow :=
  { h with fluxes_eq := fun i j => fluxesAt_perm hperm ho ho' (h.fluxes_eq i j) }

theorem evalOutputs_rateProgram {q : Program K} (hfree : RatesFree r.rates)
    (hq : q.toProgramDraft = ⟨.elementwise, r.rates.map .state, r.rowsRead ++ r.outputs,
      r.states.map rateName⟩) (params : Scope K) (known xs : List K) :
    evalOutputs params q.formulas q.outputs (scopeOf q.inputs known) = .ok xs ↔
      evalRates params r.rates (scopeOf (r.rowsRead ++ r.outputs) known) = .ok xs := by
  rw [Program.formulas, hq, flatMap_formulas_state]
  exact evalOutputs_rates r.states_nodup hfree [] _ xs

variable {n t : Nat} {d : RunData n t K} {rows : List (Grid [n, t] K)}

theorem networkRun_iff_columnRun {states fluxes : List (Grid [n, t] K)} {inflow : Grid [n, t] K} :
    r.NetworkRun order d rows states fluxes inflow ↔
      r.ColumnRun d
        (fun i xs => evalOutputs (nodeScope d.params i) (order.flatMap Declaration.formulas)
          r.fluxOutputs (scopeOf r.rowsRead xs))
        (fun i xs => evalRates (nodeScope d.params i) r.rates
          (scopeOf (r.rowsRead ++ r.outputs) xs)) rows states fluxes inflow :=
  ⟨fun h => ⟨h.states_length, h.fluxes_length, h.initial, h.fluxes_eq, h.inflow_eq, h.states_succ⟩,
    fun h => ⟨h.states_length, h.fluxes_length, h.initial, h.fluxes_eq, h.inflow_eq, h.states_succ⟩⟩

section

variable [OrderedScalar K]

/-- A run of a route of formulas with a fixed-step solver is a recurrence of the network. -/
theorem networkRun_of_run (hlaws : ∀ f ∈ r.fluxes, f.lawName? = none) (hfree : RatesFree r.rates)
    (hbackend : d.settings.backend = .elementwise) (hsolver : d.settings.solver ≠ .adaptive)
    (hstrict : StrictTimes d.times) (hinit : d.initial.length = r.states.length)
    (hsize : r.topology.size = n) {out : Outcome n t K} (h : r.run d rows = .ok out) :
    ∃ states fluxes inflow, r.NetworkRun r.ordered d rows states fluxes inflow ∧
      out = ⟨states ++ fluxes ++ [inflow], []⟩ := by
  have hrun := h
  rw [run, dif_pos hsize, hbackend] at hrun
  obtain ⟨p, hp, hrun⟩ := bind_eq_ok.1 hrun
  obtain ⟨q, hq, -⟩ := bind_eq_ok.1 hrun
  have hpd := Program.draft_of_compile hp
  have hqd := Program.draft_of_compile hq
  have hpb : p.backend = .elementwise := congrArg ProgramDraft.backend hpd
  have hqb : q.backend = .elementwise := congrArg ProgramDraft.backend hqd
  have hpi : p.inputs.Nodup := by rw [hpd]; exact r.rowsRead_nodup
  have hqi : q.inputs.Nodup := by rw [hqd]; exact r.rowsKnown_nodup
  simp only [networkRun_iff_columnRun]
  refine columnRun_of_run (hbackend ▸ hp) (hbackend ▸ hq) hsolver hstrict hinit hsize
    (fun rows outs houts i j => ?_) (fun rows outs houts i => ?_) (fun rows outs houts i => ?_) h
  · have hrun := Program.run_times hpb (byFormulas_fluxProgram hlaws hpd) hpi houts i j
    rwa [Program.formulas, hpd] at hrun
  · have hrun := Program.run_nodes hpb (byFormulas_fluxProgram hlaws hpd) hpi houts i
    rwa [Program.formulas, hpd] at hrun
  · have hrun := Program.run_nodes hqb (byFormulas_rateProgram hqd) hqi houts i
    rwa [evalOutputs_rateProgram hfree hqd] at hrun

/-- Where there is a node, rows that follow the recurrence are what a run returns. -/
theorem run_of_networkRun (hlaws : ∀ f ∈ r.fluxes, f.lawName? = none) (hfree : RatesFree r.rates)
    (hbackend : d.settings.backend = .elementwise) (hsolver : d.settings.solver ≠ .adaptive)
    (hstrict : StrictTimes d.times) (hinit : d.initial.length = r.states.length)
    (hsize : r.topology.size = n) (hn : 0 < n) (ht : 0 < t)
    {states fluxes : List (Grid [n, t] K)} {inflow : Grid [n, t] K}
    (h : r.NetworkRun r.ordered d rows states fluxes inflow) :
    r.run d rows = .ok ⟨states ++ fluxes ++ [inflow], []⟩ := by
  obtain ⟨τ, hτ, -⟩ := bind_eq_ok.1 (h.fluxes_eq ⟨0, hn⟩ ⟨0, ht⟩)
  obtain ⟨p, hp, hpd⟩ := fluxProgram_exists hτ
  obtain ⟨q, hq, hqd⟩ := r.rateProgram_exists .elementwise
  have hpb : p.backend = .elementwise := congrArg ProgramDraft.backend hpd
  have hqb : q.backend = .elementwise := congrArg ProgramDraft.backend hqd
  have hpi : p.inputs.Nodup := by rw [hpd]; exact r.rowsRead_nodup
  have hqi : q.inputs.Nodup := by rw [hqd]; exact r.rowsKnown_nodup
  rw [networkRun_iff_columnRun] at h
  refine run_of_columnRun (hbackend ▸ hp) (hbackend ▸ hq) hsolver hstrict hinit hsize ht
    (fun rows outs _ houts => ?_) (fun rows outs _ houts => ?_) (fun rows outs _ houts => ?_)
    (fun i xs ys hys => ?_) (fun i xs ys hys => ?_) h
  · refine Program.run_of_times hpb (byFormulas_fluxProgram hlaws hpd) hpi hn ht fun i j => ?_
    rw [Program.formulas, hpd]
    exact houts i j
  · refine Program.run_of_nodes hpb (byFormulas_fluxProgram hlaws hpd) hpi hn fun i => ?_
    rw [Program.formulas, hpd]
    exact houts i
  · refine Program.run_of_nodes hqb (byFormulas_rateProgram hqd) hqi hn fun i => ?_
    exact (evalOutputs_rateProgram hfree hqd _ _ _).2 (houts i)
  · obtain ⟨τ, -, hys⟩ := bind_eq_ok.1 hys
    exact (mapM_eq_ok.1 hys).length_eq.symm
  · rw [length_evalRates hys, RouteDraft.states, List.length_map]

/-- The rows of a route are its states, its flux outputs in the order of declaration and its
inflow. A run with a fixed-step solver returns rows that follow the recurrence of the network,
whatever the order of evaluation, and where there is a node it returns them if there are any. -/
theorem run_follows_network {r : Route K} {input : Nested K} {args : RunArguments K}
    {s : Settings K} {given : InputRows K} {d : RunData given.nodes given.times K}
    (h : (Component.route r).Accepts input args s given d)
    (hlaws : ∀ f ∈ r.fluxes, f.lawName? = none) (hfree : RatesFree r.rates)
    (hbackend : s.backend = .elementwise) (hsolver : s.solver ≠ .adaptive)
    (hstrict : StrictTimes d.times) (ht : 0 < given.times) :
    (Component.route r).rowNames = r.rates.map (fun d => d.state) ++
        (orderedUnion (r.fluxes.map Declaration.outputs) ++ [r.inflow]) ∧
      (r.ordered.Perm r.fluxes ∧ Item.InOrder (r.ordered.map Declaration.item)) ∧
      ∀ order : List (Declaration K), order.Perm r.fluxes →
        Item.InOrder (order.map Declaration.item) →
        (∀ result, (Component.route r).run input args s = .ok result →
          ∃ states fluxes inflow, r.NetworkRun order d given.rows states fluxes inflow ∧
            result = given.result (states ++ fluxes ++ [inflow]) []) ∧
        (0 < given.nodes → ∀ states fluxes inflow,
          r.NetworkRun order d given.rows states fluxes inflow →
          (Component.route r).run input args s =
            .ok (given.result (states ++ fluxes ++ [inflow]) [])) := by
  obtain ⟨hsize, hprepare⟩ := Component.prepareFor_route h.prepared
  obtain ⟨rfl, hinit⟩ := RunData.prepare_eq_ok hprepare
  refine ⟨rfl, ⟨r.ordered_perm, r.inOrder⟩, fun order hperm ho => ⟨fun result hrun => ?_, ?_⟩⟩
  · rw [h.run_route] at hrun
    obtain ⟨out, hout, hresult⟩ := bind_eq_ok.1 hrun
    obtain ⟨states, fluxes, inflow, hnetwork, rfl⟩ :=
      networkRun_of_run hlaws hfree hbackend hsolver hstrict hinit hsize hout
    exact ⟨states, fluxes, inflow,
      hnetwork.of_perm (r.ordered_perm.trans hperm.symm) r.inOrder ho, (Except.ok.inj hresult).symm⟩
  · intro hn states fluxes inflow hnetwork
    have hnetwork := hnetwork.of_perm (hperm.trans r.ordered_perm.symm) ho r.inOrder
    rw [h.run_route,
      run_of_networkRun hlaws hfree hbackend hsolver hstrict hinit hsize hn ht hnetwork]
    rfl

end

def drainage : FluxDraft Float where
  name := "outflow"
  outputs := ["q"]
  inputs := ["s"]
  params := ["k"]
  exprs := [.binary .mul (.var "s") (.par "k")]
  law := none

theorem drainage_accepted : drainage.fault? = none := by decide

theorem length_twoTimes : [Scalar.ofInt 0, (Scalar.ofInt 1 : Float)].length = 2 := rfl

def twoStores : Route Float where
  name := some "stores"
  fluxes := [.flux ⟨drainage, drainage_accepted⟩]
  rates := [⟨{
    name := "storage", state := "s", inputs := ["p", "u", "q"], params := []
    expr := .binary .sub (.binary .add (.var "p") (.var "u")) (.var "q") }, by decide⟩]
  topology := {
    nodes := [.text "above", .text "below"]
    edges := [(.text "above", .text "below")]
    accepted := rfl
    links := _
    links_eq := rfl }
  outflow := "q"
  inflow := "u"
  sort := true
  ordered := _
  order_eq := rfl
  accepted := RouteDraft.fault?_eq_none.2 (by decide)

def twoStoresData : RunData 2 2 Float where
  times := [Scalar.ofInt 0, Scalar.ofInt 1]
  times_length := length_twoTimes
  params := [("k", ⟨#v[Scalar.ratio 1 2, Scalar.ratio 1 2]⟩)]
  weights := []
  initial := [⟨#v[Scalar.one, Scalar.one]⟩]
  settings := .standard

theorem twoStores_networkRun : twoStores.NetworkRun twoStores.ordered twoStoresData
    [⟨#v[Scalar.one, Scalar.one, Scalar.one, Scalar.one]⟩]
    [⟨#v[Scalar.one, Scalar.ratio 3 2, Scalar.one, Scalar.ofInt 2]⟩]
    [⟨#v[Scalar.ratio 1 2, Scalar.ratio 3 4, Scalar.ratio 1 2, Scalar.one]⟩]
    ⟨#v[Scalar.zero, Scalar.zero, Scalar.ratio 1 2, Scalar.ratio 3 4]⟩ := by
  refine ⟨rfl, rfl, fun i j hj => ?_, fun i j => ?_, ⟨_, rfl, fun i j => ?_⟩, fun i j j' hj => ?_⟩
  · obtain rfl : j = 0 := Fin.ext hj
    match i with
    | 0 => exact Eq.trans (b := [Scalar.one]) rfl rfl
    | 1 => exact Eq.trans (b := [Scalar.one]) rfl rfl
  · match i, j with
    | 0, 0 => rfl
    | 0, 1 => rfl
    | 1, 0 => rfl
    | 1, 1 => rfl
  · match i, j with
    | 0, 0 => rfl
    | 0, 1 => rfl
    | 1, 0 => rfl
    | 1, 1 => rfl
  · obtain ⟨rfl, rfl⟩ : j = 0 ∧ j' = 1 := ⟨by omega, by omega⟩
    match i with
    | 0 => exact Eq.trans (b := .ok [Scalar.ratio 3 2]) rfl rfl
    | 1 => exact Eq.trans (b := .ok [Scalar.ofInt 2]) rfl rfl

theorem twoStores_run :
    let ones : Nested Float := .list [.entry (.real Scalar.one), .entry (.real Scalar.one)]
    (Component.route twoStores).run (.list [.list [ones, ones]])
      ⟨[("k", .entry (.real (Scalar.ratio 1 2)))], [("s", ones)]⟩ .standard =
        .ok ⟨Outcome.toTensor (n := 2) (t := 2)
          ⟨[⟨#v[Scalar.one, Scalar.ratio 3 2, Scalar.one, Scalar.ofInt 2]⟩,
            ⟨#v[Scalar.ratio 1 2, Scalar.ratio 3 4, Scalar.ratio 1 2, Scalar.one]⟩,
            ⟨#v[Scalar.zero, Scalar.zero, Scalar.ratio 1 2, Scalar.ratio 3 4]⟩], []⟩ false,
          []⟩ := by
  intro ones
  have haccepts : (Component.route twoStores).Accepts (.list [.list [ones, ones]])
      ⟨[("k", .entry (.real (Scalar.ratio 1 2)))], [("s", ones)]⟩ .standard
      ⟨2, 2, [⟨#v[Scalar.one, Scalar.one, Scalar.one, Scalar.one]⟩], false⟩ twoStoresData :=
    ⟨⟨_, rfl, rfl⟩, rfl, rfl⟩
  exact ((run_follows_network haccepts (by decide) (by decide) rfl (by decide)
    ⟨by decide, by decide⟩ (by decide)).2.2 twoStores.ordered twoStores.ordered_perm
    twoStores.inOrder).2 (by decide) _ _ _ twoStores_networkRun

end Route

end Catchment
