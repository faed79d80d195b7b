import Catchment.Proofs.AcceptedRuns
import Catchment.Proofs.NodewiseRuns
import Catchment.Proofs.PreparedRows
import Catchment.Proofs.RouteRuns
import Catchment.Proofs.RowCounts

/-!
# Upstream nodes

What a fixed-step run of a route returns at a node depends on the data of that node and of the nodes
upstream of it alone. Two runs whose data agree there have the same states there at every time, since
the nodes that drain into an upstream node are upstream nodes themselves. Missing and infinite numbers
elsewhere change nothing: what does not drain into a node is not read for it.
-/
namespace Catchment

/-- A path of the network leads from the first place to the second, perhaps an empty one. -/
def Topology.Reaches (t : Topology) {n : Nat} : Fin n → Fin n → Prop :=
  Relation.ReflTransGen fun j i => t.drains j i = true

variable {K : Type} [Scalar K] {n t : Nat}

/-- Marches over the same times whose steps keep a relation are related at all times. -/
theorem Marches.related {s s' : Shape} {minValue minValue' : Option K} {rate : Rate s K}
    {rate' : Rate s' K} {u : Grid s K} {u' : Grid s' K} {times : List K}
    {columns : List (Grid s K)} {columns' : List (Grid s' K)} (R : Grid s K → Grid s' K → Prop)
    (h : Marches minValue rate u times columns) (h' : Marches minValue' rate' u' times columns')
    (hinit : R u u')
    (hstep : ∀ v v' w w' time, R v v' → advanceOnce minValue rate v time = .ok w →
      advanceOnce minValue' rate' v' time = .ok w' → R w w') {j : Nat} {v : Grid s K}
    {v' : Grid s' K} (hv : columns[j]? = some v) (hv' : columns'[j]? = some v') : R v v' := by
  induction j generalizing v v' with
  | zero =>
    rw [← List.head?_eq_getElem?] at hv hv'
    rwa [h.head v hv, h'.head v' hv']
  | succ j ih =>
    obtain ⟨hlt, -⟩ := List.getElem?_eq_some_iff.1 hv
    obtain ⟨hlt', -⟩ := List.getElem?_eq_some_iff.1 hv'
    have htime : j < times.length := by
      have := h.length
      omega
    have hw := List.getElem?_eq_getElem (Nat.lt_of_succ_lt hlt)
    have hw' := List.getElem?_eq_getElem (Nat.lt_of_succ_lt hlt')
    have ht := List.getElem?_eq_getElem htime
    exact hstep _ _ _ _ _ (ih hw hw') (h.step j _ _ _ hw hv ht) (h'.step j _ _ _ hw' hv' ht)

/-- The value at a node at any time depends on the rows of that node alone. -/
theorem Forcing.nodeColumn_value_congr {times : List K} {rows rows' : List (Grid [n, t] K)}
    {f : Forcing [rows.length, n] K} {f' : Forcing [rows'.length, n] K}
    (hf : make times (timeColumns rows) = .ok f) (hf' : make times (timeColumns rows') = .ok f')
    (hlen : rows.length = rows'.length) {k : Fin n}
    (h : ∀ j, columnAt rows k j = columnAt rows' k j) (scheme : Interpolation) (x : K) :
    (f.value scheme x).nodeColumn k = (f'.value scheme x).nodeColumn k := by
  have hpick : rows.map (Grid.pick (.alongNode k)) = rows'.map (Grid.pick (.alongNode k)) := by
    refine List.ext_getElem (by simp [hlen]) fun l hl hl' => Grid.ext_get fun j => ?_
    have hl : l < rows.length := by simpa using hl
    have hl' : l < rows'.length := hlen ▸ hl
    have hcell := congrArg (·[l]?) (h j.tail.head)
    simpa [columnAt, hl, hl', Index.alongNode] using hcell
  have hsame {a b : List (Grid [1, t] K)} (hab : a = b) {g : Forcing [a.length, 1] K}
      {g' : Forcing [b.length, 1] K} (hg : make times (timeColumns a) = .ok g)
      (hg' : make times (timeColumns b) = .ok g') :
      (g.value scheme x).rows = (g'.value scheme x).rows := by
    subst hab
    rw [Except.ok.inj (hg.symm.trans hg')]
  obtain ⟨g, hg⟩ := (make_pick_iff k).2 ⟨f, hf⟩
  obtain ⟨g', hg'⟩ := (make_pick_iff k).2 ⟨f', hf'⟩
  have hrows := (value_pick_of_make hf hg scheme x).symm.trans
    ((hsame hpick hg hg').trans (value_pick_of_make hf' hg' scheme x))
  have hget := congrArg (List.map fun g : Grid [1] K => g.get (.node 0)) hrows
  simp only [Grid.map_get_pick] at hget
  exact hget

omit [Scalar K] in
theorem Settings.eq_of_withoutClasses {s s' : Settings K}
    (h : s.withoutClasses = s'.withoutClasses) : s.solver = s'.solver ∧
      s.interpolation = s'.interpolation ∧ s.minValue = s'.minValue ∧ s.backend = s'.backend ∧
      s.times = s'.times := by
  simp only [withoutClasses, mk.injEq] at h
  obtain ⟨hsolver, hinterpolation, htimes, hminValue, -, -, -, -, -, -, -, hbackend⟩ := h
  exact ⟨hsolver, hinterpolation, hminValue, hbackend, htimes⟩

/-- Two runs are given the same inputs, parameters and initial states at a node. -/
structure RunData.AgreeAt (d d' : RunData n t K) (rows rows' : List (Grid [n, t] K)) (k : Fin n) :
    Prop where
  inputs : ∀ j, columnAt rows k j = columnAt rows' k j
  params : nodeScope d.params k = nodeScope d'.params k
  initial : d.initial.map (·.get (.node k)) = d'.initial.map (·.get (.node k))

namespace Route

variable {r : Route K} {d d' : RunData n t K} {rows rows' : List (Grid [n, t] K)} {p q : Program K}
  {feeders : Fin n → List (Fin n)} {l l' m m' : Nat} {i : Fin n}

structure Given (r : Route K) (d : RunData n t K) : Prop where
  laws : ∀ f ∈ r.fluxes, f.lawName? = none
  params : ∀ k ∈ r.signature.params, ∀ i, ∃ x, nodeScope d.params i k = some (.double x)

theorem inflow_congr (hfeeders : ∀ i, feeders i = r.topology.upstream n i) {s : Shape}
    {fluxes fluxes' : List (Grid (n :: s) K)} {inflow inflow' : Grid (n :: s) K}
    (h : r.inflowOf feeders fluxes = .ok inflow) (h' : r.inflowOf feeders fluxes' = .ok inflow')
    {k : Fin n} {j : Index s} (hfluxes : ∀ k' : Fin n, r.topology.drains k' k = true →
      fluxes.map (·.get (.cons k' j)) = fluxes'.map (·.get (.cons k' j))) :
    inflow.get (.cons k j) = inflow'.get (.cons k j) := by
  obtain ⟨outflow, houtflow, rfl⟩ := inflowOf_eq_ok.1 h
  obtain ⟨outflow', houtflow', rfl⟩ := inflowOf_eq_ok.1 h'
  rw [get_gatherRows_upstream hfeeders, get_gatherRows_upstream hfeeders]
  refine Topology.inflowSum_congr fun k' hk' => ?_
  rw [← outflowOf_map houtflow, ← outflowOf_map houtflow', hfluxes k' hk']

/-- A step keeps the states of all upstream nodes alike: each node that drains into one of them is one
of them. -/
theorem upstream_step {backend : Backend} {f : Forcing [l, n] K} {f' : Forcing [l', n] K}
    {u w : Grid [m, n] K} {u' w' : Grid [m', n] K} {time : K} (hd : r.Given d) (hd' : r.Given d')
    (hp : p.toProgramDraft = ⟨backend, r.ordered, r.rowsRead, r.fluxOutputs⟩)
    (hq : q.toProgramDraft = ⟨backend, r.rates.map .state, r.rowsRead ++ r.outputs,
      r.states.map rateName⟩)
    (hfeeders : ∀ i, feeders i = r.topology.upstream n i)
    (hminValue : d.settings.minValue = d'.settings.minValue)
    (hparams : ∀ k, r.topology.Reaches k i → nodeScope d.params k = nodeScope d'.params k)
    (hvalue : ∀ k, r.topology.Reaches k i →
      (f.value d.settings.interpolation time).nodeColumn k =
        (f'.value d'.settings.interpolation time).nodeColumn k)
    (hu : ∀ k, r.topology.Reaches k i → u.nodeColumn k = u'.nodeColumn k)
    (h : advanceOnce d.settings.minValue (r.rate p q feeders f d) u time = .ok w)
    (h' : advanceOnce d'.settings.minValue (r.rate p q feeders f' d') u' time = .ok w') :
    ∀ k, r.topology.Reaches k i → w.nodeColumn k = w'.nodeColumn k := by
  obtain ⟨g, hg, rfl⟩ := advanceOnce_eq_ok.1 h
  obtain ⟨g', hg', rfl⟩ := advanceOnce_eq_ok.1 h'
  obtain ⟨fluxes, inflow, hfluxes, hinflow, hrates⟩ := checkedRate_iff.1 hg
  obtain ⟨fluxes', inflow', hfluxes', hinflow', hrates'⟩ := checkedRate_iff.1 hg'
  have hlocal (k : Fin n) (hk : r.topology.Reaches k i) :
      fluxes.map (·.get (.node k)) = fluxes'.map (·.get (.node k)) := by
    refine (serves_fluxProgram hd.laws hd.params hp).congr_nodes
      (serves_fluxProgram hd'.laws hd'.params hp) hfluxes hfluxes' (hparams k hk) ?_
    rw [map_rows_append, map_rows_append, hvalue k hk, hu k hk]
  intro k hk
  have hgain : g.nodeColumn k = g'.nodeColumn k := by
    refine (serves_rateProgram hd.params hq).congr_nodes (serves_rateProgram hd'.params hq)
      hrates hrates' (hparams k hk) ?_
    have hin : inflow.get (.node k) = inflow'.get (.node k) :=
      inflow_congr hfeeders hinflow hinflow' fun k' hk' => hlocal k' (.head hk' hk)
    rw [map_rows_known, map_rows_known, hvalue k hk, hu k hk, hlocal k hk, hin]
  rw [nodeColumn_raise, nodeColumn_raise, hminValue, hu k hk, hgain]

/-- States that march along the same times from data that agree upstream agree there at every time. -/
theorem upstream_states {backend : Backend} {f : Forcing [rows.length, n] K}
    {f' : Forcing [rows'.length, n] K} (hd : r.Given d) (hd' : r.Given d')
    (hp : p.toProgramDraft = ⟨backend, r.ordered, r.rowsRead, r.fluxOutputs⟩)
    (hq : q.toProgramDraft = ⟨backend, r.rates.map .state, r.rowsRead ++ r.outputs,
      r.states.map rateName⟩)
    (hfeeders : ∀ i, feeders i = r.topology.upstream n i)
    (hminValue : d.settings.minValue = d'.settings.minValue)
    (hscheme : d.settings.interpolation = d'.settings.interpolation)
    (hlen : rows.length = rows'.length)
    (hagree : ∀ k, r.topology.Reaches k i → d.AgreeAt d' rows rows' k)
    (hf : Forcing.make d.times (timeColumns rows) = .ok f)
    (hf' : Forcing.make d.times (timeColumns rows') = .ok f')
    {columns : List (Grid [d.initial.length, n] K)} {columns' : List (Grid [d'.initial.length, n] K)}
    (hmarch : Marches d.settings.minValue (r.rate p q feeders f d) (Grid.stack d.initial) d.times
      columns)
    (hmarch' : Marches d'.settings.minValue (r.rate p q feeders f' d') (Grid.stack d'.initial) d.times
      columns') {k : Fin n} (hk : r.topology.Reaches k i) (j : Fin t) :
    columnAt (stateRows d.initial.length t columns) k j =
      columnAt (stateRows d'.initial.length t columns') k j := by
  have hlt : j.val < columns.length := by rw [hmarch.length, d.times_length]; exact j.isLt
  have hlt' : j.val < columns'.length := by rw [hmarch'.length, d.times_length]; exact j.isLt
  rw [columnAt_stateRows _ k j hlt, columnAt_stateRows _ k j hlt']
  refine hmarch.related (fun u u' => ∀ k, r.topology.Reaches k i →
    u.nodeColumn k = u'.nodeColumn k) hmarch' (fun k hk => ?_) (fun v v' w w' time hv hw hw' => ?_)
    (List.getElem?_eq_getElem hlt) (List.getElem?_eq_getElem hlt') k hk
  · rw [Grid.nodeColumn, Grid.nodeColumn, Grid.rows_stack, Grid.rows_stack]
    exact (hagree k hk).initial
  · refine upstream_step hd hd' hp hq hfeeders hminValue (fun k hk => (hagree k hk).params)
      (fun k hk => ?_) hv hw hw'
    rw [hscheme]
    exact Forcing.nodeColumn_value_congr hf hf' hlen (hagree k hk).inputs _ time

/-- Two runs that are given the same at a node and upstream of it return the same there. -/
theorem run_congr_upstream (hd : r.Given d) (hd' : r.Given d')
    (hsolver : d.settings.solver ≠ .adaptive)
    (hsettings : d.settings.withoutClasses = d'.settings.withoutClasses) (htimes : d.times = d'.times)
    (hsize : r.topology.size = n) (hlen : rows.length = rows'.length)
    (hagree : ∀ k, r.topology.Reaches k i → d.AgreeAt d' rows rows' k) {out out' : Outcome n t K}
    (h : r.run d rows = .ok out) (h' : r.run d' rows' = .ok out') :
    out.warnings = [] ∧ out'.warnings = [] ∧
      ∀ j, columnAt out.rows i j = columnAt out'.rows i j := by
  obtain ⟨hsolvers, hscheme, hminValue, hbackend, -⟩ := Settings.eq_of_withoutClasses hsettings
  rw [run, dif_pos hsize] at h h'
  obtain ⟨p, hp, h⟩ := bind_eq_ok.1 h
  obtain ⟨q, hq, h⟩ := bind_eq_ok.1 h
  obtain ⟨f, hf, h⟩ := bind_eq_ok.1 h
  obtain ⟨path, hpath, h⟩ := bind_eq_ok.1 h
  obtain ⟨fluxes, hfluxes, h⟩ := bind_eq_ok.1 h
  obtain ⟨inflow, hinflow, h⟩ := bind_eq_ok.1 h
  obtain rfl := Except.ok.inj h
  rw [← hbackend, hp, hq, ok_bind, ok_bind] at h'
  simp only [runStates, ← htimes] at h'
  obtain ⟨f', hf', h'⟩ := bind_eq_ok.1 h'
  obtain ⟨path', hpath', h'⟩ := bind_eq_ok.1 h'
  obtain ⟨fluxes', hfluxes', h'⟩ := bind_eq_ok.1 h'
  obtain ⟨inflow', hinflow', h'⟩ := bind_eq_ok.1 h'
  obtain rfl := Except.ok.inj h'
  have hpd := Program.draft_of_compile hp
  have hqd := Program.draft_of_compile hq
  have hfeeders := r.topology.feeders_cast hsize
  obtain ⟨hmarch, hwarn⟩ := (advance_eq_ok hsolver).1 hpath
  obtain ⟨hmarch', hwarn'⟩ := (advance_eq_ok (hsolvers ▸ hsolver)).1 hpath'
  have hstates {k : Fin n} (hk : r.topology.Reaches k i) (j : Fin t) :=
    upstream_states hd hd' hpd hqd hfeeders hminValue hscheme hlen hagree hf hf' hmarch hmarch' hk j
  have hlocal (k : Fin n) (hk : r.topology.Reaches k i) (j : Fin t) :
      columnAt fluxes k j = columnAt fluxes' k j := by
    refine (serves_fluxProgram hd.laws hd.params hpd).congr_times
      (serves_fluxProgram hd'.laws hd'.params hpd) hfluxes hfluxes' (hagree k hk).params ?_
    have hinput : columnAt rows k j = columnAt rows' k j := (hagree k hk).inputs j
    have hstate := hstates hk j
    simp only [columnAt, List.map_append] at hinput hstate ⊢
    rw [hinput, hstate]
  refine ⟨hwarn, hwarn', fun j => ?_⟩
  have hin : inflow.get (.nodeTime i j) = inflow'.get (.nodeTime i j) :=
    inflow_congr hfeeders hinflow hinflow' fun k hk => hlocal k (.single hk) j
  have hstate := hstates .refl j
  have hflux := hlocal i .refl j
  simp only [columnAt, List.map_append, List.map_singleton] at hstate hflux ⊢
  rw [hstate, hflux, hin]

/-- The result of a fixed-step run of a route of formulas at a node depends on the inputs, parameters
and initial states of that node and of the nodes from which a path leads to it, and on no others. -/
theorem run_depends_on_upstream {r : Route K} {n t : Nat} {rows rows' : List (Grid [n, t] K)}
    {single single' : Bool} {input input' : Nested K} {args args' : RunArguments K}
    {s s' : Settings K} {d d' : RunData n t K}
    (h : (Component.route r).Accepts input args s ⟨n, t, rows, single⟩ d)
    (h' : (Component.route r).Accepts input' args' s' ⟨n, t, rows', single'⟩ d')
    (hlaws : ∀ f ∈ r.fluxes, f.lawName? = none) (hsolver : s.solver ≠ .adaptive)
    (hsettings : s.withoutClasses = s'.withoutClasses) {i : Fin n}
    (hagree : ∀ k, r.topology.Reaches k i → d.AgreeAt d' rows rows' k) {result result' : RunResult K}
    (hrun : (Component.route r).run input args s = .ok result)
    (hrun' : (Component.route r).run input' args' s' = .ok result') :
    ∃ out out' : List (Grid [n, t] K),
      result = InputRows.result ⟨n, t, rows, single⟩ out [] ∧
      result' = InputRows.result ⟨n, t, rows', single'⟩ out' [] ∧
      out.length = (Component.route r).rowNames.length ∧
      out'.length = (Component.route r).rowNames.length ∧
      ∀ j, columnAt out i j = columnAt out' i j := by
  obtain ⟨hsize, hprepare⟩ := Component.prepareFor_route h.prepared
  obtain ⟨-, hprepare'⟩ := Component.prepareFor_route h'.prepared
  obtain ⟨rfl, hinit⟩ := RunData.prepare_eq_ok hprepare
  obtain ⟨rfl, hinit'⟩ := RunData.prepare_eq_ok hprepare'
  rw [h.run_route] at hrun
  rw [h'.run_route] at hrun'
  obtain ⟨out, hout, hresult⟩ := bind_eq_ok.1 hrun
  obtain ⟨out', hout', hresult'⟩ := bind_eq_ok.1 hrun'
  have htimes : d.times = d'.times := by
    have h := (RunData.prepare_eq_ok_iff.1 hprepare).1
    have h' := (RunData.prepare_eq_ok_iff.1 hprepare').1
    rw [Settings.timesFor, (Settings.eq_of_withoutClasses hsettings).2.2.2.2] at h
    exact congrArg Subtype.val (Except.ok.inj (h.symm.trans h'))
  obtain ⟨hwarn, hwarn', hcolumns⟩ := run_congr_upstream
    ⟨hlaws, fun k hk i => ⟨_, RunData.nodeScope_of_prepare hprepare i hk⟩⟩
    ⟨hlaws, fun k hk i => ⟨_, RunData.nodeScope_of_prepare hprepare' i hk⟩⟩ hsolver hsettings htimes
    hsize (h.count.trans h'.count.symm) hagree hout hout'
  refine ⟨out.rows, out'.rows, ?_, ?_, length_run hinit hout, length_run hinit' hout', hcolumns⟩
  · rw [← hwarn]
    exact (Except.ok.inj hresult).symm
  · rw [← hwarn']
    exact (Except.ok.inj hresult').symm

def pair (x y : Float) : Nested Float := .list [.entry (.real x), .entry (.real y)]

def lowerInput (x y : Float) : Nested Float := .list [.list [pair Scalar.one Scalar.one, pair x y]]

def lowerArguments (k s : Float) : RunArguments Float :=
  ⟨[("k", pair (Scalar.ratio 1 2) k)], [("s", pair Scalar.one s)]⟩

def lowerData (k s : Float) : RunData 2 2 Float :=
  { twoStoresData with
    params := [("k", ⟨#v[Scalar.ratio 1 2, k]⟩)]
    initial := [⟨#v[Scalar.one, s]⟩] }

def knownNumbers : List Float := [Scalar.one, Scalar.ratio 3 2, Scalar.one, Scalar.ofInt 2,
  Scalar.ratio 1 2, Scalar.ratio 3 4, Scalar.ratio 1 2, Scalar.one,
  Scalar.zero, Scalar.zero, Scalar.ratio 1 2, Scalar.ratio 3 4]

def partlyMissing : List Float := [Scalar.one, Scalar.ratio 3 2, Scalar.nan, Scalar.nan,
  Scalar.ratio 1 2, Scalar.ratio 3 4, Scalar.nan, Scalar.nan,
  Scalar.zero, Scalar.zero, Scalar.ratio 1 2, Scalar.ratio 3 4]

/-- The upper of two stores fills alike whether the lower one is known or not. -/
theorem twoStores_upstream :
    ∃ result result' : RunResult Float,
      (Component.route twoStores).run (lowerInput Scalar.one Scalar.one)
        (lowerArguments (Scalar.ratio 1 2) Scalar.one) .standard = .ok result ∧
      result.rows.toList = knownNumbers ∧
      (Component.route twoStores).run (lowerInput Scalar.nan Scalar.infinity)
        (lowerArguments Scalar.nan Scalar.nan) .standard = .ok result' ∧
      result'.rows.toList = partlyMissing ∧
      ∃ out out' : List (Grid [2, 2] Float), result = ⟨Outcome.toTensor ⟨out, []⟩ false, []⟩ ∧
        result' = ⟨Outcome.toTensor ⟨out', []⟩ false, []⟩ ∧
        ∀ j, columnAt out 0 j = columnAt out' 0 j := by
  obtain ⟨result, hrun, hrows⟩ := exists_ok_of_check
    (p := fun result : RunResult Float => result.rows.toList = knownNumbers)
    (x := (Component.route twoStores).run (lowerInput Scalar.one Scalar.one)
      (lowerArguments (Scalar.ratio 1 2) Scalar.one) .standard) (by decide +kernel)
  obtain ⟨result', hrun', hrows'⟩ := exists_ok_of_check
    (p := fun result : RunResult Float => result.rows.toList = partlyMissing)
    (x := (Component.route twoStores).run (lowerInput Scalar.nan Scalar.infinity)
      (lowerArguments Scalar.nan Scalar.nan) .standard) (by decide +kernel)
  have haccepts : (Component.route twoStores).Accepts (lowerInput Scalar.one Scalar.one)
      (lowerArguments (Scalar.ratio 1 2) Scalar.one) .standard
      ⟨2, 2, [⟨#v[Scalar.one, Scalar.one, Scalar.one, Scalar.one]⟩], false⟩
      (lowerData (Scalar.ratio 1 2) Scalar.one) := ⟨⟨_, rfl, rfl⟩, rfl, rfl⟩
  have haccepts' : (Component.route twoStores).Accepts (lowerInput Scalar.nan Scalar.infinity)
      (lowerArguments Scalar.nan Scalar.nan) .standard
      ⟨2, 2, [⟨#v[Scalar.one, Scalar.one, Scalar.nan, Scalar.infinity]⟩], false⟩
      (lowerData Scalar.nan Scalar.nan) := ⟨⟨_, rfl, rfl⟩, rfl, rfl⟩
  have hupper (k : Fin 2) (hk : twoStores.topology.Reaches k 0) : k = 0 := by
    rcases Relation.ReflTransGen.cases_tail hk with h | ⟨j, -, hj⟩
    · exact h.symm
    · exact absurd hj ((by decide : ∀ j : Fin 2, ¬ twoStores.topology.drains j 0 = true) j)
  have hagree (k : Fin 2) (hk : twoStores.topology.Reaches k 0) :
      (lowerData (Scalar.ratio 1 2) Scalar.one).AgreeAt (lowerData Scalar.nan Scalar.nan)
        [⟨#v[Scalar.one, Scalar.one, Scalar.one, Scalar.one]⟩]
        [⟨#v[Scalar.one, Scalar.one, Scalar.nan, Scalar.infinity]⟩] k := by
    obtain rfl := hupper k hk
    refine ⟨fun j => ?_, ?_, rfl⟩
    · match j with
      | 0 => rfl
      | 1 => rfl
    · funext v
      simp only [nodeScope, lowerData, List.lookup_cons, List.lookup_nil]
      cases v == "k" <;> rfl
  obtain ⟨out, out', hout, hout', -, -, hcolumns⟩ := run_depends_on_upstream haccepts haccepts'
    (by decide) (by decide) rfl hagree hrun hrun'
  exact ⟨result, result', hrun, hrows, hrun', hrows', out, out', hout, hout', hcolumns⟩

end Route

end Catchment
