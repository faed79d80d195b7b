import Catchment.Route
import Catchment.Proofs.DeclaredNames
import Catchment.Proofs.NodeSteps
import Catchment.Proofs.ScheduledDeclarations
import Catchment.Proofs.Tributaries

/-!
# Runs of routes in columns

What a route declares, and its two programs. If these compute column by column, so does a fixed-step
run: at each time the fluxes of all nodes follow from their inputs and states, then every node gains
the outflows of its tributaries, and then each state gains its rate.
-/
namespace Catchment

variable {K : Type} [Scalar K]

theorem RouteDraft.fault?_eq_none {d : RouteDraft K} {ordered : List (Declaration K)} :
    d.fault? ordered = none ↔ d.states.Nodup ∧ (∀ s ∈ d.states, s ∉ d.outputs) ∧
      d.outflow ∈ d.fluxOutputs ∧ d.inflow ∉ d.fluxOutputs ∧
        ∀ f ∈ ordered, d.inflow ∉ f.inputs := by
  have hstate : d.signature.stateAndOutput? = none ↔ ∀ s ∈ d.states, s ∉ d.outputs :=
    Signature.stateAndOutput?_eq_none
  rw [RouteDraft.fault?, List.findSome?_eq_none_iff]
  simp only [List.mem_cons, List.not_mem_nil, or_false, forall_eq_or_imp, forall_eq, id, hstate,
    Option.map_eq_none_iff, ← repeated?_eq_none]
  simp

namespace Route

variable (r : Route K)

theorem states_nodup : r.states.Nodup := (RouteDraft.fault?_eq_none.1 r.accepted).1

theorem state_notMem_outputs : ∀ s ∈ r.states, s ∉ r.outputs :=
  (RouteDraft.fault?_eq_none.1 r.accepted).2.1

theorem outflow_mem : r.outflow ∈ r.fluxOutputs := (RouteDraft.fault?_eq_none.1 r.accepted).2.2.1

theorem inflow_notMem : r.inflow ∉ r.fluxOutputs :=
  (RouteDraft.fault?_eq_none.1 r.accepted).2.2.2.1

theorem inflow_notMem_inputs : ∀ f ∈ r.ordered, r.inflow ∉ f.inputs :=
  (RouteDraft.fault?_eq_none.1 r.accepted).2.2.2.2

theorem ordered_perm : r.ordered.Perm r.fluxes := (orderItems_eq_ok r.order_eq).1

theorem inOrder : Item.InOrder (r.ordered.map Declaration.item) := (orderItems_eq_ok r.order_eq).2

theorem mem_fluxOutputs {v : String} :
    v ∈ r.fluxOutputs ↔ v ∈ r.ordered.flatMap Declaration.outputs := by
  rw [RouteDraft.fluxOutputs, mem_orderedUnion, List.mem_flatMap]
  simp only [List.mem_map, exists_exists_and_eq_and, r.ordered_perm.mem_iff]

theorem mem_outputs {v : String} : v ∈ r.outputs ↔ v ∈ r.fluxOutputs ∨ v = r.inflow := by
  simp [RouteDraft.outputs]

theorem mem_inputs {v : String} : v ∈ r.signature.inputs ↔
    (∃ f ∈ r.fluxes ++ r.rates.map Declaration.state, v ∈ f.reads) ∧ v ∉ r.outputs ∧
      v ∉ r.states :=
  Signature.mem_inputs_ofDeclarations

theorem rowsRead_nodup : r.rowsRead.Nodup := by
  refine List.nodup_append.2 ⟨Signature.nodup_inputs_ofDeclarations, r.states_nodup, ?_⟩
  rintro v hv w hw rfl
  exact (r.mem_inputs.1 hv).2.2 hw

theorem rowsRead_notMem_outputs {v : String} (hv : v ∈ r.rowsRead) : v ∉ r.outputs := by
  rcases List.mem_append.1 hv with hv | hv
  · exact (r.mem_inputs.1 hv).2.1
  · exact r.state_notMem_outputs v hv

theorem rowsKnown_nodup : (r.rowsRead ++ r.outputs).Nodup := by
  refine List.nodup_append.2 ⟨r.rowsRead_nodup, ?_, ?_⟩
  · refine List.nodup_append.2 ⟨nodup_orderedUnion _, List.nodup_singleton _, ?_⟩
    rintro v hv w hw rfl
    exact r.inflow_notMem (List.mem_singleton.1 hw ▸ hv)
  · rintro v hv w hw rfl
    exact r.rowsRead_notMem_outputs hv hw

/-- What a declaration of a route reads is an input, a state or an output. -/
theorem reads_known {f : Declaration K} (hf : f ∈ r.fluxes ++ r.rates.map Declaration.state)
    {v : String} (hv : v ∈ f.reads) : v ∈ r.rowsRead ++ r.outputs := by
  simp only [List.mem_append, rowsRead]
  by_cases hout : v ∈ r.outputs
  · exact .inr hout
  · by_cases hstate : v ∈ r.states
    · exact .inl (.inr hstate)
    · exact .inl (.inl (r.mem_inputs.2 ⟨⟨f, hf, hv⟩, hout, hstate⟩))

variable {r}

/-- Only a rate among the fluxes may read the inflow, as its own state. -/
theorem mem_reads_of_inflow {f : Declaration K} (hf : f ∈ r.ordered) (hv : r.inflow ∈ f.reads) :
    ∃ g ∈ f.formulas, r.inflow ∈ g.2.reads := by
  have hinputs := r.inflow_notMem_inputs f hf
  cases f with
  | flux f => exact absurd hv hinputs
  | neural n => exact absurd hv hinputs
  | state d =>
    refine ⟨_, List.mem_singleton_self _, ?_⟩
    simp only [Declaration.reads, StateFlux.reads] at hv
    split at hv
    · exact absurd hv hinputs
    · rename_i hread
      rcases List.mem_append.1 hv with hv | hv
      · exact absurd hv hinputs
      · rw [List.mem_singleton.1 hv]
        simp only [Bool.or_eq_true, not_or, Bool.not_eq_true', Bool.not_eq_false,
          List.contains_iff_mem] at hread
        exact Expr.mem_varNames.1 hread.2

/-- Where no flux reads the inflow, the program of the fluxes compiles. -/
theorem fluxProgram_of_reads (backend : Backend)
    (hlaws : backend = .symbolic → ∀ f ∈ r.fluxes, f.lawName? = none)
    (hreads : ∀ f ∈ r.ordered, r.inflow ∉ f.reads) :
    ∃ p, r.fluxProgram backend = .ok p ∧
      p.toProgramDraft = ⟨backend, r.ordered, r.rowsRead, r.fluxOutputs⟩ := by
  refine Program.compile_exists (ProgramDraft.unavailable?_of_inOrder r.inOrder
    fun f hf v hv => ?_) (fun o ho => .inr (r.mem_fluxOutputs.1 ho))
    fun hbackend f hf => hlaws hbackend f (r.ordered_perm.mem_iff.1 hf)
  have hknown := r.reads_known (List.mem_append_left _ (r.ordered_perm.mem_iff.1 hf)) hv
  rcases List.mem_append.1 hknown with hread | hout
  · exact .inl hread
  · rcases r.mem_outputs.1 hout with hflux | rfl
    · exact .inr (r.mem_fluxOutputs.1 hflux)
    · exact absurd hv (hreads f hf)

theorem rateProgram_exists (r : Route K) (backend : Backend) :
    ∃ p, r.rateProgram backend = .ok p ∧
      p.toProgramDraft = ⟨backend, r.rates.map .state, r.rowsRead ++ r.outputs,
        r.states.map rateName⟩ := by
  refine Program.compile_exists (ProgramDraft.unavailable?_of_subset fun f hf v hv =>
    r.reads_known (List.mem_append_right _ hf) hv) (fun o ho => .inr ?_) fun _ f hf => ?_
  · obtain ⟨s, hs, rfl⟩ := List.mem_map.1 ho
    obtain ⟨d, hd, rfl⟩ := List.mem_map.1 hs
    exact List.mem_flatMap.2 ⟨.state d, List.mem_map_of_mem hd, List.mem_singleton_self _⟩
  · obtain ⟨d, -, rfl⟩ := List.mem_map.1 hf
    rfl

theorem mem_params (r : Route K) {k : String} : k ∈ r.signature.params ↔
    ∃ f ∈ r.fluxes ++ r.rates.map Declaration.state, k ∈ f.params := by
  show k ∈ orderedUnion _ ↔ _
  simp only [mem_orderedUnion, List.mem_map, exists_exists_and_eq_and]

section

variable {p q : Program K} {backend : Backend}

theorem byFormulas_fluxProgram (hlaws : ∀ f ∈ r.fluxes, f.lawName? = none)
    (hp : p.toProgramDraft = ⟨backend, r.ordered, r.rowsRead, r.fluxOutputs⟩) :
    p.ByFormulas := by
  intro f hf
  rw [hp] at hf
  exact hlaws f (r.ordered_perm.mem_iff.1 hf)

theorem byFormulas_rateProgram (hq : q.toProgramDraft = ⟨backend, r.rates.map .state,
    r.rowsRead ++ r.outputs, r.states.map rateName⟩) : q.ByFormulas := by
  intro f hf
  rw [hq] at hf
  obtain ⟨d, -, rfl⟩ := List.mem_map.1 hf
  rfl

theorem params_fluxProgram (hp : p.toProgramDraft = ⟨backend, r.ordered, r.rowsRead,
    r.fluxOutputs⟩) {k : String} (hk : k ∈ p.params) : k ∈ r.signature.params := by
  simp only [Program.params, hp, mem_orderedUnion, List.mem_map, exists_exists_and_eq_and] at hk
  obtain ⟨g, hg, hk⟩ := hk
  exact r.mem_params.2 ⟨g, List.mem_append_left _ (r.ordered_perm.mem_iff.1 hg), hk⟩

theorem params_rateProgram (hq : q.toProgramDraft = ⟨backend, r.rates.map .state,
    r.rowsRead ++ r.outputs, r.states.map rateName⟩) {k : String} (hk : k ∈ q.params) :
    k ∈ r.signature.params := by
  simp only [Program.params, hq, mem_orderedUnion, List.mem_map, exists_exists_and_eq_and] at hk
  obtain ⟨g, hg, hk⟩ := hk
  exact r.mem_params.2 ⟨_, List.mem_append_right _ (List.mem_map_of_mem hg), hk⟩

end

section

variable {n t : Nat} {s : Shape} {rows : List (Grid (n :: s) K)}

theorem outflow_exists {α : Type} {xs : List α} (h : xs.length = r.fluxOutputs.length) :
    ∃ x, (r.fluxOutputs.zip xs).lookup r.outflow = some x := by
  obtain ⟨k, hk, hname⟩ := List.mem_iff_getElem.1 r.outflow_mem
  exact ⟨_, hname ▸ lookup_zip_getElem (nodup_orderedUnion _) hk (h ▸ hk)⟩

def outflowOf (r : Route K) (fluxes : List K) : K :=
  ((r.fluxOutputs.zip fluxes).lookup r.outflow).getD Scalar.zero

theorem outflowOf_map {rows : List (Grid s K)} {outflow : Grid s K}
    (h : (r.fluxOutputs.zip rows).lookup r.outflow = some outflow) (i : Index s) :
    r.outflowOf (rows.map (·.get i)) = outflow.get i := by
  have hzip : r.fluxOutputs.zip (rows.map (·.get i)) =
      (r.fluxOutputs.zip rows).map fun p => (p.1, p.2.get i) := List.zip_map_right ..
  rw [outflowOf, hzip, lookup_map_snd (fun g : Grid s K => g.get i), h]
  rfl

theorem inflowOf_eq_ok {feeders : Fin n → List (Fin n)} {g : Grid (n :: s) K} :
    r.inflowOf feeders rows = .ok g ↔ ∃ outflow,
      (r.fluxOutputs.zip rows).lookup r.outflow = some outflow ∧
        gatherRows feeders outflow = g := by
  rw [inflowOf, bind_eq_ok]
  simp only [orFault_eq_ok, pure_eq_ok, Except.ok.injEq]

end

variable {n t m l : Nat} {d : RunData n t K} {rows : List (Grid [n, t] K)} {p q : Program K}
  {feeders : Fin n → List (Fin n)}

theorem get_gatherRows_upstream (hfeeders : ∀ i, feeders i = r.topology.upstream n i) {s : Shape}
    (q : Grid (n :: s) K) (i : Fin n) (k : Index s) :
    (gatherRows feeders q).get (.cons i k) =
      r.topology.inflowSum (fun k' : Fin n => q.get (.cons k' k)) i := by
  rw [get_gatherRows, hfeeders]
  rfl

theorem checkedRate_iff {f : Forcing [l, n] K} {u g : Grid [m, n] K} {time : K} :
    checkedRate (r.rate p q feeders f d) u time = .ok g ↔
      ∃ fluxes : List (Grid [n] K), ∃ inflow,
        p.run ((f.value d.settings.interpolation time).rows ++ u.rows) d.nodeBindings
          d.networkWeights = .ok fluxes ∧
        r.inflowOf feeders fluxes = .ok inflow ∧
        q.run ((f.value d.settings.interpolation time).rows ++ u.rows ++ fluxes ++ [inflow])
          d.nodeBindings d.networkWeights = .ok g.rows := by
  rw [checkedRate_eq_ok (x := do
    let fluxes ← p.run ((f.value d.settings.interpolation time).rows ++ u.rows) d.nodeBindings
      d.networkWeights
    let inflow ← r.inflowOf feeders fluxes
    q.run ((f.value d.settings.interpolation time).rows ++ u.rows ++ fluxes ++ [inflow])
      d.nodeBindings d.networkWeights) (by simp only [rate, bind_assoc])]
  simp only [bind_eq_ok, exists_and_left]

omit [Scalar K] in
/-- The numbers that the rates of a node are computed from. -/
theorem map_rows_known (v : Grid [l, n] K) (u : Grid [m, n] K) (fluxes : List (Grid [n] K))
    (inflow : Grid [n] K) (i : Fin n) :
    (v.rows ++ u.rows ++ fluxes ++ [inflow]).map (·.get (.node i)) =
      v.nodeColumn i ++ u.nodeColumn i ++ fluxes.map (·.get (.node i)) ++
        [inflow.get (.node i)] := by
  rw [List.map_append, List.map_append, map_rows_append, List.map_singleton]

/-- Rows of states, flux outputs and inflow that at every time follow from the columns before. -/
structure ColumnRun (r : Route K) (d : RunData n t K)
    (fluxesAt ratesAt : Fin n → List K → Except Fault (List K))
    (inputs states fluxes : List (Grid [n, t] K)) (inflow : Grid [n, t] K) : Prop where
  states_length : states.length = r.states.length
  fluxes_length : fluxes.length = r.fluxOutputs.length
  initial : ∀ i (j : Fin t), j.val = 0 → columnAt states i j = d.initial.map (·.get (.node i))
  fluxes_eq : ∀ i j, fluxesAt i (columnAt inputs i j ++ columnAt states i j) =
    .ok (columnAt fluxes i j)
  inflow_eq : ∃ outflow, (r.fluxOutputs.zip fluxes).lookup r.outflow = some outflow ∧
    ∀ i j, inflow.get (.nodeTime i j) =
      r.topology.inflowSum (fun k : Fin n => outflow.get (.nodeTime k j)) i
  states_succ : ∀ i (j j' : Fin t), j'.val = j.val + 1 →
    (do
      let rates ← ratesAt i (columnAt inputs i j ++ columnAt states i j ++ columnAt fluxes i j ++
        [inflow.get (.nodeTime i j)])
      return addRates d.settings.minValue (columnAt states i j) rates) =
        Except.ok (columnAt states i j')

variable {fluxesAt ratesAt : Fin n → List K → Except Fault (List K)}

def ColumnStep (r : Route K) (d : RunData n t K)
    (fluxesAt ratesAt : Fin n → List K → Except Fault (List K)) (inputs : Fin n → List K)
    (states next : Fin n → List K) : Prop :=
  ∃ fluxes : Fin n → List K, (∀ i, fluxesAt i (inputs i ++ states i) = .ok (fluxes i)) ∧
    ∀ i, (do
      let rates ← ratesAt i (inputs i ++ states i ++ fluxes i ++
        [r.topology.inflowSum (fun k => r.outflowOf (fluxes k)) i])
      return addRates d.settings.minValue (states i) rates) = Except.ok (next i)

variable {f : Forcing [l, n] K} {u w : Grid [m, n] K} {time : K}

/-- A step of all rows is a step of their columns. -/
theorem columnStep_of_advanceOnce
    (hflux : ∀ rows outs : List (Grid [n] K), p.run rows d.nodeBindings d.networkWeights = .ok outs →
      ∀ i, fluxesAt i (rows.map (·.get (.node i))) = .ok (outs.map (·.get (.node i))))
    (hrate : ∀ rows outs : List (Grid [n] K), q.run rows d.nodeBindings d.networkWeights = .ok outs →
      ∀ i, ratesAt i (rows.map (·.get (.node i))) = .ok (outs.map (·.get (.node i))))
    (hfeeders : ∀ i, feeders i = r.topology.upstream n i)
    (h : advanceOnce d.settings.minValue (r.rate p q feeders f d) u time = .ok w) :
    r.ColumnStep d fluxesAt ratesAt (f.value d.settings.interpolation time).nodeColumn
      u.nodeColumn w.nodeColumn := by
  obtain ⟨g, hg, rfl⟩ := advanceOnce_eq_ok.1 h
  obtain ⟨fluxes, inflow, hfluxes, hinflow, hrates⟩ := checkedRate_iff.1 hg
  obtain ⟨outflow, houtflow, rfl⟩ := inflowOf_eq_ok.1 hinflow
  refine ⟨fun i => fluxes.map (·.get (.node i)), fun i => ?_, fun i => ?_⟩
  · have hrun := hflux _ _ hfluxes i
    rwa [map_rows_append] at hrun
  · have hrun := hrate _ _ hrates i
    rw [map_rows_known] at hrun
    have hinflow : (gatherRows feeders outflow).get (.node i) =
        r.topology.inflowSum (fun k => r.outflowOf (fluxes.map (·.get (.node k)))) i := by
      simp only [outflowOf_map houtflow]
      exact get_gatherRows_upstream hfeeders outflow i .nil
    rw [nodeColumn_raise, ← hinflow, hrun]
    rfl

/-- A step of the columns is a step of all rows. -/
theorem advanceOnce_of_columnStep
    (hflux : ∀ rows outs : List (Grid [n] K), outs.length = r.fluxOutputs.length →
      (∀ i, fluxesAt i (rows.map (·.get (.node i))) = .ok (outs.map (·.get (.node i)))) →
        p.run rows d.nodeBindings d.networkWeights = .ok outs)
    (hrate : ∀ rows outs : List (Grid [n] K), outs.length = r.states.length →
      (∀ i, ratesAt i (rows.map (·.get (.node i))) = .ok (outs.map (·.get (.node i)))) →
        q.run rows d.nodeBindings d.networkWeights = .ok outs)
    (hfluxes : ∀ i xs ys, fluxesAt i xs = .ok ys → ys.length = r.fluxOutputs.length)
    (hrates : ∀ i xs ys, ratesAt i xs = .ok ys → ys.length = r.states.length)
    (hfeeders : ∀ i, feeders i = r.topology.upstream n i) (hm : m = r.states.length)
    (h : r.ColumnStep d fluxesAt ratesAt (f.value d.settings.interpolation time).nodeColumn
      u.nodeColumn w.nodeColumn) :
    advanceOnce d.settings.minValue (r.rate p q feeders f d) u time = .ok w := by
  obtain ⟨fluxes, hlocal, hstates⟩ := h
  obtain ⟨v, hv⟩ := Grid.exists_nodeColumn fun i => hfluxes i _ _ (hlocal i)
  obtain ⟨outflow, houtflow⟩ := outflow_exists (Grid.length_rows v)
  refine advanceOnce_of_nodes (fun g hg => ?_) (fun i xs hxs => (hrates i _ _ hxs).trans hm.symm)
    hstates
  refine checkedRate_iff.2 ⟨v.rows, gatherRows feeders outflow, ?_,
    inflowOf_eq_ok.2 ⟨outflow, houtflow, rfl⟩, ?_⟩
  · refine hflux _ _ (Grid.length_rows v) fun i => ?_
    rw [map_rows_append]
    exact (hlocal i).trans (congrArg Except.ok (hv i).symm)
  · refine hrate _ _ ((Grid.length_rows g).trans hm) fun i => ?_
    have hinflow : (gatherRows feeders outflow).get (.node i) =
        r.topology.inflowSum (fun k => r.outflowOf (fluxes k)) i := by
      simp only [← hv, Grid.nodeColumn, outflowOf_map houtflow]
      exact get_gatherRows_upstream hfeeders outflow i .nil
    have hlocal : v.rows.map (·.get (.node i)) = fluxes i := hv i
    rw [map_rows_known, hinflow, hlocal]
    exact hg i

variable [OrderedScalar K]

/-- A run of a route of which the programs compute column by column. -/
theorem columnRun_of_run (hp : r.fluxProgram d.settings.backend = .ok p)
    (hq : r.rateProgram d.settings.backend = .ok q) (hsolver : d.settings.solver ≠ .adaptive)
    (hstrict : StrictTimes d.times) (hinit : d.initial.length = r.states.length)
    (hsize : r.topology.size = n)
    (htimes : ∀ rows outs : List (Grid [n, t] K),
      p.run rows d.timeBindings d.networkWeights = .ok outs →
        ∀ i j, fluxesAt i (columnAt rows i j) = .ok (columnAt outs i j))
    (hflux : ∀ rows outs : List (Grid [n] K), p.run rows d.nodeBindings d.networkWeights = .ok outs →
      ∀ i, fluxesAt i (rows.map (·.get (.node i))) = .ok (outs.map (·.get (.node i))))
    (hrate : ∀ rows outs : List (Grid [n] K), q.run rows d.nodeBindings d.networkWeights = .ok outs →
      ∀ i, ratesAt i (rows.map (·.get (.node i))) = .ok (outs.map (·.get (.node i))))
    {out : Outcome n t K} (h : r.run d rows = .ok out) :
    ∃ states fluxes inflow, r.ColumnRun d fluxesAt ratesAt rows states fluxes inflow ∧
      out = ⟨states ++ fluxes ++ [inflow], []⟩ := by
  rw [run, dif_pos hsize, hp, hq, ok_bind, ok_bind] at h
  obtain ⟨f, hf, h⟩ := bind_eq_ok.1 h
  obtain ⟨path, hpath, h⟩ := bind_eq_ok.1 h
  obtain ⟨fluxes, hfluxes, h⟩ := bind_eq_ok.1 h
  obtain ⟨inflow, hinflow, h⟩ := bind_eq_ok.1 h
  obtain rfl := Except.ok.inj h
  obtain ⟨outflow, houtflow, rfl⟩ := inflowOf_eq_ok.1 hinflow
  have hfeeders := r.topology.feeders_cast hsize
  obtain ⟨hmarch, hwarn⟩ := (advance_eq_ok hsolver).1 hpath
  have hlocal (i : Fin n) (j : Fin t) : fluxesAt i (columnAt rows i j ++
      columnAt (stateRows d.initial.length t path.columns) i j) = .ok (columnAt fluxes i j) := by
    have hrun := htimes _ _ hfluxes i j
    rwa [columnAt, List.map_append] at hrun
  have hget (i : Fin n) (j : Fin t) : (gatherRows (fun i => (hsize ▸ r.topology.feeders)[i])
      outflow).get (.nodeTime i j) =
        r.topology.inflowSum (fun k : Fin n => outflow.get (.nodeTime k j)) i :=
    get_gatherRows_upstream hfeeders outflow i (.cons j .nil)
  have hflow (k : Fin n) (j : Fin t) : r.outflowOf (columnAt fluxes k j) =
      outflow.get (.nodeTime k j) := outflowOf_map houtflow _
  refine ⟨_, fluxes, _, ⟨(length_stateRows _).trans hinit, ?_, fun i j hj => ?_, hlocal,
    ⟨outflow, houtflow, hget⟩, fun i j j' hj => ?_⟩, by rw [hwarn]⟩
  · rw [Program.length_run hfluxes, Program.draft_of_compile hp]
  · rw [hmarch.columnAt_zero d.times_length i j hj, Grid.nodeColumn, Grid.rows_stack]
  · have hstep := hmarch.columnAt_succ
      (fun j => r.ColumnStep d fluxesAt ratesAt fun i => columnAt rows i j) d.times_length
      (fun j v w time htime hj hw => ?_) hj
    · obtain ⟨xs, hxs, hstates⟩ := hstep
      obtain rfl : xs = fun i => columnAt fluxes i j :=
        funext fun i => Except.ok.inj ((hxs i).symm.trans (hlocal i j))
      have hstates := hstates i
      simp only [hflow, ← hget i j] at hstates
      exact hstates
    · have hforcing : (f.value d.settings.interpolation time).nodeColumn =
          fun i => columnAt rows i j :=
        funext (Forcing.nodeColumn_value hf hstrict d.settings.interpolation htime hj)
      rw [← hforcing]
      exact columnStep_of_advanceOnce hflux hrate hfeeders hw

/-- Rows that follow column by column are what a run returns. -/
theorem run_of_columnRun (hp : r.fluxProgram d.settings.backend = .ok p)
    (hq : r.rateProgram d.settings.backend = .ok q) (hsolver : d.settings.solver ≠ .adaptive)
    (hstrict : StrictTimes d.times) (hinit : d.initial.length = r.states.length)
    (hsize : r.topology.size = n) (ht : 0 < t)
    (htimes : ∀ rows outs : List (Grid [n, t] K), outs.length = r.fluxOutputs.length →
      (∀ i j, fluxesAt i (columnAt rows i j) = .ok (columnAt outs i j)) →
        p.run rows d.timeBindings d.networkWeights = .ok outs)
    (hflux : ∀ rows outs : List (Grid [n] K), outs.length = r.fluxOutputs.length →
      (∀ i, fluxesAt i (rows.map (·.get (.node i))) = .ok (outs.map (·.get (.node i)))) →
        p.run rows d.nodeBindings d.networkWeights = .ok outs)
    (hrate : ∀ rows outs : List (Grid [n] K), outs.length = r.states.length →
      (∀ i, ratesAt i (rows.map (·.get (.node i))) = .ok (outs.map (·.get (.node i)))) →
        q.run rows d.nodeBindings d.networkWeights = .ok outs)
    (hfluxes : ∀ i xs ys, fluxesAt i xs = .ok ys → ys.length = r.fluxOutputs.length)
    (hrates : ∀ i xs ys, ratesAt i xs = .ok ys → ys.length = r.states.length)
    {states fluxes : List (Grid [n, t] K)} {inflow : Grid [n, t] K}
    (h : r.ColumnRun d fluxesAt ratesAt rows states fluxes inflow) :
    r.run d rows = .ok ⟨states ++ fluxes ++ [inflow], []⟩ := by
  have hfeeders := r.topology.feeders_cast hsize
  obtain ⟨f, hf, -⟩ := Forcing.make_eq_ok hstrict
    ((length_timeColumns rows).trans d.times_length.symm) (by rwa [d.times_length])
  obtain ⟨outflow, houtflow, hinflow⟩ := h.inflow_eq
  have hflow (k : Fin n) (j : Fin t) : r.outflowOf (columnAt fluxes k j) =
      outflow.get (.nodeTime k j) := outflowOf_map houtflow _
  obtain ⟨columns, hmarch, hcolumns⟩ := marches_of_nodes d.settings.minValue
    (r.rate p q _ f d) (Grid.stack d.initial)
    (fun j => r.ColumnStep d fluxesAt ratesAt fun i => columnAt rows i j)
    (h.states_length.trans hinit.symm) d.times_length
    (fun i j hj => by rw [h.initial i j hj, Grid.nodeColumn, Grid.rows_stack])
    (fun j j' hj => ⟨fun i => columnAt fluxes i j, fun i => h.fluxes_eq i j, fun i => by
      simp only [hflow, ← hinflow i j]
      exact h.states_succ i j j' hj⟩)
    fun j v w time htime hj hw => by
      have hforcing : (f.value d.settings.interpolation time).nodeColumn =
          fun i => columnAt rows i j :=
        funext (Forcing.nodeColumn_value hf hstrict d.settings.interpolation htime hj)
      rw [← hforcing] at hw
      exact advanceOnce_of_columnStep hflux hrate hfluxes hrates hfeeders hinit hw
  have hpath : advance d.settings (r.rate p q _ f d) (Grid.stack d.initial) d.times =
      .ok ⟨columns, []⟩ := (advance_eq_ok hsolver).2 ⟨hmarch, rfl⟩
  have hlocal : p.run (rows ++ states) d.timeBindings d.networkWeights = .ok fluxes := by
    refine htimes _ _ h.fluxes_length fun i j => ?_
    rw [columnAt, List.map_append]
    exact h.fluxes_eq i j
  have hgather : gatherRows (fun i => (hsize ▸ r.topology.feeders)[i]) outflow = inflow := by
    refine Grid.ext_get fun i => ?_
    exact (get_gatherRows_upstream hfeeders outflow i.head i.tail).trans
      (hinflow i.head i.tail.head).symm
  rw [run, dif_pos hsize, hp]
  simp only [ok_bind, hq, runStates, hf, hpath, hcolumns, hlocal,
    inflowOf_eq_ok.2 ⟨outflow, houtflow, hgather⟩, pure_eq_ok]

end Route

end Catchment
