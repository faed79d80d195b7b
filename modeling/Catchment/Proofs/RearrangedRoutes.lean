import Catchment.Proofs.BackendAgreement
import Catchment.Proofs.NamedRoutes
import Catchment.Proofs.RearrangedFluxes

/-!
# Rearranged routes

A route that sorts its fluxes accepts them in any order, and it returns the same by name: its fluxes
give the same rows, the outflow among them is found by name, and the rates read all of them by name.
-/
namespace Catchment

variable {K : Type} [Scalar K] {n t : Nat} {args : RunArguments K} {s : Settings K}
  {d : RunData n t K}

def Topology.feedersAt (T : Topology) (h : T.size = n) (i : Fin n) : List (Fin n) :=
  (h ▸ T.feeders : Vector (List (Fin n)) n)[i]

theorem Topology.feedersAt_congr {T T' : Topology} (h : T' = T) (hn : T.size = n)
    (hn' : T'.size = n) : T'.feedersAt hn' = T.feedersAt hn := by
  subst h
  rfl

theorem Component.prepareFor_route_of_size {r : Route K} (hsize : r.topology.size = n)
    (args : RunArguments K) (s : Settings K) :
    (route r).prepareFor n t args s = RunData.prepare r.signature n t args s := by
  rw [prepareFor, Route.nodesFault?, if_pos hsize]

namespace Route

variable {r r' : Route K}

/-- What a run of a route goes through. -/
theorem run_eq_ok {rows : List (Grid [n, t] K)} {out : Outcome n t K} :
    r.run d rows = .ok out ↔ ∃ hsize : r.topology.size = n, ∃ p q f path fluxes inflow,
      r.fluxProgram d.settings.backend = .ok p ∧ r.rateProgram d.settings.backend = .ok q ∧
      Forcing.make d.times (timeColumns rows) = .ok f ∧
      advance d.settings (r.rate p q (r.topology.feedersAt hsize) f d) (Grid.stack d.initial)
        d.times = .ok path ∧
      p.run (rows ++ stateRows d.initial.length t path.columns) d.timeBindings d.networkWeights =
        .ok fluxes ∧
      r.inflowOf (r.topology.feedersAt hsize) fluxes = .ok inflow ∧
      ⟨stateRows d.initial.length t path.columns ++ fluxes ++ [inflow], path.warnings⟩ = out := by
  by_cases hsize : r.topology.size = n
  · simp only [run, runStates, dif_pos hsize, bind_eq_ok, pure_eq_ok, Except.ok.injEq, hsize,
      exists_true_left, exists_and_left]
    rfl
  · simp [run, hsize, mismatched]

/-- The fluxes of a route whose programs compile do not read the inflow. -/
theorem inflow_notMem_reads {backend : Backend} {p : Program K}
    (hp : r.fluxProgram backend = .ok p) : ∀ f ∈ r.ordered, r.inflow ∉ f.reads := by
  intro f hf hread
  have hp := Program.draft_of_compile hp
  have havailable := p.unavailable?_eq_none.1
  rw [hp] at havailable
  rcases ProgramDraft.reads_of_unavailable? havailable hf hread with h | h
  · exact r.rowsRead_notMem_outputs h (r.mem_outputs.2 (.inr rfl))
  · exact r.inflow_notMem (r.mem_fluxOutputs.2 h)

theorem networks_eq_nil (hlaws : ∀ f ∈ r.fluxes, f.lawName? = none) :
    r.signature.networks = [] := by
  refine List.eq_nil_iff_forall_not_mem.2 fun w hw => ?_
  obtain ⟨f, hf, hw⟩ : ∃ f ∈ r.fluxes, w ∈ f.networks := by
    simpa [RouteDraft.signature, Signature.ofDeclarations] using hw
  rw [Declaration.networks_eq_nil (hlaws f hf)] at hw
  exact List.not_mem_nil hw

/-- The second route has the fluxes of the first one, in any order, and all else the same. -/
structure Rearranges (r r' : Route K) : Prop where
  rates : r'.rates = r.rates
  fluxes : r'.fluxes.Perm r.fluxes
  topology : r'.topology = r.topology
  outflow : r'.outflow = r.outflow
  inflow : r'.inflow = r.inflow

theorem ofDraft_eq_ok {d : RouteDraft K} {ordered : List (Declaration K)}
    (horder : d.order = .ok ordered) (hfault : d.fault? ordered = none) :
    ofDraft d = .ok ⟨d, ordered, horder, hfault⟩ := by
  unfold ofDraft
  split
  · rename_i f hf
    exact absurd (horder.symm.trans hf) nofun
  · rename_i ordered' hordered'
    obtain rfl := Except.ok.inj (horder.symm.trans hordered')
    split
    · rename_i cause hcause
      exact absurd (hfault.symm.trans hcause) nofun
    · rfl

/-- A route that sorts its fluxes accepts them in any order. -/
theorem ofDraft_rearranged (hsort : r.sort = true) {fluxes : List (Declaration K)}
    (hperm : fluxes.Perm r.fluxes) :
    ∃ r', ofDraft { r.toRouteDraft with fluxes } = .ok r' ∧ r.Rearranges r' := by
  obtain ⟨ordered, hordered⟩ := sortItems_exists "flux" (r.ordered_perm.trans hperm.symm) r.inOrder
  have horder : { r.toRouteDraft with fluxes }.order = .ok ordered := by
    rw [RouteDraft.order, hsort, hordered]
  have hfault : { r.toRouteDraft with fluxes }.fault? ordered = none := by
    have hflux : ({ r.toRouteDraft with fluxes } : RouteDraft K).fluxOutputs.Perm r.fluxOutputs :=
      orderedUnion_perm (hperm.map _)
    have houtputs : ({ r.toRouteDraft with fluxes } : RouteDraft K).outputs.Perm r.outputs :=
      hflux.append_right _
    have hsorted : ordered.Perm r.ordered :=
      ((orderItems_eq_ok horder).1.trans hperm).trans r.ordered_perm.symm
    exact RouteDraft.fault?_eq_none.2 ⟨r.states_nodup,
      fun v hv ho => r.state_notMem_outputs v hv (houtputs.mem_iff.1 ho),
      hflux.mem_iff.2 r.outflow_mem, mt hflux.mem_iff.1 r.inflow_notMem,
      fun f hf => r.inflow_notMem_inputs f (hsorted.mem_iff.1 hf)⟩
  exact ⟨_, ofDraft_eq_ok horder hfault, rfl, hperm, rfl, rfl, rfl⟩

namespace Rearranges

variable (h : r.Rearranges r')

include h

theorem states : r'.states = r.states := by
  rw [RouteDraft.states, RouteDraft.states, h.rates]

theorem fluxOutputs : r'.fluxOutputs.Perm r.fluxOutputs := orderedUnion_perm (h.fluxes.map _)

theorem outputs : r'.outputs.Perm r.outputs := by
  rw [RouteDraft.outputs, RouteDraft.outputs, h.inflow]
  exact h.fluxOutputs.append_right _

theorem signature : r.signature.Rearranges r'.signature :=
  Signature.rearranges_ofDeclarations (.of_eq h.rates) h.fluxes h.outputs

theorem rowsRead : r'.rowsRead.Perm r.rowsRead := by
  rw [Route.rowsRead, h.states]
  exact h.signature.inputs.append_right _

theorem laws (hlaws : ∀ f ∈ r.fluxes, f.lawName? = none) : ∀ f ∈ r'.fluxes, f.lawName? = none :=
  fun f hf => hlaws f (h.fluxes.mem_iff.1 hf)

theorem ordered : r'.ordered.Perm r.ordered :=
  (r'.ordered_perm.trans h.fluxes).trans r.ordered_perm.symm

theorem reads (hreads : ∀ f ∈ r.ordered, r.inflow ∉ f.reads) :
    ∀ f ∈ r'.ordered, r'.inflow ∉ f.reads :=
  fun f hf => h.inflow ▸ hreads f (h.ordered.mem_iff.1 hf)

variable {p p' q q' : Program K} {backend : Backend}

theorem fluxProgram (hlaws : ∀ f ∈ r.fluxes, f.lawName? = none)
    (hp : p.toProgramDraft = ⟨backend, r.ordered, r.rowsRead, r.fluxOutputs⟩)
    (hp' : p'.toProgramDraft = ⟨backend, r'.ordered, r'.rowsRead, r'.fluxOutputs⟩) :
    p.Rearranges p' where
  backend := by rw [hp, hp']
  laws := byFormulas_fluxProgram hlaws hp
  nodup := by rw [hp]; exact r.rowsRead_nodup
  inputs := by rw [hp, hp']; exact h.rowsRead
  outputs := by rw [hp, hp']; exact fun o ho => h.fluxOutputs.mem_iff.1 ho
  fluxes := ⟨r.ordered, r'.ordered, [], by rw [hp, List.append_nil], by rw [hp', List.append_nil],
    h.ordered, r.inOrder, r'.inOrder⟩

theorem rateProgram (hq : q.toProgramDraft =
      ⟨backend, r.rates.map .state, r.rowsRead ++ r.outputs, r.states.map rateName⟩)
    (hq' : q'.toProgramDraft =
      ⟨backend, r'.rates.map .state, r'.rowsRead ++ r'.outputs, r'.states.map rateName⟩) :
    q.Rearranges q' where
  backend := by rw [hq, hq']
  laws := byFormulas_rateProgram hq
  nodup := by rw [hq]; exact r.rowsKnown_nodup
  inputs := by rw [hq, hq']; exact h.rowsRead.append h.outputs
  outputs := by rw [hq, hq', h.states]; exact fun o ho => ho
  fluxes := ⟨[], [], r.rates.map .state, by rw [hq]; rfl, by rw [hq', h.rates]; rfl, .nil,
    ⟨.nil, nofun, .nil⟩, ⟨.nil, nofun, .nil⟩⟩

/-- The fluxes and the inflow over rows of states are the same by name. -/
theorem fluxes_run (hlaws : ∀ f ∈ r.fluxes, f.lawName? = none)
    (hp : p.toProgramDraft = ⟨backend, r.ordered, r.rowsRead, r.fluxOutputs⟩)
    (hp' : p'.toProgramDraft = ⟨backend, r'.ordered, r'.rowsRead, r'.fluxOutputs⟩)
    {u : Shape} {params params' : Bindings K} (hparams : params.Same params')
    {cells : Index (n :: u) → Scope K} (ha : params.Hold cells)
    (hargs : ∀ k ∈ p.params, ∀ i, ∃ x, cells i k = some (.double x))
    {feeders : Fin n → List (Fin n)} (x : String → Grid (n :: u) K)
    {us fluxes : List (Grid (n :: u) K)} {inflow : Grid (n :: u) K}
    (hlen : us.length = r.states.length) {weights : Weights K}
    (hfluxes : p.run (r.signature.inputs.map x ++ us) params weights = .ok fluxes)
    (hinflow : r.inflowOf feeders fluxes = .ok inflow) :
    ∃ y : String → Grid (n :: u) K, (∀ v ∈ r.signature.inputs, y v = x v) ∧
      us = r.states.map y ∧ fluxes = r.fluxOutputs.map y ∧ inflow = y r.inflow ∧
      p'.run (r'.signature.inputs.map x ++ us) params' weights = .ok (r'.fluxOutputs.map y) ∧
      r'.inflowOf feeders (r'.fluxOutputs.map y) = .ok inflow := by
  have hin' : p'.inputs = r'.signature.inputs ++ r.states := by rw [hp', ← h.states]; rfl
  have hout : p.outputs = r.fluxOutputs := by rw [hp]
  have hout' : p'.outputs = r'.fluxOutputs := by rw [hp']
  obtain ⟨w, rfl, hw⟩ := (h.fluxProgram hlaws hp hp').run_after (by rw [hp]; rfl) hin'
    h.signature.inputs hparams ha hargs x hlen hfluxes
  rw [hout'] at hw
  rw [hout] at hinflow ⊢
  have hcount : (us ++ (r.fluxOutputs.map w ++ [inflow])).length =
      (r.states ++ r.outputs).length := by
    simp [hlen, RouteDraft.outputs]
  obtain ⟨y, hy, hyx⟩ := exists_rows_by_name r.rowNames_nodup hcount x
  rw [List.map_append] at hy
  obtain ⟨hstates, houtputs⟩ := List.append_inj hy (hlen.trans (List.length_map _).symm)
  rw [RouteDraft.outputs, List.map_append] at houtputs
  obtain ⟨hlocal, hsum⟩ := List.append_inj houtputs (by simp)
  obtain rfl : inflow = y r.inflow := (List.cons.inj hsum).1
  have hmap : r'.fluxOutputs.map w = r'.fluxOutputs.map y := by
    rw [List.map_inj_left] at hlocal
    exact List.map_congr_left fun v hv => hlocal v (h.fluxOutputs.mem_iff.1 hv)
  refine ⟨y, fun v hv => hyx v (inputs_notMem hv), hstates, hlocal, rfl, hmap ▸ hw, ?_⟩
  rw [hlocal] at hinflow
  obtain ⟨outflow, houtflow, hgather⟩ := inflowOf_eq_ok.1 hinflow
  refine inflowOf_eq_ok.2 ⟨outflow, ?_, hgather⟩
  rw [← List.map_prod_left_eq_zip, lookup_map_self y r.outflow_mem] at houtflow
  rw [← List.map_prod_left_eq_zip, lookup_map_self y r'.outflow_mem, h.outflow, houtflow]

variable (hlaws : ∀ f ∈ r.fluxes, f.lawName? = none)
  (hd : RunData.prepare r.signature n t args s = .ok d) {params : List (String × Grid [n] K)}
  (hparams : ∀ k, params.lookup k = d.params.lookup k) (x : String → Grid [n, t] K)

include hlaws hd hparams

theorem rate_extendedBy (feeders : Fin n → List (Fin n))
    (hp : p.toProgramDraft = ⟨backend, r.ordered, r.rowsRead, r.fluxOutputs⟩)
    (hp' : p'.toProgramDraft = ⟨backend, r'.ordered, r'.rowsRead, r'.fluxOutputs⟩)
    (hq : q.toProgramDraft =
      ⟨backend, r.rates.map .state, r.rowsRead ++ r.outputs, r.states.map rateName⟩)
    (hq' : q'.toProgramDraft =
      ⟨backend, r'.rates.map .state, r'.rowsRead ++ r'.outputs, r'.states.map rateName⟩)
    {f : Forcing [(r.signature.inputs.map x).length, n] K}
    {f' : Forcing [(r'.signature.inputs.map x).length, n] K}
    (hf : Forcing.make d.times (timeColumns (r.signature.inputs.map x)) = .ok f)
    (hf' : Forcing.make d.times (timeColumns (r'.signature.inputs.map x)) = .ok f')
    (u : Grid [d.initial.length, n] K) (time : K) :
    ExtendedBy (r.rate p q feeders f d u time)
      (r'.rate p' q' feeders f' { d with params } u time) := by
  intro a ha
  obtain ⟨fluxes, hfluxes, ha⟩ := bind_eq_ok.1 ha
  obtain ⟨inflow, hinflow, ha⟩ := bind_eq_ok.1 ha
  obtain ⟨values, hvalues, ha⟩ := bind_eq_ok.1 ha
  have hlen : u.rows.length = r.states.length := by
    simp only [Grid.rows, List.length_ofFn]
    exact (RunData.prepare_eq_ok hd).2
  have hparams' := Bindings.same_map hparams fun g : Grid [n] K => Values.ofGrid g
  rw [Forcing.rows_value_of_make hf, List.map_map] at hfluxes hvalues
  obtain ⟨y, hyx, hstates, rfl, rfl, hrun, hinflow'⟩ := h.fluxes_run hlaws hp hp' hparams'
    d.nodeBindings_hold
    (fun k hk i => ⟨_, RunData.nodeScope_of_prepare hd i.head (params_fluxProgram hp hk)⟩) _ hlen
    hfluxes hinflow
  have hread : r.signature.inputs.map (sampled d.settings.interpolation d.times time ∘ x) ++
      u.rows ++ r.fluxOutputs.map y ++ [y r.inflow] = q.inputs.map y := by
    rw [hq, hstates, ← List.map_congr_left hyx]
    simp only [Route.rowsRead, RouteDraft.outputs, List.map_append, List.append_assoc]
    rfl
  have hread' : r'.signature.inputs.map (sampled d.settings.interpolation d.times time ∘ x) ++
      u.rows ++ r'.fluxOutputs.map y ++ [y r.inflow] = q'.inputs.map y := by
    rw [hq', hstates, ← List.map_congr_left fun v hv => hyx v (h.signature.inputs.mem_iff.1 hv),
      ← h.states, ← h.inflow]
    simp only [Route.rowsRead, RouteDraft.outputs, List.map_append, List.append_assoc]
    rfl
  have hout : q'.outputs = q.outputs := by rw [hq, hq', h.states]
  rw [hread] at hvalues
  obtain ⟨w, rfl, hw⟩ := (h.rateProgram hq hq').run hparams' d.nodeBindings_hold
    (fun k hk i => ⟨_, RunData.nodeScope_of_prepare hd i.head (params_rateProgram hq hk)⟩) y hvalues
  rw [← hread'] at hw
  refine bind_eq_ok.2 ⟨_, ?_, bind_eq_ok.2 ⟨_, hinflow', bind_eq_ok.2 ⟨_, ?_, ha⟩⟩⟩
  · rw [Forcing.rows_value_of_make hf', List.map_map]
    exact hrun
  · rw [Forcing.rows_value_of_make hf', List.map_map]
    exact hw.trans (by rw [hout])

/-- A route returns the same by name when its fluxes stand in another order. -/
theorem run {out : Outcome n t K} (hrun : r.run d (r.signature.inputs.map x) = .ok out) :
    ∃ y : String → Grid [n, t] K, out.rows = (r.states ++ r.outputs).map y ∧
      r'.run { d with params } (r'.signature.inputs.map x) =
        .ok ⟨(r'.states ++ r'.outputs).map y, out.warnings⟩ := by
  obtain ⟨hsize, p, q, f, path, fluxes, inflow, hp, hq, hf, hpath, hfluxes, hinflow, rfl⟩ :=
    run_eq_ok.1 hrun
  have hpd := Program.draft_of_compile hp
  have hqd := Program.draft_of_compile hq
  obtain ⟨p', hp', hpd'⟩ := fluxProgram_of_reads (r := r') d.settings.backend
    (fun _ => h.laws hlaws) (h.reads (inflow_notMem_reads hp))
  obtain ⟨q', hq', hqd'⟩ := r'.rateProgram_exists d.settings.backend
  obtain ⟨f', hf'⟩ := Forcing.make_exists_iff.1 ⟨f, hf⟩
  have hinit := (RunData.prepare_eq_ok hd).2
  have hsize' : r'.topology.size = n := by rw [h.topology, hsize]
  have hfeeders : r'.topology.feedersAt hsize' = r.topology.feedersAt hsize :=
    Topology.feedersAt_congr h.topology hsize hsize'
  obtain ⟨y, -, hstates, rfl, rfl, hrun', hinflow'⟩ := h.fluxes_run hlaws hpd hpd'
    (Bindings.same_map hparams fun g : Grid [n] K =>
      Values.ofGrid (g.reshape (u := [n, 1]) (by simp)))
    d.timeBindings_hold
    (fun k hk i => ⟨_, RunData.nodeScope_of_prepare hd i.head (params_fluxProgram hpd hk)⟩) x
    ((length_stateRows path.columns).trans hinit) hfluxes hinflow
  have hpath' := advance_extendedBy
    (h.rate_extendedBy hlaws hd hparams x (r.topology.feedersAt hsize) hpd hpd' hqd hqd' hf hf')
    _ _ _ path hpath
  refine ⟨y, ?_, run_eq_ok.2
    ⟨hsize', p', q', f', path, _, y r.inflow, hp', hq', hf', ?_, hrun', ?_, ?_⟩⟩
  · rw [hstates]
    simp only [RouteDraft.outputs, List.map_append, List.append_assoc]
    rfl
  · rw [hfeeders]
    exact hpath'
  · rw [hfeeders]
    exact hinflow'
  · rw [hstates, ← h.states, ← h.inflow]
    simp only [RouteDraft.outputs, List.map_append, List.append_assoc]
    rfl

end Rearranges

end Route

end Catchment
