import Catchment.Proofs.EarlierColumns
import Catchment.Proofs.RefusedRuns
import Catchment.Proofs.ValueFaults
import Catchment.Proofs.WiringByName

/-!
# Late faults

A component of formulas whose arguments were accepted may fail over a value at any time. It fails
over its declaration or over a shape in four ways only, none of which the check of the arguments
looks for: there is no time at all, the times do not increase, the adaptive solver meets a unit
hydrograph that keeps a buffer, or a flux of a route reads the inflow of the route.
-/
namespace Catchment

variable {K : Type} [Scalar K] {n t : Nat}

omit [Scalar K] in
theorem failsWith_checkedRate {m : Nat} {P : Fault → Prop} {rate : Rate [m, n] K}
    {u : Grid [m, n] K} {time : K} {x : Except Fault (List (Grid [n] K))}
    (h : rate u time = do return .ofGrid (Grid.stack (← x))) (hx : FailsWith P x)
    (hlength : ∀ rows, x = .ok rows → rows.length = m) : FailsWith P (checkedRate rate u time) := by
  cases hrows : x with
  | ok rows =>
    obtain ⟨g, rfl⟩ := Grid.rows_exists (hlength rows hrows)
    rw [(checkedRate_eq_ok h).2 hrows]
    exact .ok g
  | error f =>
    rw [checkedRate_eq_error h hrows]
    exact FailsWith.error_iff.2 (hx f hrows)

/-- Columns for every time are refused over the times alone. -/
theorem Forcing.failsWith_make {s : Shape} {P : Fault → Prop} {times : List K}
    {columns : List (Grid s K)} (htimes : times.length = t) (hcolumns : columns.length = t)
    (hempty : t = 0 → P (.shape .emptyTimeAxis))
    (hunordered : unorderedTimes times = true → P (.shape .unorderedTimes)) :
    FailsWith P (make times columns) := by
  unfold make
  rw [dif_pos (hcolumns.trans htimes.symm)]
  split
  · split
    · simp
    · rename_i hordered
      exact FailsWith.error_iff.2 (hunordered (by simpa using hordered))
  · rename_i hnone
    exact FailsWith.error_iff.2 (hempty (by omega))

theorem Forcing.make_of_unordered {s : Shape} {times : List K} {columns : List (Grid s K)}
    (hpaired : columns.length = times.length) (h : unorderedTimes times = true) :
    make times columns = mismatched .unorderedTimes := by
  have hne : 0 < times.length := by
    cases times with
    | nil => exact nomatch h
    | cons time rest => exact Nat.succ_pos _
  simp [make, hpaired, hne, h]

namespace Program

variable {backend : Backend} {fluxes : List (Declaration K)} {inputs outputs : List String}

omit [Scalar K] in
theorem compile_eq_error {f : Fault} (h : compile backend fluxes inputs outputs = .error f)
    (houtputs : ∀ o ∈ outputs, o ∈ inputs ∨ o ∈ fluxes.flatMap Declaration.outputs)
    (hlaws : backend = .symbolic → ∀ f ∈ fluxes, f.lawName? = none) :
    ∃ cause, ProgramDraft.unavailable? inputs fluxes = some cause ∧ f = .configuration cause := by
  cases hunavailable : ProgramDraft.unavailable? inputs fluxes with
  | none =>
    obtain ⟨p, hp, -⟩ : ∃ p, compile backend fluxes inputs outputs = .ok p ∧ _ :=
      compile_exists hunavailable houtputs hlaws
    cases h.symm.trans hp
  | some cause =>
    have hfault : ProgramDraft.fault? ⟨backend, fluxes, inputs, outputs⟩ = some cause := by
      simp [ProgramDraft.fault?, hunavailable]
    refine ⟨cause, rfl, ?_⟩
    unfold compile at h
    dsimp only at h
    split at h
    · rename_i hnone
      cases hnone.symm.trans hfault
    · rename_i cause' hcause
      rw [← Except.error.inj h, Option.some.inj (hcause.symm.trans hfault)]

end Program

omit [Scalar K] in
/-- A name without which declarations are not available is read by the first that misses a name. -/
theorem ProgramDraft.unavailable?_eq_some {v : String} {known : List String}
    {fs : List (Declaration K)} (h : unavailable? (v :: known) fs = none) {cause : Misconfiguration}
    (hcause : unavailable? known fs = some cause) :
    ∃ f ∈ fs, v ∈ f.reads ∧ cause = .unavailable f.name v := by
  induction fs generalizing known with
  | nil => exact nomatch hcause
  | cons f fs ih =>
    obtain ⟨hreads, hrest⟩ := unavailable?_cons.1 h
    rw [unavailable?] at hcause
    split at hcause
    · rename_i w hw
      have hread : w ∈ f.reads := List.mem_of_find?_eq_some hw
      have hmissing : w ∉ known := by simpa using List.find?_some hw
      obtain rfl : w = v := (List.mem_cons.1 (hreads w hread)).resolve_right hmissing
      exact ⟨f, List.mem_cons_self, hread, (Option.some.inj hcause).symm⟩
    · obtain ⟨g, hg, hread, rfl⟩ := ih (unavailable?_mono hrest List.perm_middle.subset) hcause
      exact ⟨g, List.mem_cons_of_mem f hg, hread, rfl⟩

theorem Route.fluxProgram_eq_error {r : Route K} {backend : Backend} {f : Fault}
    (hlaws : ∀ g ∈ r.fluxes, g.lawName? = none) (h : r.fluxProgram backend = .error f) :
    ∃ g ∈ r.ordered, r.inflow ∈ g.reads ∧ f = .configuration (.unavailable g.name r.inflow) := by
  obtain ⟨cause, hcause, rfl⟩ := Program.compile_eq_error h
    (fun o ho => .inr (r.mem_fluxOutputs.1 ho)) fun _ g hg => hlaws g (r.ordered_perm.mem_iff.1 hg)
  have hall : ProgramDraft.unavailable? (r.inflow :: r.rowsRead) r.ordered = none := by
    refine ProgramDraft.unavailable?_of_inOrder r.inOrder fun g hg v hv => ?_
    have hknown := r.reads_known (List.mem_append_left _ (r.ordered_perm.mem_iff.1 hg)) hv
    rcases List.mem_append.1 hknown with hread | hout
    · exact .inl (List.mem_cons_of_mem _ hread)
    · rcases r.mem_outputs.1 hout with hflux | rfl
      · exact .inr (r.mem_fluxOutputs.1 hflux)
      · exact .inl List.mem_cons_self
  obtain ⟨g, hg, hread, rfl⟩ := ProgramDraft.unavailable?_eq_some hall hcause
  exact ⟨g, hg, hread, rfl⟩

section

variable {d : RunData n t K} {P : Fault → Prop}

omit [Scalar K] in
theorem RunData.nodeBindings_eq_none {k : String} :
    d.nodeBindings.lookup k = none ↔ d.params.lookup k = none := by
  rw [nodeBindings, lookup_map_snd, Option.map_eq_none_iff]

omit [Scalar K] in
theorem RunData.timeBindings_eq_none {k : String} :
    d.timeBindings.lookup k = none ↔ d.params.lookup k = none := by
  rw [timeBindings, lookup_map_snd fun g : Grid [n] K =>
    Values.ofGrid (g.reshape (u := [n, 1]) (by simp)), Option.map_eq_none_iff]

section

variable (hfound : ∀ f : Fault, f.OfFoundValue → P f)

include hfound

/-- A bucket of formulas fails over a value that it finds or over the times, unless it is given too
few rows or a parameter is missing. -/
theorem Bucket.failsWith_run {b : Bucket K} (hlaws : ∀ f ∈ b.fluxes, f.lawName? = none)
    (hinit : d.initial.length = b.states.length) {rows : List (Grid [n, t] K)}
    (hrows : rows.length ≠ b.signature.inputs.length → P .unknownName)
    (hparams : ∀ k ∈ b.signature.params, d.params.lookup k = none → P .unknownName)
    (hempty : b.states ≠ [] → t = 0 → P (.shape .emptyTimeAxis))
    (hunordered : b.states ≠ [] → unorderedTimes d.times = true → P (.shape .unorderedTimes)) :
    FailsWith P (b.run d rows) := by
  obtain ⟨p, hp, hpdraft⟩ := fluxProgram_exists d.settings.backend hlaws
  obtain ⟨q, hq, hqdraft⟩ := rateProgram_exists d.settings.backend hlaws
  have hread (count : Nat) (hcount : count = rows.length + d.initial.length)
      (hne : count ≠ b.rowsRead.length) : P .unknownName :=
    hrows fun hlen => hne (by rw [hcount, hlen, hinit, rowsRead, List.length_append])
  have hfluxes (rows' : List (Grid [n, t] K))
      (hlen : rows'.length = rows.length + d.initial.length) :
      FailsWith P (p.run rows' d.timeBindings d.networkWeights) :=
    Program.failsWith_run hfound (byFormulas_fluxProgram hlaws hpdraft)
      (by rw [hpdraft]; exact hread _ hlen)
      (fun k hk hnone => hparams k (params_fluxProgram hpdraft hk)
        (RunData.timeBindings_eq_none.1 hnone)) _
  have hrates (rows' : List (Grid [n] K))
      (hlen : rows'.length = rows.length + d.initial.length) :
      FailsWith P (q.run rows' d.nodeBindings d.networkWeights) :=
    Program.failsWith_run hfound (byFormulas_rateProgram hlaws hqdraft)
      (by rw [hqdraft]; exact hread _ hlen)
      (fun k hk hnone => hparams k (params_rateProgram hqdraft hk)
        (RunData.nodeBindings_eq_none.1 hnone)) _
  rw [run, hp, ok_bind]
  split
  · rename_i hstates
    have hnone : d.initial.length = 0 := by rw [hinit, List.isEmpty_iff.1 hstates, List.length_nil]
    simp [hfluxes rows (by omega)]
  · rename_i hstates
    have hne : b.states ≠ [] := by simpa using hstates
    rw [hq, ok_bind, runStates]
    simp only [FailsWith.bind_iff, pure_eq_ok, FailsWith.ok, implies_true, and_true]
    refine ⟨Forcing.failsWith_make d.times_length (length_timeColumns rows) (hempty hne)
      (hunordered hne), fun forcing _ => ⟨?_, fun path _ => hfluxes _ ?_⟩⟩
    · refine failsWith_advance (hfound _ Fault.ofFoundValue_value) (fun u time =>
        failsWith_checkedRate rfl (hrates _ ?_) fun outs houts => ?_) _ _ _
      · rw [List.length_append, Grid.length_rows, Grid.length_rows]
      · rw [Program.length_run houts, hqdraft, hinit]
        exact List.length_map _
    · rw [List.length_append, length_stateRows]

omit hfound in
/-- The inflow is gathered from as many rows as there are outputs of fluxes. -/
theorem Route.failsWith_inflowOf {r : Route K} (feeders : Fin n → List (Fin n)) {s : Shape}
    {rows : List (Grid (n :: s) K)} (hlen : rows.length = r.fluxOutputs.length) :
    FailsWith P (r.inflowOf feeders rows) := by
  obtain ⟨outflow, houtflow⟩ := outflow_exists hlen
  rw [inflowOf_eq_ok.2 ⟨outflow, houtflow, rfl⟩]
  exact .ok _

omit hfound in
theorem Route.failsWith_checkedRate {r : Route K} {p q : Program K} {l m : Nat}
    (hfluxes : ∀ rows : List (Grid [n] K), rows.length = l + m →
      FailsWith P (p.run rows d.nodeBindings d.networkWeights))
    (hrates : ∀ rows : List (Grid [n] K), rows.length = l + m + r.fluxOutputs.length + 1 →
      FailsWith P (q.run rows d.nodeBindings d.networkWeights))
    (houtputs : p.outputs = r.fluxOutputs) (hlength : q.outputs.length = m)
    (feeders : Fin n → List (Fin n)) (forcing : Forcing [l, n] K) (u : Grid [m, n] K) (time : K) :
    FailsWith P (checkedRate (r.rate p q feeders forcing d) u time) := by
  let known := (forcing.value d.settings.interpolation time).rows ++ u.rows
  have hknown : known.length = l + m := by
    rw [List.length_append, Grid.length_rows, Grid.length_rows]
  refine Catchment.failsWith_checkedRate (x := do
    let fluxes ← p.run known d.nodeBindings d.networkWeights
    let inflow ← r.inflowOf feeders fluxes
    q.run (known ++ fluxes ++ [inflow]) d.nodeBindings d.networkWeights)
    (by simp only [rate, known, bind_assoc]) ?_ fun outs houts => ?_
  · simp only [FailsWith.bind_iff]
    refine ⟨hfluxes known hknown, fun fluxes houts => ?_⟩
    have hlen : fluxes.length = r.fluxOutputs.length := by rw [Program.length_run houts, houtputs]
    refine ⟨failsWith_inflowOf feeders hlen, fun inflow _ => hrates _ ?_⟩
    rw [List.length_append, List.length_append, hknown, hlen, List.length_singleton]
  · obtain ⟨fluxes, -, houts⟩ := bind_eq_ok.1 houts
    obtain ⟨inflow, -, houts⟩ := bind_eq_ok.1 houts
    rw [Program.length_run houts, hlength]

/-- A route of formulas fails over a value that it finds or over the times, unless it is given too
few rows, a parameter is missing, or a flux reads the inflow. -/
theorem Route.failsWith_run {r : Route K} (hlaws : ∀ f ∈ r.fluxes, f.lawName? = none)
    (hinit : d.initial.length = r.states.length) (hsize : r.topology.size = n)
    {rows : List (Grid [n, t] K)}
    (hrows : rows.length ≠ r.signature.inputs.length → P .unknownName)
    (hparams : ∀ k ∈ r.signature.params, d.params.lookup k = none → P .unknownName)
    (hinflow : ∀ f ∈ r.ordered, r.inflow ∈ f.reads →
      P (.configuration (.unavailable f.name r.inflow)))
    (hempty : t = 0 → P (.shape .emptyTimeAxis))
    (hunordered : unorderedTimes d.times = true → P (.shape .unorderedTimes)) :
    FailsWith P (r.run d rows) := by
  obtain ⟨q, hq, hqdraft⟩ := rateProgram_exists r d.settings.backend
  rw [run, dif_pos hsize]
  cases hp : r.fluxProgram d.settings.backend with
  | error f =>
    obtain ⟨g, hg, hread, rfl⟩ := fluxProgram_eq_error hlaws hp
    simpa using hinflow g hg hread
  | ok p =>
    have hpdraft := Program.draft_of_compile hp
    have hread (count : Nat) (hcount : count = rows.length + d.initial.length)
        (hne : count ≠ r.rowsRead.length) : P .unknownName :=
      hrows fun hlen => hne (by rw [hcount, hlen, hinit, rowsRead, List.length_append])
    have hfluxes {s : Shape} {params : Bindings K} (hbound : ∀ k, params.lookup k = none →
        d.params.lookup k = none) (rows' : List (Grid s K))
        (hlen : rows'.length = rows.length + d.initial.length) :
        FailsWith P (p.run rows' params d.networkWeights) :=
      Program.failsWith_run hfound (byFormulas_fluxProgram hlaws hpdraft)
        (by rw [hpdraft]; exact hread _ hlen)
        (fun k hk hnone => hparams k (params_fluxProgram hpdraft hk) (hbound k hnone)) _
    have hrates (rows' : List (Grid [n] K))
        (hlen : rows'.length = rows.length + d.initial.length + r.fluxOutputs.length + 1) :
        FailsWith P (q.run rows' d.nodeBindings d.networkWeights) := by
      refine Program.failsWith_run hfound (byFormulas_rateProgram hqdraft) (fun hne => ?_)
        (fun k hk hnone => hparams k (params_rateProgram hqdraft hk)
          (RunData.nodeBindings_eq_none.1 hnone)) _
      rw [hqdraft, hlen, List.length_append, RouteDraft.outputs, List.length_append] at hne
      exact hread _ rfl fun heq => hne (by rw [heq, List.length_singleton, Nat.add_assoc])
    have houtputs : p.outputs = r.fluxOutputs := congrArg ProgramDraft.outputs hpdraft
    simp only [hq, ok_bind, runStates, FailsWith.bind_iff, pure_eq_ok, FailsWith.ok, implies_true,
      and_true]
    refine ⟨Forcing.failsWith_make d.times_length (length_timeColumns rows) hempty hunordered,
      fun forcing _ => ⟨?_, fun path _ => ⟨hfluxes (fun _ => RunData.timeBindings_eq_none.1) _ ?_,
        fun outs houts => failsWith_inflowOf _ (by rw [Program.length_run houts, houtputs])⟩⟩⟩
    · refine failsWith_advance (hfound _ Fault.ofFoundValue_value) (failsWith_checkedRate
        (hfluxes fun _ => RunData.nodeBindings_eq_none.1) hrates houtputs ?_ _ _) _ _ _
      rw [hqdraft, hinit]
      exact List.length_map _
    · rw [List.length_append, length_stateRows]

end

theorem UnitHydrograph.failsWith_run {u : UnitHydrograph K} (hlaw : u.curve.LawOfValues)
    (hvalue : ∀ f : Fault, f.OfValue → P f)
    (hsolver : u.method = .discrete → d.settings.solver = .adaptive →
      P (.configuration (.fixedStepOnly u.signature.name)))
    (hempty : u.method = .discrete → t = 0 → P (.shape .emptyTimeAxis))
    (hunordered : u.method = .discrete → unorderedTimes d.times = true →
      P (.shape .unorderedTimes))
    (rows : List (Grid [n, t] K)) : FailsWith P (u.run d rows) := by
  unfold run
  simp only [FailsWith.bind_iff, FailsWith.orFault_iff]
  refine ⟨fun _ => hvalue _ trivial, fun q _ => ⟨fun _ => hvalue _ trivial, fun lags _ =>
    ⟨(failsWith_weightsFor hlaw lags).mono hvalue, fun w _ => ?_⟩⟩⟩
  cases hmethod : u.method with
  | sparse => simp
  | discrete =>
    show FailsWith P (u.buffered w d q)
    unfold buffered
    split
    · rename_i hadaptive
      exact FailsWith.error_iff.2 (hsolver hmethod hadaptive)
    · refine .ite (by simp) ?_
      simp only [FailsWith.bind_iff, pure_eq_ok, FailsWith.ok, implies_true, and_true]
      refine ⟨Forcing.failsWith_make d.times_length List.length_ofFn (hempty hmethod)
        (hunordered hmethod), fun forcing _ =>
          failsWith_advance (hvalue _ trivial) (fun b x => ?_) _ _ _⟩
      rw [checkedRate_bufferRate]
      exact .ok _

end

namespace Component

def ByFormulas : Component K → Prop
  | bucket b => ∀ f ∈ b.fluxes, f.lawName? = none
  | route r => ∀ f ∈ r.fluxes, f.lawName? = none
  | hydrograph u => u.curve.LawOfValues
  | model _ _ => True

def Advances : Component K → Prop
  | bucket b => b.states ≠ []
  | route _ => True
  | hydrograph u => u.method = .discrete
  | model _ _ => False

inductive LateFault (t : Nat) : Component K → Settings K → Fault → Prop
  | noTimes {c : Component K} {s : Settings K} (advances : c.Advances) (zero : t = 0) :
    LateFault t c s (.shape .emptyTimeAxis)
  | unordered {c : Component K} {s : Settings K} (advances : c.Advances)
      {times : { times : List K // times.length = t }} (given : s.timesFor t = .ok times)
      (turns : unorderedTimes times.val = true) : LateFault t c s (.shape .unorderedTimes)
  | adaptive {u : UnitHydrograph K} {s : Settings K} (buffers : u.method = .discrete)
      (solver : s.solver = .adaptive) :
    LateFault t (.hydrograph u) s (.configuration (.fixedStepOnly u.signature.name))
  | inflow {r : Route K} {s : Settings K} {f : Declaration K} (mem : f ∈ r.ordered)
      (reads : r.inflow ∈ f.reads) :
    LateFault t (.route r) s (.configuration (.unavailable f.name r.inflow))

variable {args : RunArguments K} {s : Settings K} {c : Component K}

/-- A unit of formulas fails over a value or late. -/
theorem failsWith_compute_of_unit (hc : ∀ w parts, c ≠ model w parts) (hformulas : c.ByFormulas)
    (hmet : (c.demand s).Met n t args) (rows : List (Grid [n, t] K)) :
    FailsWith (fun f => f.OfValue ∨ LateFault t c s f) (c.compute args s rows) := by
  obtain ⟨d, hd⟩ := hmet
  rw [← prepareFor_eq_demand] at hd
  have hunordered {sig : Signature} (hprepare : RunData.prepare sig n t args s = .ok d)
      (hadvances : c.Advances) (h : unorderedTimes d.times = true) :
      LateFault t c s (.shape .unorderedTimes) :=
    .unordered hadvances (RunData.prepare_eq_ok_iff.1 hprepare).1 h
  have hvalue (f : Fault) (hf : f.OfValue) : f.OfValue ∨ LateFault t c s f := .inl hf
  cases c with
  | bucket b =>
    rw [compute, hd, ok_bind]
    exact b.failsWith_run (fun f hf => .inl hf.1) hformulas (RunData.prepare_eq_ok hd).2
      (fun _ => .inl trivial) (fun _ _ _ => .inl trivial) (fun hne h => .inr (.noTimes hne h))
      fun hne h => .inr (hunordered hd hne h)
  | route r =>
    obtain ⟨hsize, hprepare⟩ := prepareFor_route hd
    rw [compute, hd, ok_bind]
    exact r.failsWith_run (fun f hf => .inl hf.1) hformulas (RunData.prepare_eq_ok hprepare).2
      hsize (fun _ => .inl trivial) (fun _ _ _ => .inl trivial)
      (fun f hf hread => .inr (.inflow hf hread)) (fun h => .inr (.noTimes trivial h))
      fun h => .inr (hunordered hprepare trivial h)
  | hydrograph u =>
    rw [compute, hd, ok_bind]
    refine u.failsWith_run hformulas hvalue (fun hmethod hsolver => .inr (.adaptive hmethod ?_))
      (fun hmethod h => .inr (.noTimes hmethod h)) (fun hmethod h => .inr (hunordered hd hmethod h))
      rows
    rw [← (RunData.prepare_eq_ok hd).1, hsolver]
  | model w parts => exact absurd rfl (hc w parts)

theorem failsWith_compute_of_units (hunits : units c s = [(c, s)])
    (hformulas : ∀ u ∈ units c s, u.1.ByFormulas) (hcheck : check n t args c s = .ok ())
    (rows : List (Grid [n, t] K)) :
    FailsWith (fun f => f.OfValue ∨ ∃ u ∈ units c s, LateFault t u.1 u.2 f)
      (c.compute args s rows) := by
  have hmet := check_eq_ok_iff.1 hcheck
  have hne := ne_model_of_mem_units c s
  simp only [hunits, List.forall_mem_singleton] at hformulas hmet hne
  simpa [hunits] using failsWith_compute_of_unit hne hformulas hmet rows

omit [Scalar K] in
theorem failsWith_rowsAt {P : Fault → Prop} (hposition : P .position)
    (rows : List (Grid [n, t] K)) (places : List Nat) : FailsWith P (rowsAt rows places) :=
  .mapM fun k _ => by simp [hposition]

theorem failsWith_computeAll {P : Fault → Prop} {w : Wiring K} (hposition : P .position)
    {parts : List (Component K)}
    (hparts : ∀ c ∈ parts, ∀ rows : List (Grid [n, t] K),
      FailsWith P (c.compute args (w.settingsFor c.name s) rows))
    (places : List (List Nat)) (rows : List (Grid [n, t] K)) :
    FailsWith P (computeAll args w parts places s rows) := by
  induction parts generalizing places rows with
  | nil => simp [computeAll]
  | cons c rest ih =>
    cases places with
    | nil => simp [computeAll]
    | cons place more =>
      obtain ⟨hc, hrest⟩ := List.forall_mem_cons.1 hparts
      simp only [computeAll, FailsWith.bind_iff, hc, ih hrest, pure_eq_ok, FailsWith.ok,
        implies_true, and_true]
      exact failsWith_rowsAt hposition _ _

/-- What a composed component needs for a run is what its units need. -/
theorem Composed.missing?_of_check (hc : c.Composed) (hcheck : check n t args c s = .ok ()) :
    args.missing? c.signature = none := by
  induction hc generalizing s with
  | bucket b =>
    obtain ⟨d, hd, -⟩ := bind_eq_ok.1 hcheck
    exact RunData.missing?_of_prepare hd
  | route r =>
    obtain ⟨d, hd, -⟩ := bind_eq_ok.1 hcheck
    exact RunData.missing?_of_prepare (prepareFor_route hd).2
  | hydrograph u =>
    obtain ⟨d, hd, -⟩ := bind_eq_ok.1 hcheck
    exact RunData.missing?_of_prepare hd
  | model _ built ih =>
    obtain ⟨-, ordered, hordered, -, rfl⟩ := Composition.build_eq_ok.1 built
    have hperm := (Composition.order_eq_ok hordered).1
    exact Composition.missing?_wiring fun p hp => ih p (hperm.mem_iff.1 hp) (check_part hcheck hp)

/-- A composed component of formulas that accepts the arguments fails over a value, or one of its
units fails late. -/
theorem Composed.failsWith_compute (hc : c.Composed) (hformulas : ∀ u ∈ units c s, u.1.ByFormulas)
    (hcheck : check n t args c s = .ok ()) (rows : List (Grid [n, t] K)) :
    FailsWith (fun f => f.OfValue ∨ ∃ u ∈ units c s, LateFault t u.1 u.2 f)
      (c.compute args s rows) := by
  induction hc generalizing s rows with
  | bucket b => exact failsWith_compute_of_units rfl hformulas hcheck rows
  | route r => exact failsWith_compute_of_units rfl hformulas hcheck rows
  | hydrograph u => exact failsWith_compute_of_units rfl hformulas hcheck rows
  | @model d _ parts built ih =>
    have hmissing := (Composed.model parts built).missing?_of_check hcheck
    obtain ⟨-, ordered, hordered, -, rfl⟩ := Composition.build_eq_ok.1 built
    have hperm := (Composition.order_eq_ok hordered).1
    have hparts (p : Component K) (hp : p ∈ ordered) (rows : List (Grid [n, t] K)) :
        FailsWith (fun f => f.OfValue ∨
          ∃ u ∈ units (.model (d.wiring ordered) ordered) s, LateFault t u.1 u.2 f)
          (p.compute args ((d.wiring ordered).settingsFor p.name s) rows) := by
      have hmem {u : Component K × Settings K}
          (hu : u ∈ units p ((d.wiring ordered).settingsFor p.name s)) :
          u ∈ units (.model (d.wiring ordered) ordered) s := mem_unitsOf.2 ⟨p, hp, hu⟩
      refine (ih p (hperm.mem_iff.1 hp) (fun u hu => hformulas u (hmem hu))
        (check_part hcheck hp) rows).mono fun f hf => ?_
      exact hf.imp_right fun ⟨u, hu, hlate⟩ => ⟨u, hmem hu, hlate⟩
    have hcheckAll : checkAll n t args (d.wiring ordered) ordered s = .ok () := hcheck
    rw [signature] at hmissing
    simp only [compute, hmissing, hcheckAll, ok_bind, FailsWith.bind_iff, pure_eq_ok, FailsWith.ok,
      implies_true, and_true]
    exact ⟨failsWith_computeAll (.inl trivial) hparts _ _,
      fun table _ => failsWith_rowsAt (.inl trivial) _ _⟩

/-- A run whose arguments were accepted fails over a value, or one of the units fails late. -/
theorem Composed.failsWith_run (hc : c.Composed) {input : Nested K} {given : InputRows K}
    (hreads : given.Reads input) (hcount : given.rows.length = c.signature.inputs.length)
    (hformulas : ∀ u ∈ units c s, u.1.ByFormulas)
    (hcheck : check given.nodes given.times args c s = .ok ()) :
    FailsWith (fun f => f.OfValue ∨ ∃ u ∈ units c s, LateFault given.times u.1 u.2 f)
      (c.run input args s) := by
  obtain ⟨x, hx, hgiven⟩ := hreads
  simp only [run, hx, ok_bind, hgiven, hcount, bne_self_eq_false, Bool.false_eq_true, if_false,
    FailsWith.bind_iff, pure_eq_ok, FailsWith.ok, implies_true, and_true]
  exact hc.failsWith_compute hformulas hcheck given.rows

/-- A store of formulas accepts its arguments over times that do not increase, and then no inputs
run. -/
theorem compute_of_unordered {b : Bucket K} (hlaws : ∀ f ∈ b.fluxes, f.lawName? = none)
    (hne : b.states ≠ []) (hcheck : check n t args (bucket b) s = .ok ())
    {times : { times : List K // times.length = t }} (htimes : s.timesFor t = .ok times)
    (h : unorderedTimes times.val = true) (rows : List (Grid [n, t] K)) :
    (bucket b).compute args s rows = mismatched .unorderedTimes := by
  obtain ⟨d, hd, -⟩ := bind_eq_ok.1 hcheck
  obtain ⟨p, hp, -⟩ := b.fluxProgram_exists d.settings.backend hlaws
  obtain ⟨q, hq, -⟩ := b.rateProgram_exists d.settings.backend hlaws
  have htimes' := (RunData.prepare_eq_ok_iff.1 hd).1
  obtain rfl : times = ⟨d.times, d.times_length⟩ := Except.ok.inj (htimes.symm.trans htimes')
  have hforcing := Forcing.make_of_unordered
    ((length_timeColumns rows).trans d.times_length.symm) h
  have hstates : b.states.isEmpty = false := by simpa using hne
  rw [compute, hd, ok_bind, Bucket.run, hp, ok_bind, hq, hstates, if_neg Bool.false_ne_true,
    ok_bind, Bucket.runStates, hforcing]
  rfl

end Component

def Composition.contraryTank : Composition Float where
  name := some "m"
  parts := [.bucket .contrary, .bucket .tank]
  sort := false
  inputs := none
  outputs := none
  settings := []

theorem Composition.contraryTank_build :
    contraryTank.build = .ok (.model (contraryTank.wiring contraryTank.parts) contraryTank.parts) :=
  build_eq_ok.2 ⟨⟨by simp [contraryTank], rfl⟩, _, rfl, fault?_eq_none.2
    ⟨Signature.stateAndOutput?_eq_none.2 (by decide), rfl, rfl, rfl,
      unknownSettings?_eq_none.2 (by decide)⟩, rfl⟩

def Settings.stillTime : Settings Float :=
  { Settings.standard with times := some (.list [.entry (.integer 0), .entry (.integer 0)]) }

/-- Over times that stand still the arguments of the model are accepted. The tank alone refuses the
times when it runs, and in the model the bucket before it fails first. -/
theorem Component.contraryTank_fails_late :
    let row : Nested Float := .list [.entry (.integer 1), .entry (.integer 1)]
    ∃ c, Composition.contraryTank.build = .ok c ∧
      check 1 2 ⟨[], []⟩ c Settings.stillTime = .ok () ∧
      c.run (.list [row, row]) ⟨[], []⟩ .stillTime = .error .operand ∧
      (bucket .tank).run (.list [row]) ⟨[], []⟩ .stillTime = mismatched .unorderedTimes := by
  intro row
  refine ⟨_, Composition.contraryTank_build, ?_, ?_, ?_⟩
  · rfl
  · rfl
  · rfl

end Catchment
