import Catchment.Proofs.NamedRoutes

/-!
# Runs in the formats of formulas

A bucket computes each flux in the format of its formula, and its rates read the fluxes in these
formats. A route does the same with its fluxes, but its rates read them as doubles. With that said,
rows by name are what a bucket or a route returns exactly if they are a run of named rows, whatever
the formats are.
-/
namespace Catchment

variable {K : Type} [Scalar K]

variable {n t : Nat} {args : RunArguments K} {s : Settings K} {d : RunData n t K}
  {y : String → Grid [n, t] K} {z p : String → K} {params : Scope K} {q : Program K}
  {backend : Backend}

namespace Bucket

variable {b : Bucket K}

/-- The formats in which the fluxes are computed; all other names stand for doubles. -/
def formats (b : Bucket K) : String → Format := formatsOf (b.ordered.flatMap Declaration.formulas)

theorem rowsRead_notMem_outputs {v : String} (hv : v ∈ b.rowsRead) : v ∉ b.outputs := by
  rcases List.mem_append.1 hv with hv | hv
  · exact (Signature.mem_inputs_ofDeclarations.1 hv).2.1
  · exact (BucketDraft.fault?_eq_none.1 b.accepted).2 v hv

theorem evaluates (hlaws : ∀ f ∈ b.fluxes, f.lawName? = none) (hq : q.inputs = b.rowsRead) :
    q.Evaluates b.formats (b.ordered.flatMap Declaration.formulas) where
  scheduled := Declaration.scheduled b.inOrder
  reads _ hf _ hv := hq ▸ (formulas_reads hf hv).imp_right (mem_outputs_iff hlaws).1
  formats _ := (Declaration.scheduled b.inOrder).exactFormats
  given _ _ hv := (Declaration.scheduled b.inOrder).formatsOf_of_notMem
    (mt (mem_outputs_iff hlaws).2 (rowsRead_notMem_outputs (hq ▸ hv)))

/-- The outputs have some values exactly if the formulas hold there. -/
theorem evalAt_fluxProgram (hlaws : ∀ f ∈ b.fluxes, f.lawName? = none)
    (hq : q.toProgramDraft = ⟨backend, b.ordered, b.rowsRead, b.outputs⟩)
    (hparams : ∀ k ∈ b.signature.params, params k = Scope.doubles p k) :
    q.evalAt params (b.rowsRead.map z) = .ok (b.outputs.map z) ↔
      ∀ f ∈ b.formulas, HoldsAt backend b.formats z p f := by
  have hformulas : q.formulas = b.ordered.flatMap Declaration.formulas := by
    rw [Program.formulas, hq]
  have hbackend : q.backend = backend := congrArg ProgramDraft.backend hq
  have hvalues := q.evalAt_eq_ok (z := z) (hformulas ▸ evaluates hlaws (by rw [hq]))
    (fun o => by rw [hformulas, hq]; exact mem_outputs_iff hlaws)
    (fun k hk => hparams k (params_fluxProgram hq hk))
  rw [hformulas, hbackend, hq] at hvalues
  simp only [mem_ordered_formulas] at hvalues
  exact hvalues

/-- Where the formulas hold, the rates have the values that they have there. -/
theorem evalAt_rateProgram (hlaws : ∀ f ∈ b.fluxes, f.lawName? = none) (hfree : RatesFree b.rates)
    (hq : q.toProgramDraft =
      ⟨backend, b.ordered ++ b.rates.map .state, b.rowsRead, b.states.map rateName⟩)
    (hparams : ∀ k ∈ b.signature.params, params k = Scope.doubles p k)
    (hz : ∀ f ∈ b.formulas, HoldsAt backend b.formats z p f) (xs : List K) :
    q.evalAt params (b.rowsRead.map z) = .ok xs ↔
      (b.rates.mapM fun r => r.expr.valueAt backend b.formats z p) = .ok xs := by
  have hbackend : q.backend = backend := congrArg ProgramDraft.backend hq
  have hvalues := q.evalAt_rates (z := z) (p := p) (evaluates hlaws (by rw [hq]))
    b.states_nodup hfree
    (by rw [Program.formulas, hq, List.flatMap_append, flatMap_formulas_state])
    (by rw [hq]; rfl)
    (fun r hr v hv => hq ▸ (rates_reads hr hv).imp_right (mem_outputs_iff hlaws).1)
    (fun k hk => hparams k (params_rateProgram hq hk))
    (fun f hf => hbackend ▸ hz f (mem_ordered_formulas.1 hf)) xs
  rw [hbackend, hq] at hvalues
  exact hvalues

/-- Columns of the two programs follow each other exactly in a run of named rows. -/
theorem columnRun_iff_formatted (hlaws : ∀ f ∈ b.fluxes, f.lawName? = none)
    (hfree : RatesFree b.rates) (hd : RunData.prepare b.signature n t args s = .ok d)
    {p q : Program K} (hp : p.toProgramDraft = ⟨s.backend, b.ordered, b.rowsRead, b.outputs⟩)
    (hq : q.toProgramDraft =
      ⟨s.backend, b.ordered ++ b.rates.map .state, b.rowsRead, b.states.map rateName⟩) :
    b.ColumnRun d (fun i xs ys => p.evalAt (nodeScope d.params i) (xs ++ ys))
        (fun i xs ys => q.evalAt (nodeScope d.params i) (xs ++ ys)) (b.signature.inputs.map y)
        (b.states.map y) (b.outputs.map y) ↔
      NamedRun b.formats b.toBucketDraft args s y := by
  have hparams (i : Fin n) : ∀ k ∈ b.signature.params,
      nodeScope d.params i k = Scope.doubles (args.paramAt s i) k :=
    fun k hk => RunData.nodeScope_of_prepare hd i hk
  refine columnRun_iff_namedRun hd (fun i z => ?_) (fun i z z' hz => ?_)
  · rw [← List.map_append]
    exact evalAt_fluxProgram hlaws hp (hparams i)
  · have hmap (w : String → K) : b.states.map w = b.rates.map fun r => w r.state := List.map_map
    have hrates := evalAt_rateProgram hlaws hfree hq (hparams i) hz
    rw [← List.map_append, bind_eq_ok]
    show (∃ xs, q.evalAt (nodeScope d.params i) (b.rowsRead.map z) = _ ∧ _) ↔ _
    simp only [hmap, hrates, pure_eq_ok, Except.ok.injEq]
    exact exists_mapM_zipWith

variable [OrderedScalar K]

/-- Rows by name are what a bucket of formulas returns exactly if they are a run of named rows. -/
theorem run_iff_formatted (hlaws : ∀ f ∈ b.fluxes, f.lawName? = none) (hfree : RatesFree b.rates)
    (hs : s.Stepwise t) (hn : 0 < n) (ht : 0 < t)
    (hd : RunData.prepare b.signature n t args s = .ok d) :
    b.run d (b.signature.inputs.map y) = .ok ⟨(b.states ++ b.outputs).map y, []⟩ ↔
      NamedRun b.formats b.toBucketDraft args s y := by
  obtain ⟨rfl, hinit⟩ := RunData.prepare_eq_ok hd
  have hstrict := hs.strictTimes hd
  obtain ⟨p, hp, hpd⟩ := fluxProgram_exists d.settings.backend hlaws
  obtain ⟨q, hq, hqd⟩ := rateProgram_exists d.settings.backend hlaws
  rw [run_iff_columnRun hlaws (RunData.supplies_of_prepare hd) hs.solver hstrict hinit hn ht hp hq,
    ← columnRun_iff_formatted hlaws hfree hd hpd hqd]
  constructor
  · rintro ⟨states, outputs, hrun, hout⟩
    have hrows := congrArg Outcome.rows hout
    rw [List.map_append] at hrows
    obtain ⟨rfl, rfl⟩ := List.append_inj hrows ((List.length_map _).trans hrun.states_length.symm)
    exact hrun
  · exact fun hrun => ⟨_, _, hrun, by rw [List.map_append]⟩

end Bucket

namespace Route

variable {r : Route K}

/-- The formats in which the fluxes are computed; all other names stand for doubles. -/
def formats (r : Route K) : String → Format := formatsOf (r.ordered.flatMap Declaration.formulas)

theorem exactFormats (hlaws : ∀ f ∈ r.fluxes, f.lawName? = none) :
    ExactFormats r.formats r.formulas ∧ ∀ v ∈ r.rowsRead, r.formats v = .double := by
  have hscheduled := Declaration.scheduled r.inOrder
  refine ⟨fun f hf => hscheduled.exactFormats f (mem_ordered_formulas.2 hf), fun v hv => ?_⟩
  refine hscheduled.formatsOf_of_notMem fun hcomputed => r.rowsRead_notMem_outputs hv ?_
  exact r.mem_outputs.2 (.inl ((mem_fluxOutputs_iff hlaws).2 hcomputed))

variable [OrderedScalar K]

/-- Rows by name are what a route of formulas returns exactly if they are a run of named rows. -/
theorem run_iff_formatted (hlaws : ∀ f ∈ r.fluxes, f.lawName? = none)
    (hreads : ∀ f ∈ r.ordered, r.inflow ∉ f.reads) (hfree : RatesFree r.rates)
    (hs : s.Stepwise t) (hn : 0 < n) (ht : 0 < t) (hsize : r.topology.size = n)
    (hd : RunData.prepare r.signature n t args s = .ok d) :
    r.run d (r.signature.inputs.map y) = .ok ⟨(r.states ++ r.outputs).map y, []⟩ ↔
      r.NamedRun args s
        (fun i z => ∀ f ∈ r.formulas, HoldsAt s.backend r.formats z (args.paramAt s i) f) y := by
  obtain ⟨rfl, hinit⟩ := RunData.prepare_eq_ok hd
  have hstrict := hs.strictTimes hd
  obtain ⟨p, hp, hpd⟩ := fluxProgram_of_reads d.settings.backend (fun _ => hlaws) hreads
  obtain ⟨q, hq, hqd⟩ := r.rateProgram_exists d.settings.backend
  have hlocal (i : Fin n) (z : String → K) :
      p.evalAt (nodeScope d.params i) (r.rowsRead.map z) = .ok (r.fluxOutputs.map z) ↔
        ∀ f ∈ r.formulas, HoldsAt d.settings.backend r.formats z (args.paramAt d.settings i) f :=
    evalAt_fluxProgram hlaws hreads (fun _ => exactFormats hlaws) hpd
      fun k hk => RunData.nodeScope_of_prepare hd i hk
  have hrows : (r.states ++ r.outputs).map y =
      r.states.map y ++ r.fluxOutputs.map y ++ [y r.inflow] := by
    simp only [RouteDraft.outputs, List.map_append, List.append_assoc]
    rfl
  rw [run_iff_columnRun hlaws (RunData.supplies_of_prepare hd) hs.solver hstrict hinit hsize hn ht hp
    hq, ← columnRun_iff_namedRun hfree hd hqd hlocal, hrows]
  constructor
  · rintro ⟨states, fluxes, inflow, hrun, hout⟩
    obtain ⟨hlocal, hinflow⟩ := List.append_inj' (congrArg Outcome.rows hout) rfl
    obtain ⟨rfl, rfl⟩ := List.append_inj hlocal ((List.length_map _).trans hrun.states_length.symm)
    obtain rfl := (List.cons.inj hinflow).1
    exact hrun
  · exact fun hrun => ⟨_, _, _, hrun, rfl⟩

end Route

end Catchment
