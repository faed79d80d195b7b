import Catchment.Proofs.LateFaults
import Catchment.Proofs.RouteRuns

/-!
# Closed components

A bucket of formulas, and a route of fluxes by formulas, is closed: whatever one of its declarations
reads is an input, a state, an output or, for a route, the inflow, and all parameters are declared.
So its two programs compile with either backend, and a run with accepted arguments never misses a
name: neither does a program look for a row or a parameter in vain, nor is a declaration to blame.
-/
namespace Catchment

variable {K : Type} [Scalar K]

/-- A program that finds every name it reads, if it is given its inputs and the parameters. -/
structure Program.Closed (p : Program K) (params : List String) : Prop where
  reads : ReadsKnown p.inputs p.formulas
  outputs : ∀ o ∈ p.outputs, o ∈ p.formulas.map Prod.fst ++ p.inputs
  parameters : ∀ f ∈ p.formulas, ∀ k ∈ f.2.readsParams, k ∈ p.params
  declared : ∀ k ∈ p.params, k ∈ params

omit [Scalar K] in
theorem Program.ByFormulas.closed {p : Program K} (hp : p.ByFormulas) {params : List String}
    (hparams : ∀ k ∈ p.params, k ∈ params) : p.Closed params where
  reads := hp.readsKnown
  outputs _ ho := hp.outputs_known ho
  parameters _ hf _ hk := formulas_readsParams hf hk
  declared := hparams

/-- What stands for a missing name does not matter to formulas that read what is known. -/
theorem foldl_symbolic_eq {known : List String} {fs : List (String × Expr K)}
    (hreads : ReadsKnown known fs) {env params : List (String × K)}
    (hknown : ∀ v ∈ known, env.lookup v ≠ none)
    (hparams : ∀ f ∈ fs, ∀ k ∈ f.2.readsParams, params.lookup k ≠ none) (x y x' y' : K) :
    fs.foldl (fun env f => (f.1, f.2.symbolic (Program.valueOf x env)
      (Program.valueOf y params)) :: env) env =
    fs.foldl (fun env f => (f.1, f.2.symbolic (Program.valueOf x' env)
      (Program.valueOf y' params)) :: env) env := by
  have hvalue {pairs : List (String × K)} {v : String} (h : pairs.lookup v ≠ none) (x x' : K) :
      Program.valueOf x pairs v = Program.valueOf x' pairs v := by
    obtain ⟨z, hz⟩ := Option.ne_none_iff_exists'.1 h
    rw [Program.valueOf, Program.valueOf, hz, Option.getD_some, Option.getD_some]
  induction fs generalizing known env with
  | nil => rfl
  | cons f fs ih =>
    obtain ⟨hf, hfs⟩ := List.forall_mem_cons.1 hparams
    have hvalues : f.2.symbolic (Program.valueOf x env) (Program.valueOf y params) =
        f.2.symbolic (Program.valueOf x' env) (Program.valueOf y' params) :=
      Expr.symbolic_congr (fun v hv => hvalue (hknown v (hreads.1 hv)) x x')
        fun k hk => hvalue (hf k hk) y y'
    rw [List.foldl_cons, List.foldl_cons, hvalues]
    refine ih hreads.2 (fun v hv => ?_) hfs
    rcases eq_or_ne v f.1 with rfl | hne
    · rw [List.lookup_cons_self]
      exact Option.some_ne_none _
    · rw [lookup_cons_of_ne hne]
      exact hknown v (List.mem_of_ne_of_mem hne hv)

/-- A symbolic program computes the same column whatever stands for missing names. -/
theorem Program.Closed.column_eq {p : Program K} {names : List String} (h : p.Closed names)
    {inputs params : List (String × K)} (hinputs : ∀ v ∈ p.inputs, inputs.lookup v ≠ none)
    (hparams : ∀ k ∈ p.params, params.lookup k ≠ none) (x y : K) :
    p.column inputs params = p.formulas.foldl (fun env f => (f.1, f.2.symbolic (valueOf x env)
      (valueOf y params)) :: env) inputs :=
  foldl_symbolic_eq h.reads hinputs (fun f hf k hk => hparams k (h.parameters f hf k hk)) _ _ x y

/-- Neither a missing name nor a declaration is to blame. -/
def Fault.SparesNames (f : Fault) : Prop := f ≠ .unknownName ∧ ∀ cause, f ≠ .configuration cause

theorem Fault.sparesNames_shape (cause : ShapeMismatch) : (Fault.shape cause).SparesNames :=
  ⟨by simp, by simp⟩

theorem Fault.OfFoundValue.sparesNames {f : Fault} (h : f.OfFoundValue) : f.SparesNames := by
  refine ⟨h.2, ?_⟩
  rintro cause rfl
  exact h.1

/-- A component of fluxes and rates, each compiled into a program of its own, that reads no other
names than its inputs and what it computes itself. -/
structure Component.Closed (c : Component K) (fluxes : List (Declaration K))
    (rates : List (StateFlux K)) (inflow : List String)
    (fluxProgram rateProgram : Backend → Except Fault (Program K)) : Prop where
  inputs_once : c.signature.inputs.Nodup
  mem_inputs (v : String) : v ∈ c.signature.inputs ↔
    (∃ f ∈ fluxes ++ rates.map Declaration.state, v ∈ f.reads) ∧ (∀ r ∈ rates, v ≠ r.state) ∧
      (∀ f ∈ fluxes, v ∉ f.outputs) ∧ v ∉ inflow
  params_once : c.signature.params.Nodup
  mem_params (k : String) : k ∈ c.signature.params ↔
    ∃ f ∈ fluxes ++ rates.map Declaration.state, k ∈ f.params
  compiled (backend : Backend) : ∃ p q, fluxProgram backend = .ok p ∧ rateProgram backend = .ok q ∧
    p.Closed c.signature.params ∧ q.Closed c.signature.params
  evaluated {input : Nested K} {args : RunArguments K} {s : Settings K} {given : InputRows K}
    {d : RunData given.nodes given.times K} (accepted : c.Accepts input args s given d) :
    FailsWith Fault.SparesNames (c.run input args s)

section

variable {input : Nested K} {args : RunArguments K} {s : Settings K} {given : InputRows K}
  {d : RunData given.nodes given.times K}

omit [Scalar K] in
theorem notMem_states {rates : List (StateFlux K)} {v : String} :
    (v ∉ rates.map fun r => r.state) ↔ ∀ r ∈ rates, v ≠ r.state := by
  simp only [List.mem_map, not_exists, not_and, ne_comm (a := v), ne_eq]

omit [Scalar K] in
theorem notMem_fluxOutputs {fluxes : List (Declaration K)} {v : String} :
    v ∉ orderedUnion (fluxes.map Declaration.outputs) ↔ ∀ f ∈ fluxes, v ∉ f.outputs := by
  simp only [mem_orderedUnion, List.mem_map, exists_exists_and_eq_and, not_exists, not_and]

theorem RunData.lookup_params_ne_none {n t : Nat} {sig : Signature} {d : RunData n t K}
    (hd : prepare sig n t args s = .ok d) {k : String} (hk : k ∈ sig.params) :
    d.params.lookup k ≠ none :=
  Option.isSome_iff_ne_none.1 (lookup_params_isSome hd hk)

namespace Bucket

variable {b : Bucket K}

theorem failsWith_run_of_accepts (hlaws : ∀ f ∈ b.fluxes, f.lawName? = none)
    (h : (Component.bucket b).Accepts input args s given d) :
    FailsWith Fault.SparesNames ((Component.bucket b).run input args s) := by
  have hd : RunData.prepare b.signature given.nodes given.times args s = .ok d := h.prepared
  rw [h.run_bucket, FailsWith.bind_iff]
  refine ⟨b.failsWith_run (fun f => Fault.OfFoundValue.sparesNames) hlaws
    (RunData.prepare_eq_ok hd).2 (fun hne => absurd h.count hne)
    (fun k hk hnone => absurd hnone (RunData.lookup_params_ne_none hd hk))
    (fun _ _ => Fault.sparesNames_shape _) (fun _ _ => Fault.sparesNames_shape _), fun _ _ => .ok _⟩

theorem closed (hlaws : ∀ f ∈ b.fluxes, f.lawName? = none) :
    (Component.bucket b).Closed b.fluxes b.rates [] b.fluxProgram b.rateProgram where
  inputs_once := Signature.nodup_inputs_ofDeclarations
  mem_inputs v := by
    refine Signature.mem_inputs_ofDeclarations.trans (and_congr_right fun _ => ?_)
    rw [notMem_states, and_comm]
    exact and_congr_right fun _ => notMem_fluxOutputs.trans (by simp)
  params_once := nodup_orderedUnion _
  mem_params k := b.mem_params
  compiled backend := by
    obtain ⟨p, hp, hpdraft⟩ := b.fluxProgram_exists backend hlaws
    obtain ⟨q, hq, hqdraft⟩ := b.rateProgram_exists backend hlaws
    exact ⟨p, q, hp, hq,
      (byFormulas_fluxProgram hlaws hpdraft).closed fun k hk => params_fluxProgram hpdraft hk,
      (byFormulas_rateProgram hlaws hqdraft).closed fun k hk => params_rateProgram hqdraft hk⟩
  evaluated h := failsWith_run_of_accepts hlaws h

end Bucket

namespace Route

variable {r : Route K} (hfluxes : ∀ f ∈ r.fluxes, ∃ g : Flux K, f = .flux g ∧ g.law = none)

include hfluxes

theorem lawName?_of_fluxes : ∀ f ∈ r.fluxes, f.lawName? = none := by
  intro f hf
  obtain ⟨g, rfl, hlaw⟩ := hfluxes f hf
  rw [Declaration.lawName?, hlaw, Option.map_none]

/-- A flux reads its inputs, and no input of a flux is the inflow. -/
theorem inflow_notMem_reads_of_fluxes : ∀ f ∈ r.ordered, r.inflow ∉ f.reads := by
  intro f hf
  obtain ⟨g, rfl, -⟩ := hfluxes f (r.ordered_perm.mem_iff.1 hf)
  exact r.inflow_notMem_inputs _ hf

theorem failsWith_run_of_accepts (h : (Component.route r).Accepts input args s given d) :
    FailsWith Fault.SparesNames ((Component.route r).run input args s) := by
  obtain ⟨hsize, hd⟩ := Component.prepareFor_route h.prepared
  rw [h.run_route, FailsWith.bind_iff]
  refine ⟨r.failsWith_run (fun f => Fault.OfFoundValue.sparesNames) (lawName?_of_fluxes hfluxes)
    (RunData.prepare_eq_ok hd).2 hsize (fun hne => absurd h.count hne)
    (fun k hk hnone => absurd hnone (RunData.lookup_params_ne_none hd hk))
    (fun f hf hread => absurd hread (inflow_notMem_reads_of_fluxes hfluxes f hf))
    (fun _ => Fault.sparesNames_shape _) (fun _ => Fault.sparesNames_shape _), fun _ _ => .ok _⟩

theorem closed : (Component.route r).Closed r.fluxes r.rates [r.inflow] r.fluxProgram
    r.rateProgram where
  inputs_once := Signature.nodup_inputs_ofDeclarations
  mem_inputs v := by
    refine r.mem_inputs.trans (and_congr_right fun _ => ?_)
    rw [RouteDraft.states, notMem_states, and_comm, r.mem_outputs, not_or, List.mem_singleton]
    exact and_congr_right fun _ => and_congr_left' notMem_fluxOutputs
  params_once := nodup_orderedUnion _
  mem_params k := r.mem_params
  compiled backend := by
    have hlaws := lawName?_of_fluxes hfluxes
    obtain ⟨p, hp, hpdraft⟩ := fluxProgram_of_reads backend (fun _ => hlaws)
      (inflow_notMem_reads_of_fluxes hfluxes)
    obtain ⟨q, hq, hqdraft⟩ := r.rateProgram_exists backend
    exact ⟨p, q, hp, hq,
      (byFormulas_fluxProgram hlaws hpdraft).closed fun k hk => params_fluxProgram hpdraft hk,
      (byFormulas_rateProgram hqdraft).closed fun k hk => params_rateProgram hqdraft hk⟩
  evaluated h := failsWith_run_of_accepts hfluxes h

end Route

end

namespace Component

/-- Buckets of formulas and routes of fluxes by formulas are closed. -/
theorem closed_of_formulas :
    (∀ b : Bucket K, (∀ f ∈ b.fluxes, f.lawName? = none) →
      (bucket b).Closed b.fluxes b.rates [] b.fluxProgram b.rateProgram) ∧
    ∀ r : Route K, (∀ f ∈ r.fluxes, ∃ g : Flux K, f = .flux g ∧ g.law = none) →
      (route r).Closed r.fluxes r.rates [r.inflow] r.fluxProgram r.rateProgram :=
  ⟨fun _ hlaws => Bucket.closed hlaws, fun _ hfluxes => Route.closed hfluxes⟩

/-- A store reads its inflow and one parameter; two stores that drain into each other read no more,
since the inflow from above is gathered. -/
theorem stores_closed :
    ((bucket .linearStore).Closed Bucket.linearStore.fluxes Bucket.linearStore.rates []
        Bucket.linearStore.fluxProgram Bucket.linearStore.rateProgram ∧
      Bucket.linearStore.signature.inputs = ["p"] ∧
      Bucket.linearStore.signature.params = ["k"]) ∧
    (route .twoStores).Closed Route.twoStores.fluxes Route.twoStores.rates ["u"]
        Route.twoStores.fluxProgram Route.twoStores.rateProgram ∧
      Route.twoStores.signature.inputs = ["p"] ∧ Route.twoStores.signature.params = ["k"] :=
  ⟨⟨closed_of_formulas.1 .linearStore (by simp [Bucket.linearStore, Declaration.lawName?]),
      by decide, by decide⟩,
    closed_of_formulas.2 .twoStores (by simp [Route.twoStores, Route.drainage]),
      by decide, by decide⟩

end Component

end Catchment
