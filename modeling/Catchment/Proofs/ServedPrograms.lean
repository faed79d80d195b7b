import Catchment.Proofs.PickedNodes
import Catchment.Proofs.PreparedRows
import Catchment.Proofs.RouteColumns

/-!
# Served programs

Data serve a program of formulas if they give a number to each of its parameters at every node. What
such a program returns is then known at every node and every time from its formulas alone, and so is
whether it returns it. The data of a bucket or of a route of formulas serve both of its programs.
-/
namespace Catchment

variable {K : Type} {n t : Nat}

def RunData.Supplies (d : RunData n t K) (params : List String) : Prop :=
  ∀ k ∈ params, ∀ i : Fin n, ∃ x, nodeScope d.params i k = some (.double x)

variable [Scalar K]

/-- The data of accepted arguments supply all parameters of the signature. -/
theorem RunData.supplies_of_prepare {sig : Signature} {args : RunArguments K} {s : Settings K}
    {d : RunData n t K} (h : prepare sig n t args s = .ok d) : d.Supplies sig.params :=
  fun _ hk i => ⟨_, nodeScope_of_prepare h i hk⟩

structure RunData.Serves (d : RunData n t K) (p : Program K) : Prop where
  formulas : p.ByFormulas
  distinct : p.inputs.Nodup
  params : d.Supplies p.params

namespace RunData.Serves

variable {d d' : RunData n t K} {p : Program K} {weights weights' : Weights K}

theorem evalAt_nodes (h : d.Serves p) {rows outs : List (Grid [n] K)}
    (hrun : p.run rows d.nodeBindings weights = .ok outs) (i : Fin n) :
    p.evalAt (nodeScope d.params i) (rows.map (·.get (.node i))) =
      .ok (outs.map (·.get (.node i))) :=
  Program.evalAt_of_run h.formulas h.distinct d.nodeBindings_hold
    (fun k hk i => h.params k hk i.head) hrun (.node i)

theorem evalAt_times (h : d.Serves p) {rows outs : List (Grid [n, t] K)}
    (hrun : p.run rows d.timeBindings weights = .ok outs) (i : Fin n) (j : Fin t) :
    p.evalAt (nodeScope d.params i) (columnAt rows i j) = .ok (columnAt outs i j) :=
  Program.evalAt_of_run h.formulas h.distinct d.timeBindings_hold
    (fun k hk i => h.params k hk i.head) hrun (.nodeTime i j)

/-- Where there is a node, rows that are given at every node are what the program returns. -/
theorem run_nodes (h : d.Serves p) (hn : 0 < n) {rows outs : List (Grid [n] K)}
    (heval : ∀ i, p.evalAt (nodeScope d.params i) (rows.map (·.get (.node i))) =
      .ok (outs.map (·.get (.node i)))) : p.run rows d.nodeBindings weights = .ok outs :=
  Program.run_of_evalAt h.formulas h.distinct d.nodeBindings_hold
    (fun k hk i => h.params k hk i.head) weights (.node ⟨0, hn⟩) fun i => heval i.head

theorem run_times (h : d.Serves p) (hn : 0 < n) (ht : 0 < t) {rows outs : List (Grid [n, t] K)}
    (heval : ∀ i j, p.evalAt (nodeScope d.params i) (columnAt rows i j) =
      .ok (columnAt outs i j)) : p.run rows d.timeBindings weights = .ok outs :=
  Program.run_of_evalAt h.formulas h.distinct d.timeBindings_hold
    (fun k hk i => h.params k hk i.head) weights (.nodeTime ⟨0, hn⟩ ⟨0, ht⟩)
    fun i => heval i.head i.tail.head

/-- What a program returns at a node depends on the rows and the parameters there. -/
theorem congr_nodes (h : d.Serves p) (h' : d'.Serves p) {rows rows' outs outs' : List (Grid [n] K)}
    (hrun : p.run rows d.nodeBindings weights = .ok outs)
    (hrun' : p.run rows' d'.nodeBindings weights' = .ok outs') {i : Fin n}
    (hparams : nodeScope d.params i = nodeScope d'.params i)
    (hrows : rows.map (·.get (.node i)) = rows'.map (·.get (.node i))) :
    outs.map (·.get (.node i)) = outs'.map (·.get (.node i)) := by
  have hout := h.evalAt_nodes hrun i
  rw [hrows, hparams, h'.evalAt_nodes hrun' i] at hout
  exact (Except.ok.inj hout).symm

theorem congr_times (h : d.Serves p) (h' : d'.Serves p)
    {rows rows' outs outs' : List (Grid [n, t] K)}
    (hrun : p.run rows d.timeBindings weights = .ok outs)
    (hrun' : p.run rows' d'.timeBindings weights' = .ok outs') {i : Fin n} {j : Fin t}
    (hparams : nodeScope d.params i = nodeScope d'.params i)
    (hrows : columnAt rows i j = columnAt rows' i j) : columnAt outs i j = columnAt outs' i j := by
  have hout := h.evalAt_times hrun i j
  rw [hrows, hparams, h'.evalAt_times hrun' i j] at hout
  exact (Except.ok.inj hout).symm

end RunData.Serves

theorem Program.length_evalAt {q : Program K} {params : Scope K} {xs ys : List K}
    (h : q.evalAt params xs = .ok ys) : ys.length = q.outputs.length := by
  unfold evalAt at h
  split at h
  · obtain ⟨τ, -, h⟩ := bind_eq_ok.1 h
    exact (mapM_eq_ok.1 h).length_eq.symm
  · rw [← Except.ok.inj h, List.length_map]

variable {d : RunData n t K} {p q : Program K} {backend : Backend} {rows : List (Grid [n, t] K)}

namespace Bucket

variable {b : Bucket K}

theorem serves_fluxProgram (hlaws : ∀ f ∈ b.fluxes, f.lawName? = none)
    (hparams : d.Supplies b.signature.params)
    (hp : p.toProgramDraft = ⟨backend, b.ordered, b.rowsRead, b.outputs⟩) : d.Serves p where
  formulas := byFormulas_fluxProgram hlaws hp
  distinct := by
    rw [hp]
    exact b.rowsRead_nodup
  params k hk := hparams k (params_fluxProgram hp hk)

theorem serves_rateProgram (hlaws : ∀ f ∈ b.fluxes, f.lawName? = none)
    (hparams : d.Supplies b.signature.params) (hq : q.toProgramDraft =
      ⟨backend, b.ordered ++ b.rates.map .state, b.rowsRead, b.states.map rateName⟩) :
    d.Serves q where
  formulas := byFormulas_rateProgram hlaws hq
  distinct := by
    rw [hq]
    exact b.rowsRead_nodup
  params k hk := hparams k (params_rateProgram hq hk)

/-- Without states there is no rate, but the fluxes are evaluated. -/
theorem evalAt_rateProgram_nil
    (hp : p.toProgramDraft = ⟨backend, b.ordered, b.rowsRead, b.outputs⟩)
    (hq : q.toProgramDraft =
      ⟨backend, b.ordered ++ b.rates.map .state, b.rowsRead, b.states.map rateName⟩)
    (hnil : b.states = []) {params : Scope K} {xs outs : List K}
    (h : p.evalAt params xs = .ok outs) : q.evalAt params xs = .ok [] := by
  have hrates : b.rates = [] := List.map_eq_nil_iff.1 hnil
  have hformulas : q.formulas = p.formulas := by
    simp [Program.formulas, hp, hq, hrates]
  have hout : q.outputs = [] := by rw [hq, hnil, List.map_nil]
  have hin : q.inputs = p.inputs := by rw [hq, hp]
  have hbackend : q.backend = p.backend := by rw [hq, hp]
  unfold Program.evalAt at h ⊢
  rw [hbackend, hformulas, hout, hin]
  split at h
  · obtain ⟨τ, hτ, -⟩ := bind_eq_ok.1 h
    exact bind_eq_ok.2 ⟨τ, hτ, rfl⟩
  · rfl

/-- A bucket of formulas returns the rows that follow column by column from what its two programs give
at every node. -/
theorem run_iff_columnRun [OrderedScalar K] (hlaws : ∀ f ∈ b.fluxes, f.lawName? = none)
    (hparams : d.Supplies b.signature.params) (hsolver : d.settings.solver ≠ .adaptive)
    (hstrict : StrictTimes d.times) (hinit : d.initial.length = b.states.length) (hn : 0 < n)
    (ht : 0 < t) (hp : b.fluxProgram d.settings.backend = .ok p)
    (hq : b.rateProgram d.settings.backend = .ok q) {out : Outcome n t K} :
    b.run d rows = .ok out ↔ ∃ states outputs,
      b.ColumnRun d (fun i xs ys => p.evalAt (nodeScope d.params i) (xs ++ ys))
        (fun i xs ys => q.evalAt (nodeScope d.params i) (xs ++ ys)) rows states outputs ∧
      out = ⟨states ++ outputs, []⟩ := by
  have hpd := Program.draft_of_compile hp
  have hqd := Program.draft_of_compile hq
  have hfluxes := serves_fluxProgram hlaws hparams hpd
  have hrates := serves_rateProgram hlaws hparams hqd
  constructor
  · intro h
    refine columnRun_of_run hp hq hsolver hstrict hinit (fun states outs houts i j => ?_)
      (fun v u g hg i => ?_) (fun hnil i xs outs houts => ?_) h
    · have hat := hfluxes.evalAt_times houts i j
      rwa [columnAt, List.map_append] at hat
    · have hat := hrates.evalAt_nodes hg i
      rwa [map_rows_append] at hat
    · exact evalAt_rateProgram_nil hpd hqd hnil houts
  · rintro ⟨states, outputs, hrun, rfl⟩
    refine run_of_columnRun hp hq hsolver hstrict hinit ht (fun states outs _ houts => ?_)
      (fun v u g hg => ?_) (fun i xs ys rs hrs => ?_) hrun
    · refine hfluxes.run_times hn ht fun i j => ?_
      rw [columnAt, List.map_append]
      exact houts i j
    · refine hrates.run_nodes hn fun i => ?_
      rw [map_rows_append]
      exact hg i
    · rw [Program.length_evalAt hrs, hqd, List.length_map]

end Bucket

namespace Route

variable {r : Route K}

theorem serves_fluxProgram (hlaws : ∀ f ∈ r.fluxes, f.lawName? = none)
    (hparams : d.Supplies r.signature.params)
    (hp : p.toProgramDraft = ⟨backend, r.ordered, r.rowsRead, r.fluxOutputs⟩) : d.Serves p where
  formulas := byFormulas_fluxProgram hlaws hp
  distinct := by
    rw [hp]
    exact r.rowsRead_nodup
  params k hk := hparams k (params_fluxProgram hp hk)

theorem serves_rateProgram (hparams : d.Supplies r.signature.params) (hq : q.toProgramDraft =
      ⟨backend, r.rates.map .state, r.rowsRead ++ r.outputs, r.states.map rateName⟩) :
    d.Serves q where
  formulas := byFormulas_rateProgram hq
  distinct := by
    rw [hq]
    exact r.rowsKnown_nodup
  params k hk := hparams k (params_rateProgram hq hk)

/-- A route of formulas returns the rows that follow column by column from what its two programs give at
every node, with the inflow of the network between them. -/
theorem run_iff_columnRun [OrderedScalar K] (hlaws : ∀ f ∈ r.fluxes, f.lawName? = none)
    (hparams : d.Supplies r.signature.params) (hsolver : d.settings.solver ≠ .adaptive)
    (hstrict : StrictTimes d.times) (hinit : d.initial.length = r.states.length)
    (hsize : r.topology.size = n) (hn : 0 < n) (ht : 0 < t)
    (hp : r.fluxProgram d.settings.backend = .ok p)
    (hq : r.rateProgram d.settings.backend = .ok q) {out : Outcome n t K} :
    r.run d rows = .ok out ↔ ∃ states fluxes inflow,
      r.ColumnRun d (fun i => p.evalAt (nodeScope d.params i))
        (fun i => q.evalAt (nodeScope d.params i)) rows states fluxes inflow ∧
      out = ⟨states ++ fluxes ++ [inflow], []⟩ := by
  have hpd := Program.draft_of_compile hp
  have hqd := Program.draft_of_compile hq
  have hfluxes := serves_fluxProgram hlaws hparams hpd
  have hrates := serves_rateProgram hparams hqd
  constructor
  · exact columnRun_of_run hp hq hsolver hstrict hinit hsize
      (fun _ _ houts => hfluxes.evalAt_times houts) (fun _ _ houts => hfluxes.evalAt_nodes houts)
      fun _ _ houts => hrates.evalAt_nodes houts
  · rintro ⟨states, fluxes, inflow, hrun, rfl⟩
    exact run_of_columnRun hp hq hsolver hstrict hinit hsize ht
      (fun _ _ _ houts => hfluxes.run_times hn ht houts)
      (fun _ _ _ houts => hfluxes.run_nodes hn houts)
      (fun _ _ _ houts => hrates.run_nodes hn houts)
      (fun i xs ys hys => by rw [Program.length_evalAt hys, hpd])
      (fun i xs ys hys => by rw [Program.length_evalAt hys, hqd, List.length_map]) hrun

end Route

end Catchment
