import Catchment.Proofs.DeclaredNames
import Catchment.Proofs.NodeSteps
import Catchment.Proofs.ScheduledDeclarations

/-!
# Runs of buckets in columns

If the two programs of a bucket compute column by column, so does a fixed-step run: at each node and
time the outputs follow from the inputs and states there, and each state gains its rate.
-/
namespace Catchment

variable {K : Type} [Scalar K]

namespace Bucket

theorem states_nodup (b : Bucket K) : b.states.Nodup := (BucketDraft.fault?_eq_none.1 b.accepted).1

theorem ordered_perm (b : Bucket K) : b.ordered.Perm b.fluxes := (orderItems_eq_ok b.order_eq).1

theorem inOrder (b : Bucket K) : Item.InOrder (b.ordered.map Declaration.item) :=
  (orderItems_eq_ok b.order_eq).2

theorem mem_outputs (b : Bucket K) {v : String} :
    v ∈ b.outputs ↔ v ∈ b.ordered.flatMap Declaration.outputs := by
  rw [BucketDraft.outputs, mem_orderedUnion, List.mem_flatMap]
  simp only [List.mem_map, exists_exists_and_eq_and, b.ordered_perm.mem_iff]

theorem rowsRead_nodup (b : Bucket K) : b.rowsRead.Nodup := by
  refine List.nodup_append.2 ⟨Signature.nodup_inputs_ofDeclarations, b.states_nodup, ?_⟩
  rintro v hv w hw rfl
  exact (Signature.mem_inputs_ofDeclarations.1 hv).2.2 hw

/-- What a declaration of a bucket reads is an input, a state or an output. -/
theorem reads_known (b : Bucket K) {f : Declaration K}
    (hf : f ∈ b.ordered ++ b.rates.map Declaration.state) {v : String} (hv : v ∈ f.reads) :
    v ∈ b.rowsRead ∨ v ∈ b.ordered.flatMap Declaration.outputs := by
  by_cases hout : v ∈ b.outputs
  · exact .inr (b.mem_outputs.1 hout)
  · refine .inl (List.mem_append.2 ?_)
    by_cases hstate : v ∈ b.states
    · exact .inr hstate
    · refine .inl (Signature.mem_inputs_ofDeclarations.2 ⟨⟨f, ?_, hv⟩, hout, hstate⟩)
      rw [List.mem_append] at hf ⊢
      exact hf.imp_left b.ordered_perm.mem_iff.1

theorem mem_params (b : Bucket K) {k : String} : k ∈ b.signature.params ↔
    ∃ f ∈ b.fluxes ++ b.rates.map Declaration.state, k ∈ f.params := by
  show k ∈ orderedUnion _ ↔ _
  simp only [mem_orderedUnion, List.mem_map, exists_exists_and_eq_and]

variable {b : Bucket K}

theorem byFormulas_ordered (hlaws : ∀ f ∈ b.fluxes, f.lawName? = none) :
    ∀ f ∈ b.ordered, f.lawName? = none :=
  fun f hf => hlaws f (b.ordered_perm.mem_iff.1 hf)

theorem byFormulas_rates (hlaws : ∀ f ∈ b.fluxes, f.lawName? = none) :
    ∀ f ∈ b.ordered ++ b.rates.map .state, f.lawName? = none := by
  intro f hf
  rcases List.mem_append.1 hf with hf | hf
  · exact byFormulas_ordered hlaws f hf
  · obtain ⟨r, -, rfl⟩ := List.mem_map.1 hf
    rfl

theorem fluxProgram_exists (backend : Backend) (hlaws : ∀ f ∈ b.fluxes, f.lawName? = none) :
    ∃ p, b.fluxProgram backend = .ok p ∧
      p.toProgramDraft = ⟨backend, b.ordered, b.rowsRead, b.outputs⟩ :=
  Program.compile_exists
    (ProgramDraft.unavailable?_of_inOrder b.inOrder fun _ hf _ hv =>
      b.reads_known (List.mem_append_left _ hf) hv)
    (fun _ ho => .inr (b.mem_outputs.1 ho)) fun _ => byFormulas_ordered hlaws

theorem rateProgram_exists (backend : Backend) (hlaws : ∀ f ∈ b.fluxes, f.lawName? = none) :
    ∃ p, b.rateProgram backend = .ok p ∧
      p.toProgramDraft = ⟨backend, b.ordered ++ b.rates.map .state, b.rowsRead,
        b.states.map rateName⟩ := by
  refine Program.compile_exists (ProgramDraft.unavailable?_append
    (ProgramDraft.unavailable?_of_inOrder b.inOrder fun _ hf _ hv =>
      b.reads_known (List.mem_append_left _ hf) hv)
    fun _ hg _ hv => b.reads_known (List.mem_append_right _ hg) hv) (fun o ho => .inr ?_)
    fun _ => byFormulas_rates hlaws
  obtain ⟨s, hs, rfl⟩ := List.mem_map.1 ho
  obtain ⟨r, hr, rfl⟩ := List.mem_map.1 hs
  refine List.mem_flatMap.2 ⟨.state r, List.mem_append_right _ (List.mem_map_of_mem hr), ?_⟩
  exact List.mem_singleton_self _

theorem params_fluxProgram {p : Program K} {backend : Backend}
    (hp : p.toProgramDraft = ⟨backend, b.ordered, b.rowsRead, b.outputs⟩) {k : String}
    (hk : k ∈ p.params) : k ∈ b.signature.params := by
  simp only [Program.params, hp, mem_orderedUnion, List.mem_map, exists_exists_and_eq_and] at hk
  obtain ⟨g, hg, hk⟩ := hk
  exact b.mem_params.2 ⟨g, List.mem_append_left _ (b.ordered_perm.mem_iff.1 hg), hk⟩

theorem params_rateProgram {q : Program K} {backend : Backend} (hq : q.toProgramDraft =
    ⟨backend, b.ordered ++ b.rates.map .state, b.rowsRead, b.states.map rateName⟩) {k : String}
    (hk : k ∈ q.params) : k ∈ b.signature.params := by
  simp only [Program.params, hq, mem_orderedUnion, List.mem_map, exists_exists_and_eq_and] at hk
  obtain ⟨g, hg, hk⟩ := hk
  refine b.mem_params.2 ⟨g, ?_, hk⟩
  rw [List.mem_append] at hg ⊢
  exact hg.imp_left b.ordered_perm.mem_iff.1

theorem byFormulas_fluxProgram {p : Program K} {backend : Backend}
    (hlaws : ∀ f ∈ b.fluxes, f.lawName? = none)
    (hp : p.toProgramDraft = ⟨backend, b.ordered, b.rowsRead, b.outputs⟩) : p.ByFormulas := by
  rw [Program.ByFormulas, hp]
  exact byFormulas_ordered hlaws

theorem byFormulas_rateProgram {q : Program K} {backend : Backend}
    (hlaws : ∀ f ∈ b.fluxes, f.lawName? = none) (hq : q.toProgramDraft =
      ⟨backend, b.ordered ++ b.rates.map .state, b.rowsRead, b.states.map rateName⟩) :
    q.ByFormulas := by
  rw [Program.ByFormulas, hq]
  exact byFormulas_rates hlaws

variable {n t : Nat}

/-- Rows of states and outputs that at every node and time follow from the column before. -/
structure ColumnRun (b : Bucket K) (d : RunData n t K)
    (outputsAt ratesAt : Fin n → List K → List K → Except Fault (List K))
    (inputs states outputs : List (Grid [n, t] K)) : Prop where
  states_length : states.length = b.states.length
  outputs_length : outputs.length = b.outputs.length
  initial : ∀ i (j : Fin t), j.val = 0 → columnAt states i j = d.initial.map (·.get (.node i))
  outputs_eq : ∀ i j, outputsAt i (columnAt inputs i j) (columnAt states i j) =
    .ok (columnAt outputs i j)
  states_succ : ∀ i (j j' : Fin t), j'.val = j.val + 1 →
    (do
      let rates ← ratesAt i (columnAt inputs i j) (columnAt states i j)
      return addRates d.settings.minValue (columnAt states i j) rates) =
        Except.ok (columnAt states i j')

variable {d : RunData n t K} {rows : List (Grid [n, t] K)} {p q : Program K}
  {outputsAt ratesAt : Fin n → List K → List K → Except Fault (List K)}

theorem checkedRate_iff {l m : Nat} {f : Forcing [l, n] K} {u g : Grid [m, n] K} {time : K} :
    checkedRate (rate q f d) u time = .ok g ↔
      q.run ((f.value d.settings.interpolation time).rows ++ u.rows) d.nodeBindings
        d.networkWeights = .ok g.rows :=
  checkedRate_eq_ok rfl

variable [OrderedScalar K]

/-- A run of a bucket of which the programs compute column by column. -/
theorem columnRun_of_run (hp : b.fluxProgram d.settings.backend = .ok p)
    (hq : b.rateProgram d.settings.backend = .ok q) (hsolver : d.settings.solver ≠ .adaptive)
    (hstrict : StrictTimes d.times) (hinit : d.initial.length = b.states.length)
    (hflux : ∀ states outs : List (Grid [n, t] K),
      p.run (rows ++ states) d.timeBindings d.networkWeights = .ok outs →
        ∀ i j, outputsAt i (columnAt rows i j) (columnAt states i j) = .ok (columnAt outs i j))
    (hrate : ∀ (v : Grid [rows.length, n] K) (u g : Grid [d.initial.length, n] K),
      q.run (v.rows ++ u.rows) d.nodeBindings d.networkWeights = .ok g.rows →
        ∀ i, ratesAt i (v.nodeColumn i) (u.nodeColumn i) = .ok (g.nodeColumn i))
    (hnone : b.states = [] → ∀ i xs outs, outputsAt i xs [] = .ok outs →
      ratesAt i xs [] = .ok [])
    {out : Outcome n t K} (h : b.run d rows = .ok out) :
    ∃ states outputs, b.ColumnRun d outputsAt ratesAt rows states outputs ∧
      out = ⟨states ++ outputs, []⟩ := by
  have hlength {states outs : List (Grid [n, t] K)}
      (h : p.run (rows ++ states) d.timeBindings d.networkWeights = .ok outs) :
      outs.length = b.outputs.length :=
    (Program.length_run h).trans (by rw [Program.draft_of_compile hp])
  rw [run, hp] at h
  simp only [ok_bind] at h
  split at h
  · rename_i hempty
    obtain ⟨outs, houts, h⟩ := bind_eq_ok.1 h
    obtain rfl := Except.ok.inj h
    have hnil : b.states = [] := List.isEmpty_iff.1 hempty
    rw [← List.append_nil rows] at houts
    have hout := hflux [] outs houts
    refine ⟨[], outs, ⟨by rw [hnil]; rfl, hlength houts, fun i j _ => ?_, hout, fun i j j' _ => ?_⟩,
      rfl⟩
    · rw [hnil] at hinit
      rw [List.length_eq_zero_iff.1 hinit]
      rfl
    · exact bind_eq_ok.2 ⟨[], hnone hnil i _ _ (hout i j), rfl⟩
  · rw [hq] at h
    simp only [ok_bind] at h
    obtain ⟨f, hf, h⟩ := bind_eq_ok.1 h
    obtain ⟨path, hpath, h⟩ := bind_eq_ok.1 h
    obtain ⟨outs, houts, h⟩ := bind_eq_ok.1 h
    obtain rfl := Except.ok.inj h
    obtain ⟨hmarch, hwarn⟩ := (advance_eq_ok hsolver).1 hpath
    refine ⟨_, outs, ⟨(length_stateRows _).trans hinit, hlength houts, fun i j hj => ?_,
      hflux _ outs houts, fun i j j' hj => ?_⟩, by rw [hwarn]⟩
    · rw [hmarch.columnAt_zero d.times_length i j hj, Grid.nodeColumn, Grid.rows_stack]
    · refine hmarch.columnAt_succ (fun j v w => ∀ i,
        (do return addRates d.settings.minValue (v i) (← ratesAt i (columnAt rows i j) (v i))) =
          Except.ok (w i)) d.times_length ?_ hj i
      intro j v w time htime hj hw i
      refine advanceOnce_nodes (fun i => ratesAt i (columnAt rows i j) (v.nodeColumn i))
        (fun g hg i => ?_) hw i
      have hrun := hrate _ v g (checkedRate_iff.1 hg) i
      rwa [Forcing.nodeColumn_value hf hstrict _ htime hj] at hrun

/-- Rows that follow column by column are what a run returns. -/
theorem run_of_columnRun (hp : b.fluxProgram d.settings.backend = .ok p)
    (hq : b.rateProgram d.settings.backend = .ok q) (hsolver : d.settings.solver ≠ .adaptive)
    (hstrict : StrictTimes d.times) (hinit : d.initial.length = b.states.length) (ht : 0 < t)
    (hflux : ∀ states outs : List (Grid [n, t] K), outs.length = b.outputs.length →
      (∀ i j, outputsAt i (columnAt rows i j) (columnAt states i j) = .ok (columnAt outs i j)) →
        p.run (rows ++ states) d.timeBindings d.networkWeights = .ok outs)
    (hrate : ∀ (v : Grid [rows.length, n] K) (u g : Grid [d.initial.length, n] K),
      (∀ i, ratesAt i (v.nodeColumn i) (u.nodeColumn i) = .ok (g.nodeColumn i)) →
        q.run (v.rows ++ u.rows) d.nodeBindings d.networkWeights = .ok g.rows)
    (hlength : ∀ i xs ys rs, ratesAt i xs ys = .ok rs → rs.length = b.states.length)
    {states outputs : List (Grid [n, t] K)}
    (h : b.ColumnRun d outputsAt ratesAt rows states outputs) :
    b.run d rows = .ok ⟨states ++ outputs, []⟩ := by
  have houts := hflux states outputs h.outputs_length h.outputs_eq
  rw [run, hp]
  simp only [ok_bind]
  by_cases hempty : b.states.isEmpty = true
  · have hnil : b.states = [] := List.isEmpty_iff.1 hempty
    have hstates : states = [] := List.length_eq_zero_iff.1 (by rw [h.states_length, hnil]; rfl)
    rw [if_pos hempty]
    subst hstates
    rw [List.append_nil] at houts
    rw [houts]
    rfl
  · obtain ⟨f, hf, -⟩ := Forcing.make_eq_ok hstrict
      ((length_timeColumns rows).trans d.times_length.symm) (by rwa [d.times_length])
    obtain ⟨columns, hmarch, hcolumns⟩ := marches_of_nodes d.settings.minValue (rate q f d)
      (Grid.stack d.initial) (fun j v w => ∀ i,
        (do return addRates d.settings.minValue (v i) (← ratesAt i (columnAt rows i j) (v i))) =
          Except.ok (w i))
      (h.states_length.trans hinit.symm) d.times_length
      (fun i j hj => by rw [h.initial i j hj, Grid.nodeColumn, Grid.rows_stack])
      (fun j j' hj i => h.states_succ i j j' hj) (fun j v w time htime hj hw => by
        refine advanceOnce_of_nodes (fun g hg => checkedRate_iff.2 (hrate _ v g fun i => ?_))
          (fun i xs hxs => (hlength i _ _ xs hxs).trans hinit.symm) hw
        rw [Forcing.nodeColumn_value hf hstrict _ htime hj]
        exact hg i)
    have hpath : advance d.settings (rate q f d) (Grid.stack d.initial) d.times =
        .ok ⟨columns, []⟩ := (advance_eq_ok hsolver).2 ⟨hmarch, rfl⟩
    rw [if_neg hempty, hq]
    simp only [ok_bind, runStates, hf, hpath, hcolumns, houts, pure_eq_ok]

end Bucket

end Catchment
