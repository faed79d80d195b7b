import Catchment.Proofs.NamedValues
import Catchment.Proofs.PreparedRows

/-!
# Runs of named rows

Rows under names are a run of a bucket exactly if all its formulas hold at every node and every time
and each state starts and gains as its rate says. Several buckets share such rows.
-/
namespace Catchment

theorem exists_rows_by_name {α : Type} {names : List String} (hn : names.Nodup) {rows : List α}
    (hlen : rows.length = names.length) (x : String → α) :
    ∃ y : String → α, rows = names.map y ∧ ∀ v, v ∉ names → y v = x v := by
  refine ⟨fun v => ((names.zip rows).lookup v).getD (x v), ?_, fun v hv => ?_⟩
  · refine List.ext_getElem (by simpa using hlen) fun k hk hk' => ?_
    rw [List.getElem_map, lookup_zip_getElem hn (hlen ▸ hk) hk]
    rfl
  · simp only [lookup_zip_of_notMem rows hv, Option.getD_none]

variable {K : Type} {n t : Nat}

def namedAt (y : String → Grid [n, t] K) (i : Fin n) (j : Fin t) : String → K :=
  fun v => (y v).get (.nodeTime i j)

theorem columnAt_map (y : String → Grid [n, t] K) (names : List String) (i : Fin n) (j : Fin t) :
    columnAt (names.map y) i j = names.map (namedAt y i j) := List.map_map

variable [Scalar K] {F : String → Format} {args : RunArguments K} {s : Settings K}

structure NamedRun (F : String → Format) (d : BucketDraft K) (args : RunArguments K)
    (s : Settings K) (y : String → Grid [n, t] K) : Prop where
  initial : ∀ r ∈ d.rates, ∀ i (j : Fin t), j.val = 0 →
    namedAt y i j r.state = args.stateAt s i r.state
  holds : ∀ f ∈ d.formulas, ∀ i j, HoldsAt s.backend F (namedAt y i j) (args.paramAt s i) f
  gains : ∀ r ∈ d.rates, ∀ i (j j' : Fin t), j'.val = j.val + 1 →
    GainsTo s.backend F (namedAt y i j) (args.paramAt s i) s.minValue r (namedAt y i j' r.state)

namespace Bucket

variable {b : Bucket K} {d : RunData n t K} {y : String → Grid [n, t] K}

theorem networks_eq_nil (hlaws : ∀ f ∈ b.fluxes, f.lawName? = none) :
    b.signature.networks = [] := by
  refine List.eq_nil_iff_forall_not_mem.2 fun w hw => ?_
  obtain ⟨f, hf, hw⟩ : ∃ f ∈ b.fluxes, w ∈ f.networks := by
    simpa [signature, BucketDraft.signature, Signature.ofDeclarations] using hw
  rw [Declaration.networks_eq_nil (hlaws f hf)] at hw
  exact List.not_mem_nil hw

/-- Columns of outputs and rates that are right where the formulas hold follow each other exactly in
a run of named rows. -/
theorem columnRun_iff_namedRun {outputsAt ratesAt : Fin n → List K → List K → Except Fault (List K)}
    (hd : RunData.prepare b.signature n t args s = .ok d)
    (houtputs : ∀ i z, outputsAt i (b.signature.inputs.map z) (b.states.map z) =
      .ok (b.outputs.map z) ↔ ∀ f ∈ b.formulas, HoldsAt s.backend F z (args.paramAt s i) f)
    (hrates : ∀ i z z', (∀ f ∈ b.formulas, HoldsAt s.backend F z (args.paramAt s i) f) →
      ((do
        let rates ← ratesAt i (b.signature.inputs.map z) (b.states.map z)
        return addRates s.minValue (b.states.map z) rates) = Except.ok (b.states.map z') ↔
      ∀ r ∈ b.rates, GainsTo s.backend F z (args.paramAt s i) s.minValue r (z' r.state))) :
    b.ColumnRun d outputsAt ratesAt (b.signature.inputs.map y) (b.states.map y)
        (b.outputs.map y) ↔ NamedRun F b.toBucketDraft args s y := by
  obtain ⟨rfl, -⟩ := RunData.prepare_eq_ok hd
  have hinitial (i : Fin n) (j : Fin t) : columnAt (b.states.map y) i j =
      d.initial.map (·.get (.node i)) ↔
      ∀ r ∈ b.rates, namedAt y i j r.state = args.stateAt d.settings i r.state := by
    rw [columnAt_map, RunData.initial_of_prepare hd i]
    show b.states.map _ = b.states.map _ ↔ _
    rw [List.map_inj_left]
    exact List.forall_mem_map
  constructor
  · intro h
    have hholds (i : Fin n) (j : Fin t) : ∀ f ∈ b.formulas,
        HoldsAt d.settings.backend F (namedAt y i j) (args.paramAt d.settings i) f := by
      have hout := h.outputs_eq i j
      simp only [columnAt_map] at hout
      exact (houtputs i _).1 hout
    refine ⟨fun r hr i j hj => (hinitial i j).1 (h.initial i j hj) r hr,
      fun f hf i j => hholds i j f hf, fun r hr i j j' hj => ?_⟩
    have hsucc := h.states_succ i j j' hj
    simp only [columnAt_map] at hsucc
    exact (hrates i _ _ (hholds i j)).1 hsucc r hr
  · intro h
    have hholds (i : Fin n) (j : Fin t) : ∀ f ∈ b.formulas,
        HoldsAt d.settings.backend F (namedAt y i j) (args.paramAt d.settings i) f :=
      fun f hf => h.holds f hf i j
    refine ⟨List.length_map _, List.length_map _, fun i j hj => (hinitial i j).2
      fun r hr => h.initial r hr i j hj, fun i j => ?_, fun i j j' hj => ?_⟩
    · simp only [columnAt_map]
      exact (houtputs i _).2 (hholds i j)
    · simp only [columnAt_map]
      exact (hrates i _ _ (hholds i j)).2 fun r hr => h.gains r hr i j j' hj

theorem scalarRun_iff_namedRun (hb : b.Plain F) (hbackend : s.backend = .elementwise)
    (hd : RunData.prepare b.signature n t args s = .ok d) :
    b.ScalarRun b.ordered d (b.signature.inputs.map y) (b.states.map y) (b.outputs.map y) ↔
      NamedRun F b.toBucketDraft args s y := by
  have hparams (i : Fin n) : ∀ k ∈ b.signature.params,
      nodeScope d.params i k = Scope.doubles (args.paramAt s i) k :=
    fun k hk => RunData.nodeScope_of_prepare hd i hk
  rw [scalarRun_iff_columnRun]
  refine columnRun_iff_namedRun hd (fun i z => ?_) (fun i z z' hz => ?_)
  · rw [hbackend]
    exact outputsAt_eq_ok hb (hparams i)
  · rw [hbackend] at hz ⊢
    rw [← statesAfter_eq]
    exact statesAfter_eq_ok hb (hparams i) hz z'

theorem rowNames_nodup (b : Bucket K) : (b.states ++ b.outputs).Nodup := by
  obtain ⟨hstates, hdisjoint⟩ := BucketDraft.fault?_eq_none.1 b.accepted
  refine List.nodup_append.2 ⟨hstates, nodup_orderedUnion _, ?_⟩
  rintro v hv w hw rfl
  exact hdisjoint v hv hw

theorem inputs_notMem {v : String} (hv : v ∈ b.signature.inputs) : v ∉ b.states ++ b.outputs := by
  obtain ⟨-, houtputs, hstates⟩ := Signature.mem_inputs_ofDeclarations.1 hv
  rw [List.mem_append]
  exact not_or.2 ⟨hstates, houtputs⟩

end Bucket

/-- A fixed-step solver over finite times that increase. -/
structure Settings.Stepwise (s : Settings K) (t : Nat) : Prop where
  solver : s.solver ≠ .adaptive
  strict : ∀ times, s.timesFor t = .ok times → StrictTimes times.val

theorem Settings.Stepwise.strictTimes (hs : s.Stepwise t) {sig : Signature} {d : RunData n t K}
    (hd : RunData.prepare sig n t args s = .ok d) : StrictTimes d.times :=
  hs.strict _ (RunData.prepare_eq_ok_iff.1 hd).1

namespace Bucket

variable [OrderedScalar K] {b : Bucket K} {d : RunData n t K} {y : String → Grid [n, t] K}

/-- A bucket returns a row for every state and every output, and no warning. Rows by name that it
returns are a run of named rows. -/
theorem namedRun_of_run (hb : b.Plain F) (hbackend : s.backend = .elementwise) (hs : s.Stepwise t)
    (hd : RunData.prepare b.signature n t args s = .ok d) {rows : List (Grid [n, t] K)}
    {out : Outcome n t K} (h : b.run d rows = .ok out) :
    ∃ states outputs, states.length = b.states.length ∧ outputs.length = b.outputs.length ∧
      out = ⟨states ++ outputs, []⟩ ∧
      ∀ y : String → Grid [n, t] K, rows = b.signature.inputs.map y →
        states = b.states.map y → outputs = b.outputs.map y →
        NamedRun F b.toBucketDraft args s y := by
  obtain ⟨rfl, hinit⟩ := RunData.prepare_eq_ok hd
  have hstrict := hs.strictTimes hd
  obtain ⟨states, outputs, hrun, rfl⟩ := scalarRun_of_run hb.laws hb.free hbackend hs.solver hstrict
    hinit h
  refine ⟨states, outputs, hrun.states_length, hrun.outputs_length, rfl, ?_⟩
  rintro y rfl rfl rfl
  exact (scalarRun_iff_namedRun hb hbackend hd).1 hrun

theorem run_iff_namedRun (hb : b.Plain F) (hbackend : s.backend = .elementwise)
    (hs : s.Stepwise t) (hn : 0 < n) (ht : 0 < t)
    (hd : RunData.prepare b.signature n t args s = .ok d) :
    b.run d (b.signature.inputs.map y) = .ok ⟨(b.states ++ b.outputs).map y, []⟩ ↔
      NamedRun F b.toBucketDraft args s y := by
  constructor
  · intro h
    obtain ⟨states, outputs, hstates, -, hout, hrun⟩ := namedRun_of_run hb hbackend hs hd h
    have hrows := congrArg Outcome.rows hout
    rw [List.map_append] at hrows
    obtain ⟨rfl, rfl⟩ := List.append_inj hrows ((List.length_map _).trans hstates.symm)
    exact hrun y rfl rfl rfl
  · intro h
    obtain ⟨rfl, hinit⟩ := RunData.prepare_eq_ok hd
    have hstrict := hs.strictTimes hd
    rw [List.map_append]
    exact run_of_scalarRun hb.laws hb.free hbackend hs.solver hstrict hinit hn ht
      ((scalarRun_iff_namedRun hb hbackend hd).2 h)

theorem compute_named (hb : b.Plain F) (hbackend : s.backend = .elementwise)
    (hs : s.Stepwise t) {x : String → Grid [n, t] K} {out : Outcome n t K}
    (h : (Component.bucket b).compute args s (b.signature.inputs.map x) = .ok out) :
    ∃ y : String → Grid [n, t] K, out = ⟨(b.states ++ b.outputs).map y, []⟩ ∧
      ∀ v, v ∉ b.states ++ b.outputs → y v = x v := by
  obtain ⟨d, hd, hout⟩ := bind_eq_ok.1 h
  obtain ⟨states, outputs, hstates, houtputs, rfl, -⟩ := namedRun_of_run hb hbackend hs hd hout
  have hlen : (states ++ outputs).length = (b.states ++ b.outputs).length := by
    rw [List.length_append, hstates, houtputs, List.length_append]
  obtain ⟨y, hy, hx⟩ := exists_rows_by_name b.rowNames_nodup hlen x
  exact ⟨y, by rw [hy], hx⟩

/-- A bucket returns rows by name exactly if the arguments give it what it needs and the rows are a
run of named rows. -/
theorem compute_iff_namedRun (hb : b.Plain F) (hbackend : s.backend = .elementwise)
    (hs : s.Stepwise t) (hn : 0 < n) (ht : 0 < t) :
    (Component.bucket b).compute args s (b.signature.inputs.map y) =
        .ok ⟨(b.states ++ b.outputs).map y, []⟩ ↔
      args.Gives s n t b.signature.params b.states ∧ NamedRun F b.toBucketDraft args s y := by
  show (RunData.prepare b.signature n t args s >>= fun d => b.run d _) = _ ↔ _
  have hgives : args.Gives s n t b.signature.params b.states ↔
      ∃ d : RunData n t K, RunData.prepare b.signature n t args s = .ok d :=
    (RunData.prepare_exists (networks_eq_nil hb.laws)).symm
  rw [hgives, bind_eq_ok, ← exists_and_right]
  exact exists_congr fun d => and_congr_right fun hd => run_iff_namedRun hb hbackend hs hn ht hd

end Bucket

end Catchment
