import Catchment.Proofs.ExtendedRates
import Catchment.Proofs.MergedBuckets
import Catchment.Proofs.NodewiseRuns
import Catchment.Proofs.RearrangedPrograms

/-!
# Rearranged fluxes

A bucket that sorts its fluxes accepts them in any order. The inputs, parameters and outputs change
their places, and the sorted fluxes may be another schedule, but what is returned by name is the
same, under every solver and whatever the rates are called.
-/
namespace Catchment

theorem orderedUnion_perm {groups groups' : List (List String)} (h : groups'.Perm groups) :
    (orderedUnion groups').Perm (orderedUnion groups) :=
  (List.perm_ext_iff_of_nodup (nodup_orderedUnion _) (nodup_orderedUnion _)).2 fun v => by
    simp only [mem_orderedUnion, h.mem_iff]

/-- The second signature has the names of the first one, in any order. -/
structure Signature.Rearranges (sig sig' : Signature) : Prop where
  inputs : sig'.inputs.Perm sig.inputs
  states : sig'.states.Perm sig.states
  outputs : sig'.outputs.Perm sig.outputs
  params : sig'.params.Perm sig.params
  networks : sig'.networks.Perm sig.networks

variable {K : Type} [Scalar K]

theorem Signature.rearranges_ofDeclarations {kind name name' : String}
    {declared declared' : List (Declaration K)} {rates rates' : List (StateFlux K)}
    {outputs outputs' : List String} (hrates : rates'.Perm rates) (h : declared'.Perm declared)
    (houtputs : outputs'.Perm outputs) :
    (ofDeclarations kind name declared rates outputs).Rearranges
      (ofDeclarations kind name' declared' rates' outputs') := by
  have hstates := hrates.map fun r => r.state
  have hread := h.append (hrates.map Declaration.state)
  refine ⟨?_, hstates, houtputs, orderedUnion_perm (hread.map _), orderedUnion_perm (h.map _)⟩
  refine (List.perm_ext_iff_of_nodup nodup_inputs_ofDeclarations
    nodup_inputs_ofDeclarations).2 fun v => ?_
  simp only [mem_inputs_ofDeclarations, hread.mem_iff, houtputs.mem_iff, hstates.mem_iff]

variable {n t : Nat}

omit [Scalar K] in
theorem map_fst_of_forall₂ {α : Type} {R : String → α → Prop} {names : List String}
    {pairs : List (String × α)} (h : List.Forall₂ (fun k p => R k p.2 ∧ p.1 = k) names pairs) :
    pairs.map Prod.fst = names := by
  induction h with
  | nil => rfl
  | cons hp _ ih => rw [List.map_cons, hp.2, ih]

/-- Arguments that are accepted for a signature are accepted for its parameters in any order, and
give each of them the same values. -/
theorem RunData.prepare_rearranged {sig sig' : Signature} (h : sig.Rearranges sig')
    (hstates : sig'.states = sig.states) (hnetworks : sig'.networks = sig.networks)
    {args : RunArguments K} {s : Settings K} {d : RunData n t K}
    (hd : prepare sig n t args s = .ok d) :
    ∃ params, prepare sig' n t args s = .ok { d with params } ∧
      ∀ k, params.lookup k = d.params.lookup k := by
  obtain ⟨htimes, hsettings, ⟨hpresent, hclasses, hparams⟩, hweights, hinitial⟩ :=
    prepare_eq_ok_iff.1 hd
  have hrow (k : String) (hk : k ∈ sig'.params) :
      ∃ p : String × Grid [n] K, args.paramRow s n k = .ok p.2 ∧ p.1 = k := by
    obtain ⟨g, -, hg⟩ := lookup_of_forall₂ (R := fun k g => args.paramRow s n k = .ok g) hparams
      (h.params.mem_iff.1 hk)
    exact ⟨(k, g), hg, rfl⟩
  obtain ⟨params, hparams'⟩ := forall₂_exists.2 hrow
  refine ⟨params, prepare_eq_ok_iff.2 ⟨htimes, hsettings, ⟨?_, hclasses, hparams'⟩, ?_, ?_⟩,
    fun k => ?_⟩
  · rw [missingNames_eq_nil] at hpresent ⊢
    exact fun k hk => hpresent k (h.params.mem_iff.1 hk)
  · rw [hnetworks]
    exact hweights
  · rw [hstates]
    exact hinitial
  · by_cases hk : k ∈ sig.params
    · obtain ⟨g, hlookup, hg⟩ :=
        lookup_of_forall₂ (R := fun k g => args.paramRow s n k = .ok g) hparams hk
      obtain ⟨g', hlookup', hg'⟩ := lookup_of_forall₂
        (R := fun k g => args.paramRow s n k = .ok g) hparams' (h.params.mem_iff.2 hk)
      rw [hlookup, hlookup', Except.ok.inj (hg.symm.trans hg')]
    · have hnone {names : List String} {pairs : List (String × Grid [n] K)}
          (hpairs : List.Forall₂ (fun k p => args.paramRow s n k = .ok p.2 ∧ p.1 = k) names pairs)
          (hk : k ∉ names) : pairs.lookup k = none := by
        rw [List.lookup_eq_none_iff]
        rintro p hp
        rw [← map_fst_of_forall₂ (R := fun k g => args.paramRow s n k = .ok g) hpairs] at hk
        exact bne_iff_ne.2 fun hkp => hk (hkp ▸ List.mem_map_of_mem hp)
      rw [hnone hparams hk, hnone hparams' (mt h.params.mem_iff.1 hk)]

omit [Scalar K] in
theorem Bindings.same_map {α : Type} {pairs pairs' : List (String × α)}
    (h : ∀ k, pairs'.lookup k = pairs.lookup k) (f : α → Values K) :
    Same (pairs.map fun p => (p.1, f p.2)) (pairs'.map fun p => (p.1, f p.2)) := by
  intro k
  rw [lookup_map_snd, lookup_map_snd, h]

def Index.inRow {m : Nat} {s : Shape} (k : Fin m) : Index (1 :: s) → Index (m :: s) :=
  fun i => .cons k i.tail

theorem Grid.rows_pick_inRow {α : Type} {m : Nat} {s : Shape} (g : Grid (m :: s) α) (k : Fin m) :
    (g.pick (Index.inRow k)).rows = [g.row k] := by
  rw [rows, List.ofFn_succ, List.ofFn_zero, List.cons.injEq]
  refine ⟨ext_get fun i => ?_, rfl⟩
  rw [get_row, get_row]
  exact get_pick _ g _

def sampled (scheme : Interpolation) (times : List K) (time : K) (row : Grid [n, t] K) :
    Grid [n] K :=
  match Forcing.make times (timeColumns [row]) with
  | .ok f => (f.value scheme time).rows.headD (Grid.replicate Scalar.nan)
  | .error _ => Grid.replicate Scalar.nan

/-- Rows that are sampled together have the values that each has by itself. -/
theorem Forcing.rows_value_of_make {times : List K} {rows : List (Grid [n, t] K)}
    {f : Forcing [rows.length, n] K} (hf : make times (timeColumns rows) = .ok f)
    (scheme : Interpolation) (time : K) :
    (f.value scheme time).rows = rows.map (sampled scheme times time) := by
  refine List.ext_getElem (by simp [Grid.rows]) fun k hk hk' => ?_
  have hkrows : k < rows.length := by simpa using hk'
  obtain ⟨f', hf'⟩ : ∃ f' : Forcing [1, n] K, make times (timeColumns [rows[k]]) = .ok f' := by
    refine make_eq_ok_iff.2 ?_
    rw [length_timeColumns]
    simpa only [length_timeColumns] using make_eq_ok_iff.1 ⟨f, hf⟩
  have htimes : f'.times = f.times := (fields_of_make hf').1.trans (fields_of_make hf).1.symm
  have hcolumn (j : Nat) : f'.column j = (f.column j).pick (Index.inRow ⟨k, hkrows⟩) := by
    obtain ⟨hj, hcolumn⟩ := List.getElem?_eq_some_iff.1 (getElem?_column_of_make hf j)
    obtain ⟨hj', hcolumn'⟩ := List.getElem?_eq_some_iff.1 (getElem?_column_of_make hf' j)
    have hlt : min j (times.length - 1) < t := by rwa [length_timeColumns] at hj
    have hrows := rows_timeColumns rows ⟨_, hlt⟩ hj
    have hrows' := rows_timeColumns [rows[k]] ⟨_, hlt⟩ hj'
    rw [hcolumn] at hrows
    rw [hcolumn'] at hrows'
    have hrow := List.getElem_of_eq hrows (by simpa [Grid.rows] using hkrows)
    simp only [Grid.rows, List.getElem_ofFn, List.getElem_map] at hrow
    refine Grid.rows_injective (hrows'.trans ?_)
    rw [Grid.rows_pick_inRow, hrow]
    rfl
  simp only [List.getElem_map, sampled, hf']
  rw [value_of_pick htimes hcolumn, Grid.rows_pick_inRow]
  simp [Grid.rows]

/-- Rows of inputs under their names and rows of states are rows by name, in whatever order the
inputs stand. -/
theorem exists_rows_after {α : Type} {inputs inputs' states : List String}
    (hn : (inputs ++ states).Nodup) (hperm : inputs'.Perm inputs) (x : String → α) {us : List α}
    (hlen : us.length = states.length) : ∃ z : String → α,
      inputs.map x ++ us = (inputs ++ states).map z ∧
        inputs'.map x ++ us = (inputs' ++ states).map z := by
  obtain ⟨-, hstates, hdisjoint⟩ := List.nodup_append.1 hn
  obtain ⟨z, rfl, hz⟩ := exists_rows_by_name hstates hlen x
  have hinputs (v : String) (hv : v ∈ inputs) : x v = z v :=
    (hz v fun hvs => hdisjoint v hv v hvs rfl).symm
  refine ⟨z, ?_, ?_⟩
  · rw [List.map_append, List.map_congr_left hinputs]
  · rw [List.map_append, List.map_congr_left fun v hv => hinputs v (hperm.mem_iff.1 hv)]

/-- A rearranged program over rows of inputs by name and other rows. -/
theorem Program.Rearranges.run_after {p p' : Program K} (h : p.Rearranges p')
    {inputs inputs' known : List String} (hin : p.inputs = inputs ++ known)
    (hin' : p'.inputs = inputs' ++ known) (hperm : inputs'.Perm inputs)
    {s : Shape} {params params' : Bindings K} (hparams : params.Same params')
    {cells : Index s → Scope K} (ha : params.Hold cells)
    (hargs : ∀ k ∈ p.params, ∀ i, ∃ x, cells i k = some (.double x)) (x : String → Grid s K)
    {us outs : List (Grid s K)} (hlen : us.length = known.length) {weights weights' : Weights K}
    (hrun : p.run (inputs.map x ++ us) params weights = .ok outs) :
    ∃ y : String → Grid s K, outs = p.outputs.map y ∧
      p'.run (inputs'.map x ++ us) params' weights' = .ok (p'.outputs.map y) := by
  obtain ⟨z, hz, hz'⟩ := exists_rows_after (hin ▸ h.nodup) hperm x hlen
  rw [hz, ← hin] at hrun
  rw [hz', ← hin']
  exact h.run hparams ha hargs z hrun

theorem Forcing.make_exists_iff {times : List K} {rows rows' : List (Grid [n, t] K)} :
    (∃ f, make times (timeColumns rows) = .ok f) ↔ ∃ f, make times (timeColumns rows') = .ok f := by
  simp only [make_eq_ok_iff, length_timeColumns]

variable {args : RunArguments K} {s : Settings K} {d : RunData n t K}

namespace Bucket

variable {b b' : Bucket K}

/-- The second bucket has the fluxes of the first one, in any order, and the same rates. -/
structure Rearranges (b b' : Bucket K) : Prop where
  rates : b'.rates = b.rates
  fluxes : b'.fluxes.Perm b.fluxes

/-- A bucket that sorts its fluxes accepts them in any order. -/
theorem ofDraft_rearranged (hsort : b.sort = true) {fluxes : List (Declaration K)}
    (hperm : fluxes.Perm b.fluxes) :
    ∃ b', ofDraft { b.toBucketDraft with fluxes } = .ok b' ∧ b.Rearranges b' := by
  obtain ⟨ordered, hordered⟩ :=
    sortItems_exists "flux" (b.ordered_perm.trans hperm.symm) b.inOrder
  have hrates : { b.toBucketDraft with fluxes }.rateAmongFluxes? = none := by
    rw [BucketDraft.rateAmongFluxes?_eq_none]
    exact fun r hr => BucketDraft.rateAmongFluxes?_eq_none.1 b.noRate r (hperm.mem_iff.1 hr)
  have horder : { b.toBucketDraft with fluxes }.order = .ok ordered := by
    rw [BucketDraft.order, hsort, hordered]
  have hfault : { b.toBucketDraft with fluxes }.fault? ordered = none := by
    have houtputs : ({ b.toBucketDraft with fluxes } : BucketDraft K).outputs.Perm b.outputs :=
      orderedUnion_perm (hperm.map _)
    obtain ⟨hstates, hdisjoint⟩ := BucketDraft.fault?_eq_none.1 b.accepted
    exact BucketDraft.fault?_eq_none.2
      ⟨hstates, fun v hv ho => hdisjoint v hv (houtputs.mem_iff.1 ho)⟩
  exact ⟨_, ofDraft_eq_ok hrates horder hfault, rfl, hperm⟩

namespace Rearranges

variable (h : b.Rearranges b')

include h

theorem states : b'.states = b.states := by
  rw [BucketDraft.states, BucketDraft.states, h.rates]

theorem outputs : b'.outputs.Perm b.outputs := orderedUnion_perm (h.fluxes.map _)

theorem signature : b.signature.Rearranges b'.signature :=
  Signature.rearranges_ofDeclarations (.of_eq h.rates) h.fluxes h.outputs

theorem rowsRead : b'.rowsRead.Perm b.rowsRead := by
  rw [Bucket.rowsRead, h.states]
  exact h.signature.inputs.append_right _

theorem laws (hlaws : ∀ f ∈ b.fluxes, f.lawName? = none) : ∀ f ∈ b'.fluxes, f.lawName? = none :=
  fun f hf => hlaws f (h.fluxes.mem_iff.1 hf)

theorem ordered : b'.ordered.Perm b.ordered :=
  (b'.ordered_perm.trans h.fluxes).trans b.ordered_perm.symm

variable {p p' q q' : Program K} {backend : Backend}

theorem fluxProgram (hlaws : ∀ f ∈ b.fluxes, f.lawName? = none)
    (hp : p.toProgramDraft = ⟨backend, b.ordered, b.rowsRead, b.outputs⟩)
    (hp' : p'.toProgramDraft = ⟨backend, b'.ordered, b'.rowsRead, b'.outputs⟩) :
    p.Rearranges p' where
  backend := by rw [hp, hp']
  laws := byFormulas_fluxProgram hlaws hp
  nodup := by rw [hp]; exact b.rowsRead_nodup
  inputs := by rw [hp, hp']; exact h.rowsRead
  outputs := by rw [hp, hp']; exact fun o ho => h.outputs.mem_iff.1 ho
  fluxes := ⟨b.ordered, b'.ordered, [], by rw [hp, List.append_nil], by rw [hp', List.append_nil],
    h.ordered, b.inOrder, b'.inOrder⟩

theorem rateProgram (hlaws : ∀ f ∈ b.fluxes, f.lawName? = none) (hq : q.toProgramDraft =
      ⟨backend, b.ordered ++ b.rates.map .state, b.rowsRead, b.states.map rateName⟩)
    (hq' : q'.toProgramDraft =
      ⟨backend, b'.ordered ++ b'.rates.map .state, b'.rowsRead, b'.states.map rateName⟩) :
    q.Rearranges q' where
  backend := by rw [hq, hq']
  laws := byFormulas_rateProgram hlaws hq
  nodup := by rw [hq]; exact b.rowsRead_nodup
  inputs := by rw [hq, hq']; exact h.rowsRead
  outputs := by rw [hq, hq', h.states]; exact fun o ho => ho
  fluxes := ⟨b.ordered, b'.ordered, b.rates.map .state, by rw [hq], by rw [hq', h.rates],
    h.ordered, b.inOrder, b'.inOrder⟩

variable (hlaws : ∀ f ∈ b.fluxes, f.lawName? = none)
  (hd : RunData.prepare b.signature n t args s = .ok d) {params : List (String × Grid [n] K)}
  (hparams : ∀ k, params.lookup k = d.params.lookup k) (x : String → Grid [n, t] K)

include hlaws hd hparams

/-- The rates return the same, since every row of the inputs is sampled by itself. -/
theorem rate_extendedBy (hq : q.toProgramDraft =
      ⟨backend, b.ordered ++ b.rates.map .state, b.rowsRead, b.states.map rateName⟩)
    (hq' : q'.toProgramDraft =
      ⟨backend, b'.ordered ++ b'.rates.map .state, b'.rowsRead, b'.states.map rateName⟩)
    {f : Forcing [(b.signature.inputs.map x).length, n] K}
    {f' : Forcing [(b'.signature.inputs.map x).length, n] K}
    (hf : Forcing.make d.times (timeColumns (b.signature.inputs.map x)) = .ok f)
    (hf' : Forcing.make d.times (timeColumns (b'.signature.inputs.map x)) = .ok f')
    (u : Grid [d.initial.length, n] K) (time : K) :
    ExtendedBy (rate q f d u time) (rate q' f' { d with params } u time) := by
  refine ExtendedBy.bind (fun outs houts => ?_) fun _ => .refl _
  have hlen : u.rows.length = b.states.length := by
    simp only [Grid.rows, List.length_ofFn]
    exact (RunData.prepare_eq_ok hd).2
  have hin' : q'.inputs = b'.signature.inputs ++ b.states := by rw [hq', ← h.states]; rfl
  have hout : q'.outputs = q.outputs := by rw [hq, hq', h.states]
  rw [Forcing.rows_value_of_make hf, List.map_map] at houts
  rw [Forcing.rows_value_of_make hf', List.map_map]
  obtain ⟨y, rfl, hrun⟩ := (h.rateProgram hlaws hq hq').run_after (by rw [hq]; rfl) hin'
    h.signature.inputs (Bindings.same_map hparams fun g => Values.ofGrid g) d.nodeBindings_hold
    (fun k hk i => ⟨_, RunData.nodeScope_of_prepare hd i.head (params_rateProgram hq hk)⟩) _ hlen
    houts
  exact hrun.trans (by rw [hout])

/-- The fluxes over rows of states return the same by name. -/
theorem fluxes_run
    (hp : p.toProgramDraft = ⟨backend, b.ordered, b.rowsRead, b.outputs⟩)
    (hp' : p'.toProgramDraft = ⟨backend, b'.ordered, b'.rowsRead, b'.outputs⟩)
    {states outs : List (Grid [n, t] K)} (hlen : states.length = b.states.length)
    (houts : p.run (b.signature.inputs.map x ++ states) d.timeBindings d.networkWeights =
      .ok outs) :
    ∃ y : String → Grid [n, t] K, states ++ outs = (b.states ++ b.outputs).map y ∧
      states = b'.states.map y ∧ p'.run (b'.signature.inputs.map x ++ states)
        { d with params }.timeBindings d.networkWeights = .ok (b'.outputs.map y) := by
  have hin' : p'.inputs = b'.signature.inputs ++ b.states := by rw [hp', ← h.states]; rfl
  have hout : p.outputs = b.outputs := by rw [hp]
  have hout' : p'.outputs = b'.outputs := by rw [hp']
  obtain ⟨w, rfl, hw⟩ := (h.fluxProgram hlaws hp hp').run_after (by rw [hp]; rfl) hin'
    h.signature.inputs
    (Bindings.same_map hparams fun g => Values.ofGrid (g.reshape (u := [n, 1]) (by simp)))
    d.timeBindings_hold
    (fun k hk i => ⟨_, RunData.nodeScope_of_prepare hd i.head (params_fluxProgram hp hk)⟩) x hlen
    houts
  rw [hout'] at hw
  rw [hout]
  have hcount : (states ++ b.outputs.map w).length = (b.states ++ b.outputs).length := by
    simp [hlen]
  obtain ⟨y, hy, -⟩ := exists_rows_by_name b.rowNames_nodup hcount x
  have hparts := hy
  rw [List.map_append] at hparts
  obtain ⟨hstates, houtputs⟩ := List.append_inj hparts (hlen.trans (List.length_map _).symm)
  rw [List.map_inj_left] at houtputs
  refine ⟨y, hy, by rw [h.states, hstates], ?_⟩
  rw [← List.map_congr_left fun v hv => houtputs v (h.outputs.mem_iff.1 hv)]
  exact hw

/-- A bucket returns the same by name when its fluxes stand in another order. -/
theorem run {out : Outcome n t K} (hrun : b.run d (b.signature.inputs.map x) = .ok out) :
    ∃ y : String → Grid [n, t] K, out.rows = (b.states ++ b.outputs).map y ∧
      b'.run { d with params } (b'.signature.inputs.map x) =
        .ok ⟨(b'.states ++ b'.outputs).map y, out.warnings⟩ := by
  obtain ⟨p, hp, hpd⟩ := fluxProgram_exists d.settings.backend hlaws
  obtain ⟨p', hp', hpd'⟩ := fluxProgram_exists d.settings.backend (h.laws hlaws)
  obtain ⟨q, hq, hqd⟩ := rateProgram_exists d.settings.backend hlaws
  obtain ⟨q', hq', hqd'⟩ := rateProgram_exists d.settings.backend (h.laws hlaws)
  have hinit := (RunData.prepare_eq_ok hd).2
  rw [Bucket.run, hp, ok_bind] at hrun
  rw [Bucket.run, hp', ok_bind, h.states]
  split at hrun
  · rename_i hempty
    have hnil : b.states = [] := List.isEmpty_iff.1 hempty
    rw [if_pos hempty]
    obtain ⟨outs, houts, hrun⟩ := bind_eq_ok.1 hrun
    obtain rfl := Except.ok.inj hrun
    rw [← List.append_nil (b.signature.inputs.map x)] at houts
    obtain ⟨y, hy, -, hrun'⟩ := h.fluxes_run hlaws hd hparams x hpd hpd' (by rw [hnil]; rfl) houts
    rw [List.append_nil] at hrun'
    refine ⟨y, hy, bind_eq_ok.2 ⟨_, hrun', ?_⟩⟩
    rw [hnil]
    rfl
  · rename_i hsome
    rw [if_neg hsome, hq', ok_bind]
    rw [hq, ok_bind] at hrun
    obtain ⟨f, hf, hrun⟩ := bind_eq_ok.1 hrun
    obtain ⟨path, hpath, hrun⟩ := bind_eq_ok.1 hrun
    obtain ⟨outs, houts, hrun⟩ := bind_eq_ok.1 hrun
    obtain rfl := Except.ok.inj hrun
    obtain ⟨f', hf'⟩ := Forcing.make_exists_iff.1 ⟨f, hf⟩
    have hpath' := advance_extendedBy (h.rate_extendedBy hlaws hd hparams x hqd hqd' hf hf') _ _ _
      path hpath
    obtain ⟨y, hy, hstates, hrun'⟩ := h.fluxes_run hlaws hd hparams x hpd hpd'
      ((length_stateRows path.columns).trans hinit) houts
    refine ⟨y, hy, bind_eq_ok.2 ⟨f', hf', bind_eq_ok.2 ⟨path, hpath', bind_eq_ok.2
      ⟨_, hrun', ?_⟩⟩⟩⟩
    rw [pure_eq_ok, List.map_append, ← h.states, ← hstates]

end Rearranges

end Bucket

end Catchment
