import Catchment.Proofs.ServedPrograms

/-!
# Nodewise runs

A fixed-step run of a bucket of formulas over several nodes returns at every node what the run over
that node alone returns, and it fails only if one of these does.
-/
namespace Catchment

variable {K : Type} [Scalar K] {l m n t : Nat}

/-- The settings of a run over one node, which has no classes. -/
def Settings.withoutClasses {K : Type} (s : Settings K) : Settings K :=
  { s with paramIndex := none, stateIndex := none }

def RunData.atNode (d : RunData n t K) (i : Fin n) : RunData 1 t K where
  times := d.times
  times_length := d.times_length
  params := d.params.map fun p => (p.1, p.2.pick (.atNode i))
  weights := d.weights
  initial := d.initial.map (Grid.pick (.atNode i))
  settings := d.settings.withoutClasses

/-- The outcome of one of the nodes. -/
def Outcome.atNode {K : Type} (o : Outcome n t K) (i : Fin n) : Outcome 1 t K :=
  ⟨o.rows.map (Grid.pick (.alongNode i)), o.warnings⟩

variable {d : RunData n t K}

omit [Scalar K] in
theorem RunData.nodeScope_atNode (i : Fin n) (k : Fin 1) :
    nodeScope (d.atNode i).params k = nodeScope d.params i := by
  funext v
  simp only [nodeScope, atNode, lookup_map_snd, Option.map_map]
  congr 1
  funext g
  simp [Index.atNode]

theorem Index.atNode_surjective (k : Index [n]) : ∃ i j, atNode i j = k :=
  ⟨k.head, .node 0, rfl⟩

theorem Index.alongNode_surjective (k : Index [n, t]) : ∃ i j, alongNode i j = k :=
  ⟨k.head, .nodeTime 0 k.tail.head, rfl⟩

namespace RunData.Serves

variable {p : Program K} (h : d.Serves p)

include h

theorem run_atNode (rows : List (Grid [n] K)) (weights : Weights K) :
    Agree (fun outs o => ∀ i, o i = outs.map (Grid.pick (.atNode i)))
      (p.run rows d.nodeBindings weights) fun i =>
      p.run (rows.map (Grid.pick (.atNode i))) (d.atNode i).nodeBindings weights := by
  refine Program.run_pick Index.atNode_surjective (.node 0) h.formulas h.distinct
    d.nodeBindings_hold (fun i => ?_) (fun k hk j => h.params k hk j.head) rows weights
  have h := (d.atNode i).nodeBindings_hold
  simp only [nodeScope_atNode] at h
  exact h

theorem run_alongNode (ht : 0 < t) (rows : List (Grid [n, t] K)) (weights : Weights K) :
    Agree (fun outs o => ∀ i, o i = outs.map (Grid.pick (.alongNode i)))
      (p.run rows d.timeBindings weights) fun i =>
      p.run (rows.map (Grid.pick (.alongNode i))) (d.atNode i).timeBindings weights := by
  refine Program.run_pick Index.alongNode_surjective (.nodeTime 0 ⟨0, ht⟩) h.formulas h.distinct
    d.timeBindings_hold (fun i => ?_) (fun k hk j => h.params k hk j.head) rows weights
  have h := (d.atNode i).timeBindings_hold
  simp only [nodeScope_atNode] at h
  exact h

end RunData.Serves

theorem Grid.pick_pick {α : Type} {s u w : Shape} (φ : Index u → Index s) (ψ : Index w → Index u)
    (g : Grid s α) : (g.pick φ).pick ψ = g.pick (φ ∘ ψ) :=
  ext_get fun i => by simp

theorem Grid.rows_injective {α : Type} {s : Shape} {g h : Grid (m :: s) α} (hrows : g.rows = h.rows) :
    g = h := by
  refine ext_get fun i => ?_
  have hrow := congrFun (List.ofFn_injective hrows) i.head
  have hget := congrArg (·.get i.tail) hrow
  simp only [get_row] at hget
  exact hget

omit [Scalar K] in
/-- The column at a time holds what every row holds there. -/
theorem rows_timeColumns (rows : List (Grid [n, t] K)) (j : Fin t)
    (hj : j < (timeColumns rows).length) :
    ((timeColumns rows)[j.val]).rows =
      rows.map (Grid.pick fun k : Index [n] => .nodeTime k.head j) := by
  refine List.ext_getElem (by simp [Grid.rows]) fun k hk hk' => Grid.ext_get fun i => ?_
  simp only [timeColumns, Grid.rows, List.getElem_ofFn, List.getElem_map, Grid.get_row,
    Grid.get_pick]
  exact Grid.get_ofFn _ _

namespace Forcing

variable {times : List K} {rows : List (Grid [n, t] K)}

/-- Columns that are read through a map of indexes have values that are read through it, since both
are sampled at the same places. -/
theorem value_of_pick {s u : Shape} {φ : Index u → Index s} {f : Forcing s K} {f' : Forcing u K}
    (htimes : f'.times = f.times) (hcolumn : ∀ k, f'.column k = (f.column k).pick φ)
    (scheme : Interpolation) (x : K) : f'.value scheme x = (f.value scheme x).pick φ := by
  have hlast : f'.last = f.last := by rw [last, last, htimes]
  have htime (k : Nat) : f'.time k = f.time k := by simp only [time, hlast, htimes]
  have hbefore : f'.placeBefore x = f.placeBefore x := by
    simp only [placeBefore, htime, htimes]
  have hafter : f'.placeAfter x = f.placeAfter x := by
    simp only [placeAfter, htime, htimes]
  cases scheme with
  | direct => rw [value, value, direct, direct, hbefore, hcolumn]
  | linear =>
    simp only [value, linear, hlast, htime, hafter, hcolumn]
    split
    · rfl
    · split
      · rfl
      · split
        · rfl
        · rw [Grid.pick_zipWith]

/-- The value of the rows of one node is what the value of all rows holds there. -/
theorem value_pick {f : Forcing [l, n] K} {f' : Forcing [m, 1] K} {i : Fin n}
    (htimes : f'.times = f.times)
    (hcolumns : ∀ k, (f'.column k).rows = (f.column k).rows.map (Grid.pick (.atNode i)))
    (scheme : Interpolation) (x : K) :
    (f'.value scheme x).rows = (f.value scheme x).rows.map (Grid.pick (.atNode i)) := by
  obtain rfl : m = l := by simpa [Grid.rows] using congrArg List.length (hcolumns 0)
  have hcolumn (k : Nat) : f'.column k = (f.column k).pick (Index.below (.atNode i)) := by
    refine Grid.rows_injective ?_
    rw [hcolumns, Grid.rows_pick_below]
  rw [← Grid.rows_pick_below, value_of_pick htimes hcolumn]

theorem make_eq_ok_iff {s : Shape} {columns : List (Grid s K)} :
    (∃ f, make times columns = .ok f) ↔
      columns.length = times.length ∧ 0 < times.length ∧ unorderedTimes times = false := by
  unfold make
  by_cases hpaired : columns.length = times.length
  · by_cases hnonempty : 0 < times.length
    · by_cases hordered : unorderedTimes times = false
      · simp [hpaired, hnonempty, hordered]
      · simp [hpaired, hnonempty, hordered, mismatched]
    · simp [hpaired, hnonempty, mismatched]
  · simp [hpaired, mismatched]

/-- The forcing of one node is accepted with that of all nodes. -/
theorem make_pick_iff (i : Fin n) :
    (∃ f, make times (timeColumns (rows.map (Grid.pick (.alongNode i)))) = .ok f) ↔
      ∃ f, make times (timeColumns rows) = .ok f := by
  simp only [make_eq_ok_iff, length_timeColumns]

theorem getElem?_column_of_make {s : Shape} {columns : List (Grid s K)} {f : Forcing s K}
    (hf : make times columns = .ok f) (k : Nat) :
    columns[min k (times.length - 1)]? = some (f.column k) := by
  obtain ⟨htimes, hcolumns⟩ := fields_of_make hf
  have hmin : min k f.last < f.columns.size := f.paired ▸ f.min_last_lt k
  have hlast : f.last = times.length - 1 := by simp [last, htimes]
  rw [column, ← hlast, ← List.getElem?_toArray, ← hcolumns]
  exact Array.getElem?_eq_getElem hmin

theorem value_pick_of_make {f : Forcing [rows.length, n] K} {i : Fin n}
    {f' : Forcing [(rows.map (Grid.pick (.alongNode i))).length, 1] K}
    (hf : make times (timeColumns rows) = .ok f)
    (hf' : make times (timeColumns (rows.map (Grid.pick (.alongNode i)))) = .ok f')
    (scheme : Interpolation) (x : K) :
    (f'.value scheme x).rows = (f.value scheme x).rows.map (Grid.pick (.atNode i)) := by
  have htimes : f'.times = f.times := (fields_of_make hf').1.trans (fields_of_make hf).1.symm
  refine value_pick htimes (fun k => ?_) scheme x
  obtain ⟨hj, hcolumn⟩ := List.getElem?_eq_some_iff.1 (getElem?_column_of_make hf k)
  obtain ⟨hj', hcolumn'⟩ := List.getElem?_eq_some_iff.1 (getElem?_column_of_make hf' k)
  have hlt : min k (times.length - 1) < t := by rwa [length_timeColumns] at hj
  have hrows := rows_timeColumns rows ⟨_, hlt⟩ hj
  have hrows' := rows_timeColumns (rows.map (Grid.pick (.alongNode i))) ⟨_, hlt⟩ hj'
  rw [← hcolumn, ← hcolumn', hrows, hrows', List.map_map, List.map_map]
  refine List.map_congr_left fun g hg => ?_
  simp only [Function.comp_apply, Grid.pick_pick]
  rfl

end Forcing

def inputsOver (scheme : Interpolation) (times : List K) (rows : List (Grid [n, t] K)) :
    Except Fault (K → List (Grid [n] K)) := do
  let f ← Forcing.make times (timeColumns rows)
  return fun x => (f.value scheme x).rows

theorem inputsOver_agree (scheme : Interpolation) (times : List K) (rows : List (Grid [n, t] K)) :
    Agree (fun f d => ∀ i, d i = fun x => (f x).map (Grid.pick (.atNode i)))
      (inputsOver scheme times rows) fun i =>
      inputsOver scheme times (rows.map (Grid.pick (.alongNode i))) := by
  unfold inputsOver
  cases hmake : Forcing.make times (timeColumns rows) with
  | ok f =>
    choose f' hf' using fun i : Fin n => (Forcing.make_pick_iff i).2 ⟨f, hmake⟩
    refine ⟨fun i x => ((f' i).value scheme x).rows, fun i => funext fun x => ?_, fun i => ?_⟩
    · exact Forcing.value_pick_of_make hmake (hf' i) scheme x
    · simp only [hf' i, ok_bind, pure_eq_ok]
  | error e =>
    rintro ⟨i⟩
    refine ⟨i, ?_⟩
    cases hpick : Forcing.make times (timeColumns (rows.map (Grid.pick (.alongNode i)))) with
    | ok f' =>
      obtain ⟨f, hf⟩ := (Forcing.make_pick_iff i).1 ⟨f', hpick⟩
      simp [hmake] at hf
    | error e' => exact ⟨e', by simp only [hpick, error_bind]⟩

theorem Grid.rows_exists {α : Type} {s : Shape} {gs : List (Grid s α)} (h : gs.length = m) :
    ∃ g : Grid (m :: s) α, g.rows = gs := by
  subst h
  exact ⟨stack gs, rows_stack gs⟩

theorem stateRows_pick (columns : List (Grid [m, n] K)) (i : Fin n) :
    stateRows m t (columns.map (Grid.pick (.below (.atNode i)))) =
      (stateRows m t columns).map (Grid.pick (.alongNode i)) := by
  refine List.ext_getElem (by simp [stateRows]) fun k hk hk' => Grid.ext_get fun j => ?_
  have hcell (w : Grid [m, n] K) (r : Fin m) :
      (w.pick (.below (.atNode i))).get (r, j.head, ()) = w.get (r, i, ()) := Grid.get_pick _ w _
  simp only [stateRows, List.getElem_ofFn, List.getElem_map, Grid.get_pick, Grid.get_ofFn,
    List.getElem?_toArray, List.getElem?_map, Option.map_map]
  exact congrArg (Option.getD · _) (Option.map_congr fun w _ => hcell w _)

omit [Scalar K] in
theorem checkedRate_eq_error {rate : Rate [m, n] K} {u : Grid [m, n] K} {time : K}
    {x : Except Fault (List (Grid [n] K))}
    (h : rate u time = do return .ofGrid (Grid.stack (← x))) {e : Fault} (hx : x = .error e) :
    checkedRate rate u time = .error e := by
  rw [checkedRate, h, hx]
  rfl

namespace Bucket

def rateUnder (q : Program K) (d : RunData n t K) (inputsAt : K → List (Grid [n] K)) :
    Rate [m, n] K := fun u time => do
  return .ofGrid (Grid.stack
    (← q.run (inputsAt time ++ u.rows) d.nodeBindings d.networkWeights))

variable {b : Bucket K} {q : Program K}

theorem checkedRate_agree (hq : d.Serves q) (hlen : q.outputs.length = m)
    (inputsAt : K → List (Grid [n] K)) (v : Grid [m, n] K) (time : K) :
    Agree (fun g o => ∀ i, o i = g.pick (.below (.atNode i)))
      (checkedRate (rateUnder q d inputsAt) v time) fun i =>
      checkedRate (rateUnder q (d.atNode i) fun x => (inputsAt x).map (Grid.pick (.atNode i)))
        (v.pick (.below (.atNode i))) time := by
  have hstep := (hq.run_atNode (inputsAt time ++ v.rows) d.networkWeights).self
  simp only [List.map_append, ← Grid.rows_pick_below] at hstep
  cases hrun : q.run (inputsAt time ++ v.rows) d.nodeBindings d.networkWeights with
  | ok outs =>
    rw [hrun] at hstep
    obtain ⟨o, ⟨-, ho⟩, hsingle⟩ := hstep
    obtain ⟨g, rfl⟩ := Grid.rows_exists ((Program.length_run hrun).trans hlen)
    have hg : checkedRate (rateUnder q d inputsAt) v time = .ok g := (checkedRate_eq_ok rfl).2 hrun
    rw [hg]
    refine ⟨fun i => g.pick (.below (.atNode i)), fun _ => rfl, fun i => ?_⟩
    exact (checkedRate_eq_ok rfl).2 ((hsingle i).trans (by rw [ho, Grid.rows_pick_below]))
  | error e =>
    rw [hrun] at hstep
    have he : checkedRate (rateUnder q d inputsAt) v time = .error e :=
      checkedRate_eq_error rfl hrun
    rw [he]
    intro hne
    obtain ⟨i, e', hsingle⟩ := hstep hne
    exact ⟨i, e', checkedRate_eq_error rfl hsingle⟩

/-- A fixed-step run in which the shapes of inputs and states do not depend on their lists. -/
theorem run_eq (hsolver : d.settings.solver ≠ .adaptive) {x : Grid [m, n] K}
    (hx : x.rows = d.initial) (rows : List (Grid [n, t] K)) :
    b.run d rows = (do
      let p ← b.fluxProgram d.settings.backend
      if b.states.isEmpty then
        return ⟨← p.run rows d.timeBindings d.networkWeights, []⟩
      let q ← b.rateProgram d.settings.backend
      let inputsAt ← inputsOver d.settings.interpolation d.times rows
      let columns ← marchExplicit d.settings.minValue (rateUnder q d inputsAt) x d.times
      let outputs ← p.run (rows ++ stateRows m t columns) d.timeBindings d.networkWeights
      return ⟨stateRows m t columns ++ outputs, []⟩) := by
  obtain rfl : d.initial.length = m := by rw [← hx, Grid.length_rows]
  obtain rfl : Grid.stack d.initial = x := Grid.rows_injective (by rw [Grid.rows_stack, hx])
  simp only [run, runStates, inputsOver, advance_eq_marchExplicit hsolver, bind_assoc, pure_bind]
  rfl

/-- The run over all nodes agrees with the runs over the single nodes. -/
theorem run_agree (hlaws : ∀ f ∈ b.fluxes, f.lawName? = none)
    (hparams : d.Supplies b.signature.params) (hsolver : d.settings.solver ≠ .adaptive) (ht : 0 < t)
    (hinit : d.initial.length = b.states.length) (rows : List (Grid [n, t] K)) :
    Agree (fun out o => ∀ i, o i = out.atNode i) (b.run d rows) fun i =>
      b.run (d.atNode i) (rows.map (Grid.pick (.alongNode i))) := by
  obtain ⟨p, hp, hflux⟩ := b.fluxProgram_exists d.settings.backend hlaws
  obtain ⟨q, hq, hrate⟩ := b.rateProgram_exists d.settings.backend hlaws
  have hfluxes := serves_fluxProgram hlaws hparams hflux
  have hrates := serves_rateProgram hlaws hparams hrate
  have hlen : q.outputs.length = b.states.length := by rw [hrate, List.length_map]
  obtain ⟨x, hx⟩ := Grid.rows_exists hinit
  have hatNode (i : Fin n) : (x.pick (.below (.atNode i))).rows = (d.atNode i).initial := by
    rw [Grid.rows_pick_below, hx]
    rfl
  have hp' (i : Fin n) : b.fluxProgram (d.atNode i).settings.backend = .ok p := hp
  have hq' (i : Fin n) : b.rateProgram (d.atNode i).settings.backend = .ok q := hq
  have hsolver' (i : Fin n) : (d.atNode i).settings.solver ≠ .adaptive := hsolver
  simp only [run_eq hsolver hx, run_eq (hsolver' _) (hatNode _), hp, hp', ok_bind]
  cases b.states.isEmpty with
  | true =>
    simp only [if_true]
    refine agree_bind (hfluxes.run_alongNode ht rows d.networkWeights)
      fun outputs o ho => agree_pure fun i => ?_
    rw [ho]
    rfl
  | false =>
    simp only [Bool.false_eq_true, if_false, hq, hq', ok_bind]
    refine agree_bind (inputsOver_agree d.settings.interpolation d.times rows) fun f o ho => ?_
    obtain rfl := funext ho
    refine agree_bind (marchExplicit_pick (checkedRate_agree hrates hlen f) d.settings.minValue x
      d.times) fun columns o ho => ?_
    obtain rfl := funext ho
    have houtputs := hfluxes.run_alongNode ht (rows ++ stateRows b.states.length t columns)
      d.networkWeights
    simp only [List.map_append, ← stateRows_pick] at houtputs
    refine agree_bind houtputs fun outputs o ho => agree_pure fun i => ?_
    rw [ho, stateRows_pick, Outcome.atNode, List.map_append]

end Bucket

end Catchment
