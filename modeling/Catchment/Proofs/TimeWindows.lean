import Catchment.Proofs.NodewiseRuns
import Catchment.Proofs.RearrangedRoutes

/-!
# Windows of time

A fixed step reads the column of its own time and the states there. So a bucket or a route that is
started inside of a run, from the states of that time and with the inputs from then on, returns the
columns of that run, up to wherever it stops.
-/
namespace Catchment

variable {K : Type} {l m n t t' o : Nat}

namespace Index

def atTime (j : Fin t) : Index [n] → Index [n, t] := fun k => .nodeTime k.head j

def window (h : o + t' ≤ t) : Index [n, t'] → Index [n, t] :=
  fun k => .nodeTime k.head ⟨o + k.tail.head, by have := k.tail.head.isLt; omega⟩

end Index

theorem Grid.pick_window_atTime {α : Type} (h : o + t' ≤ t) (g : Grid [n, t] α) {j : Nat}
    (hj : j < t') : (g.pick (.window h)).pick (.atTime ⟨j, hj⟩) =
      g.pick (.atTime ⟨o + j, by omega⟩) :=
  pick_pick _ _ g

def Outcome.window (out : Outcome n t K) (h : o + t' ≤ t) : Outcome n t' K :=
  ⟨out.rows.map (Grid.pick (.window h)), out.warnings⟩

variable [Scalar K]

/-- Rows of states at a time are the states of that time. -/
theorem stateRows_atTime {columns : List (Grid [m, n] K)} (j : Fin t) (hj : j < columns.length) :
    (stateRows m t columns).map (Grid.pick (.atTime j)) = columns[j.val].rows := by
  refine List.ext_getElem (by simp [length_stateRows, Grid.length_rows]) fun k hk hk' =>
    Grid.ext_get fun i => ?_
  simp only [stateRows, Grid.rows, List.getElem_map, List.getElem_ofFn, Grid.get_pick,
    List.getElem?_toArray, Grid.get_row]
  refine (Grid.get_ofFn _ _).trans ?_
  show ((columns[j.val]?).map _).getD _ = _
  rw [List.getElem?_eq_getElem hj]
  rfl

theorem stateRows_window (h : o + t' ≤ t) (i₀ : Index [n, t']) {columns : List (Grid [m, n] K)}
    (hlen : columns.length = t) : stateRows m t' ((columns.drop o).take t') =
      (stateRows m t columns).map (Grid.pick (.window h)) := by
  refine Grid.list_ext_get i₀ fun i => ?_
  have hi := i.tail.head.isLt
  have hlt : o + i.tail.head.val < columns.length := by omega
  have hat := columnAt_stateRows columns i.head ⟨o + i.tail.head, hlen ▸ hlt⟩ hlt
  have hat' := columnAt_stateRows ((columns.drop o).take t') i.head i.tail.head
    (by rw [List.length_take, List.length_drop]; omega)
  rw [Grid.map_get_pick]
  refine hat'.trans (Eq.trans ?_ hat.symm)
  rw [List.getElem_take, List.getElem_drop]

theorem gatherRows_window (feeders : Fin n → List (Fin n)) (h : o + t' ≤ t) (q : Grid [n, t] K) :
    gatherRows feeders (q.pick (.window h)) = (gatherRows feeders q).pick (.window h) := by
  refine Grid.ext_get fun i => ?_
  rw [Grid.get_pick]
  refine (get_gatherRows feeders _ i.head i.tail).trans
    (Eq.trans ?_ (get_gatherRows feeders q (Index.window h i).head (Index.window h i).tail).symm)
  simp only [Grid.get_pick]
  rfl

theorem StrictTimes.window {times : List K} (h : StrictTimes times) (o t' : Nat) :
    StrictTimes ((times.drop o).take t') where
  finite x hx := h.finite x (List.mem_of_mem_drop (List.mem_of_mem_take hx))
  increasing := h.increasing.sublist ((List.take_sublist _ _).trans (List.drop_sublist _ _))

/-- States that march along a window march as they do inside of a march, if the rate is the same at
every time of the window but the last. -/
theorem Marches.window {s : Shape} {minValue : Option K} {rate rate' : Rate s K} {u v : Grid s K}
    {times : List K} {columns : List (Grid s K)} (h : Marches minValue rate u times columns)
    (ht' : 0 < t') (hv : columns[o]? = some v)
    (hrate : ∀ j time, j + 1 < t' → times[o + j]? = some time →
      ∀ w, rate' w time = rate w time) :
    Marches minValue rate' v ((times.drop o).take t') ((columns.drop o).take t') where
  length := by simp only [List.length_take, List.length_drop, h.length]
  head w hw := by
    rw [List.head?_eq_getElem?, List.getElem?_take_of_lt ht', List.getElem?_drop, Nat.add_zero,
      hv] at hw
    exact (Option.some.inj hw).symm
  step j w w' time hw hw' htime := by
    have hj : j + 1 < t' := by
      obtain ⟨hlt, -⟩ := List.getElem?_eq_some_iff.1 hw'
      rw [List.length_take] at hlt
      omega
    rw [List.getElem?_take_of_lt (by omega), List.getElem?_drop] at hw htime
    rw [List.getElem?_take_of_lt hj, List.getElem?_drop] at hw'
    have hstep := h.step (o + j) w w' time hw hw' htime
    rw [advanceOnce, checkedRate] at hstep ⊢
    rw [hrate j time hj htime w]
    exact hstep

/-- Inside of a window the inputs are sampled as they are without it. -/
theorem inputsOver_window [OrderedScalar K] {scheme : Interpolation} {times : List K}
    (hstrict : StrictTimes times) (htimes : times.length = t) (h : o + t' ≤ t) (ht' : 0 < t')
    {rows : List (Grid [n, t] K)} {f : K → List (Grid [n] K)}
    (hf : inputsOver scheme times rows = .ok f) : ∃ f',
      inputsOver scheme ((times.drop o).take t') (rows.map (Grid.pick (.window h))) = .ok f' ∧
        ∀ j time, j + 1 < t' → times[o + j]? = some time → f' time = f time := by
  obtain ⟨g, hg, hf⟩ := bind_eq_ok.1 hf
  obtain rfl := Except.ok.inj hf
  have hlen : ((times.drop o).take t').length = t' := by
    rw [List.length_take, List.length_drop]
    omega
  obtain ⟨g', hg', -⟩ := Forcing.make_eq_ok (hstrict.window o t')
    ((length_timeColumns (rows.map (Grid.pick (.window h)))).trans hlen.symm) (by omega)
  refine ⟨_, bind_eq_ok.2 ⟨g', hg', rfl⟩, fun j time hj htime => ?_⟩
  have hc : o + j < (timeColumns rows).length := by rw [length_timeColumns]; omega
  have hc' : j < (timeColumns (rows.map (Grid.pick (.window h)))).length := by
    rw [length_timeColumns]
    omega
  have htime' : ((times.drop o).take t')[j]? = some time := by
    rw [List.getElem?_take_of_lt (by omega), List.getElem?_drop, htime]
  dsimp only
  rw [Forcing.value_of_make hg hstrict scheme htime (by omega) hc,
    Forcing.value_of_make hg' (hstrict.window o t') scheme htime' (by omega) hc']
  have hrows := rows_timeColumns rows ⟨o + j, by omega⟩ hc
  have hrows' := rows_timeColumns (rows.map (Grid.pick (.window h))) ⟨j, by omega⟩ hc'
  refine hrows'.trans (Eq.trans ?_ hrows.symm)
  rw [List.map_map]
  exact List.map_congr_left fun g hg => g.pick_window_atTime h (by omega)

structure Settings.SameSteps (s s' : Settings K) : Prop where
  solver : s'.solver = s.solver
  interpolation : s'.interpolation = s.interpolation
  minValue : s'.minValue = s.minValue
  backend : s'.backend = s.backend

def RunData.over (d : RunData n t K) (h : o + t' ≤ t) (s : Settings K)
    (initial : List (Grid [n] K)) : RunData n t' K where
  times := (d.times.drop o).take t'
  times_length := by
    rw [List.length_take, List.length_drop, d.times_length]
    omega
  params := d.params
  weights := d.weights
  initial := initial
  settings := s

variable {d : RunData n t K} {s : Settings K} {initial : List (Grid [n] K)}

/-- A program over rows of a window returns the window of what it returns without it. -/
theorem RunData.Serves.run_window {p : Program K} (hserves : d.Serves p) {d' : RunData n t' K}
    (hd : d'.params = d.params) (h : o + t' ≤ t) (hn : 0 < n) (ht' : 0 < t')
    {rows outs : List (Grid [n, t] K)} {weights : Weights K}
    (hrun : p.run rows d.timeBindings weights = .ok outs) (weights' : Weights K) :
    p.run (rows.map (Grid.pick (.window h))) d'.timeBindings weights' =
      .ok (outs.map (Grid.pick (.window h))) := by
  have hserves' : d'.Serves p := ⟨hserves.formulas, hserves.distinct, by
    rw [Supplies, hd]
    exact hserves.params⟩
  refine hserves'.run_times hn ht' fun i j => ?_
  rw [columnAt, columnAt, Grid.map_get_pick, Grid.map_get_pick, hd]
  exact hserves.evalAt_times hrun i _

namespace Bucket

variable {b : Bucket K}

/-- A bucket that is started inside of a run from the states of that time returns a window of what
the run returns. -/
theorem run_window [OrderedScalar K] (hlaws : ∀ f ∈ b.fluxes, f.lawName? = none)
    (hparams : d.Supplies b.signature.params)
    (hinit : d.initial.length = b.states.length) (hsolver : d.settings.solver ≠ .adaptive)
    (hstrict : StrictTimes d.times) (hs : d.settings.SameSteps s) (h : o + t' ≤ t)
    (i₀ : Index [n, t']) {rows : List (Grid [n, t] K)} {out : Outcome n t K}
    (hrun : b.run d rows = .ok out) (ho : o < t)
    (hinitial : initial = (out.rows.take b.states.length).map (Grid.pick (.atTime ⟨o, ho⟩))) :
    b.run (d.over h s initial) (rows.map (Grid.pick (.window h))) = .ok (out.window h) := by
  have hn : 0 < n := Nat.zero_lt_of_lt i₀.head.isLt
  have ht' : 0 < t' := Nat.zero_lt_of_lt i₀.tail.head.isLt
  obtain ⟨p, hp, hflux⟩ := b.fluxProgram_exists d.settings.backend hlaws
  obtain ⟨q, hq, hrate⟩ := b.rateProgram_exists d.settings.backend hlaws
  obtain ⟨x, hx⟩ := Grid.rows_exists hinit
  have hwindow {rows outs : List (Grid [n, t] K)}
      (hrun : p.run rows d.timeBindings d.networkWeights = .ok outs) :=
    (serves_fluxProgram hlaws hparams hflux).run_window
      (rfl : (d.over h s initial).params = d.params) h hn ht' hrun d.networkWeights
  rw [run_eq hsolver hx, hp, ok_bind] at hrun
  have hsolver' : (d.over h s initial).settings.solver ≠ .adaptive := hs.solver ▸ hsolver
  have hp' : b.fluxProgram (d.over h s initial).settings.backend = .ok p := hs.backend ▸ hp
  have hq' : b.rateProgram (d.over h s initial).settings.backend = .ok q := hs.backend ▸ hq
  split at hrun
  · rename_i hempty
    obtain ⟨outs, houts, hrun⟩ := bind_eq_ok.1 hrun
    obtain rfl := Except.ok.inj hrun
    rw [run, hp', ok_bind, if_pos hempty]
    exact bind_eq_ok.2 ⟨_, hwindow houts, rfl⟩
  · rename_i hsome
    rw [hq, ok_bind] at hrun
    obtain ⟨f, hf, hrun⟩ := bind_eq_ok.1 hrun
    obtain ⟨columns, hcolumns, hrun⟩ := bind_eq_ok.1 hrun
    obtain ⟨outs, houts, hrun⟩ := bind_eq_ok.1 hrun
    obtain rfl := Except.ok.inj hrun
    have hmarch := marchExplicit_eq_ok.1 hcolumns
    have hlen : columns.length = t := hmarch.length.trans d.times_length
    have hstart : columns[o].rows = initial := by
      rw [hinitial, ← stateRows_atTime ⟨o, ho⟩ (hlen ▸ ho)]
      rw [List.take_left' (length_stateRows columns)]
    obtain ⟨f', hf', heq⟩ := inputsOver_window hstrict d.times_length h ht' hf
    have hmarch' : Marches d.settings.minValue (rateUnder q (d.over h s initial) f') columns[o]
        ((d.times.drop o).take t') ((columns.drop o).take t') :=
      hmarch.window ht' (List.getElem?_eq_getElem (hlen ▸ ho)) fun j time hj htime w => by
        rw [rateUnder, heq j time hj htime]
        rfl
    have houts' := hwindow houts
    rw [List.map_append, ← stateRows_window h i₀ hlen] at houts'
    rw [run_eq hsolver' hstart, hp', ok_bind, if_neg hsome, hq', ok_bind, Outcome.window,
      List.map_append, ← stateRows_window h i₀ hlen]
    exact bind_eq_ok.2 ⟨f', hs.interpolation ▸ hf', bind_eq_ok.2
      ⟨_, hs.minValue ▸ marchExplicit_eq_ok.2 hmarch', bind_eq_ok.2 ⟨_, houts', rfl⟩⟩⟩

end Bucket

namespace Route

variable {r : Route K} {p q : Program K} {feeders : Fin n → List (Fin n)}

def rateUnder (r : Route K) (p q : Program K) (feeders : Fin n → List (Fin n)) (d : RunData n t K)
    (inputsAt : K → List (Grid [n] K)) : Rate [m, n] K := fun u time => do
  let known := inputsAt time ++ u.rows
  let fluxes ← p.run known d.nodeBindings d.networkWeights
  let inflow ← r.inflowOf feeders fluxes
  return .ofGrid (Grid.stack
    (← q.run (known ++ fluxes ++ [inflow]) d.nodeBindings d.networkWeights))

/-- A fixed-step run in which the shapes of inputs and states do not depend on their lists. -/
theorem run_eq (hsize : r.topology.size = n) (hsolver : d.settings.solver ≠ .adaptive)
    {x : Grid [m, n] K} (hx : x.rows = d.initial) (rows : List (Grid [n, t] K)) :
    r.run d rows = (do
      let p ← r.fluxProgram d.settings.backend
      let q ← r.rateProgram d.settings.backend
      let inputsAt ← inputsOver d.settings.interpolation d.times rows
      let columns ← marchExplicit d.settings.minValue
        (r.rateUnder p q (r.topology.feedersAt hsize) d inputsAt) x d.times
      let outputs ← p.run (rows ++ stateRows m t columns) d.timeBindings d.networkWeights
      let inflow ← r.inflowOf (r.topology.feedersAt hsize) outputs
      return ⟨stateRows m t columns ++ outputs ++ [inflow], []⟩) := by
  obtain rfl : d.initial.length = m := by rw [← hx, Grid.length_rows]
  obtain rfl : Grid.stack d.initial = x := Grid.rows_injective (by rw [Grid.rows_stack, hx])
  simp only [run, runStates, dif_pos hsize, inputsOver, advance_eq_marchExplicit hsolver, bind_assoc,
    pure_bind]
  rfl

theorem inflowOf_window (h : o + t' ≤ t) {rows : List (Grid [n, t] K)} {inflow : Grid [n, t] K}
    (hinflow : r.inflowOf feeders rows = .ok inflow) :
    r.inflowOf feeders (rows.map (Grid.pick (.window h))) = .ok (inflow.pick (.window h)) := by
  obtain ⟨outflow, houtflow, rfl⟩ := inflowOf_eq_ok.1 hinflow
  have hzip : r.fluxOutputs.zip (rows.map (Grid.pick (.window h))) =
      (r.fluxOutputs.zip rows).map fun p => (p.1, p.2.pick (.window h)) := List.zip_map_right ..
  refine inflowOf_eq_ok.2 ⟨_, ?_, gatherRows_window feeders h outflow⟩
  rw [hzip, lookup_map_snd, houtflow]
  rfl

/-- A route that is started inside of a run from the states of that time returns a window of what
the run returns. -/
theorem run_window [OrderedScalar K] (hlaws : ∀ f ∈ r.fluxes, f.lawName? = none)
    (hparams : d.Supplies r.signature.params)
    (hinit : d.initial.length = r.states.length) (hsolver : d.settings.solver ≠ .adaptive)
    (hstrict : StrictTimes d.times) (hs : d.settings.SameSteps s) (h : o + t' ≤ t)
    (i₀ : Index [n, t']) {rows : List (Grid [n, t] K)} {out : Outcome n t K}
    (hrun : r.run d rows = .ok out) (ho : o < t)
    (hinitial : initial = (out.rows.take r.states.length).map (Grid.pick (.atTime ⟨o, ho⟩))) :
    r.run (d.over h s initial) (rows.map (Grid.pick (.window h))) = .ok (out.window h) := by
  have hn : 0 < n := Nat.zero_lt_of_lt i₀.head.isLt
  have ht' : 0 < t' := Nat.zero_lt_of_lt i₀.tail.head.isLt
  obtain ⟨hsize, -⟩ := run_eq_ok.1 hrun
  obtain ⟨x, hx⟩ := Grid.rows_exists hinit
  rw [run_eq hsize hsolver hx] at hrun
  obtain ⟨p, hp, hrun⟩ := bind_eq_ok.1 hrun
  obtain ⟨q, hq, hrun⟩ := bind_eq_ok.1 hrun
  obtain ⟨f, hf, hrun⟩ := bind_eq_ok.1 hrun
  obtain ⟨columns, hcolumns, hrun⟩ := bind_eq_ok.1 hrun
  obtain ⟨outs, houts, hrun⟩ := bind_eq_ok.1 hrun
  obtain ⟨inflow, hinflow, hrun⟩ := bind_eq_ok.1 hrun
  obtain rfl := Except.ok.inj hrun
  have hflux := Program.draft_of_compile hp
  have hmarch := marchExplicit_eq_ok.1 hcolumns
  have hlen : columns.length = t := hmarch.length.trans d.times_length
  have hstart : columns[o].rows = initial := by
    rw [hinitial, ← stateRows_atTime ⟨o, ho⟩ (hlen ▸ ho)]
    rw [List.append_assoc, List.take_left' (length_stateRows columns)]
  obtain ⟨f', hf', heq⟩ := inputsOver_window hstrict d.times_length h ht' hf
  have hmarch' : Marches d.settings.minValue
      (r.rateUnder p q (r.topology.feedersAt hsize) (d.over h s initial) f') columns[o]
      ((d.times.drop o).take t') ((columns.drop o).take t') :=
    hmarch.window ht' (List.getElem?_eq_getElem (hlen ▸ ho)) fun j time hj htime w => by
      rw [rateUnder, heq j time hj htime]
      rfl
  have houts' := (serves_fluxProgram hlaws hparams hflux).run_window
    (rfl : (d.over h s initial).params = d.params) h hn ht' houts d.networkWeights
  rw [List.map_append, ← stateRows_window h i₀ hlen] at houts'
  have hsolver' : (d.over h s initial).settings.solver ≠ .adaptive := hs.solver ▸ hsolver
  rw [run_eq hsize hsolver' hstart, Outcome.window, List.map_append, List.map_append,
    ← stateRows_window h i₀ hlen]
  exact bind_eq_ok.2 ⟨p, hs.backend ▸ hp, bind_eq_ok.2 ⟨q, hs.backend ▸ hq, bind_eq_ok.2
    ⟨f', hs.interpolation ▸ hf', bind_eq_ok.2 ⟨_, hs.minValue ▸ marchExplicit_eq_ok.2 hmarch',
      bind_eq_ok.2 ⟨_, houts', bind_eq_ok.2 ⟨_, inflowOf_window h hinflow, rfl⟩⟩⟩⟩⟩⟩

end Route

end Catchment
