import Catchment.Proofs.CellwisePrograms
import Catchment.Proofs.FixedSteps
import Catchment.Proofs.SampleTimes

/-!
# Steps node by node

Rows over nodes are a list of numbers at every node. A fixed step of all rows steps the numbers of
every node, and a trajectory of all rows is a recurrence at every node.
-/
namespace Catchment

variable {K : Type}

theorem Grid.rows_stack {α : Type} {s : Shape} (gs : List (Grid s α)) :
    (Grid.stack gs).rows = gs := by
  refine List.ext_getElem (by simp [rows]) fun k hk hk' => ?_
  simp only [rows, List.getElem_ofFn]
  refine ext_get fun i => ?_
  rw [get_row]
  exact get_ofRows (fun k => gs[k]) _ i

theorem Tensor.asShape?_stack {α : Type} {s : Shape} {m : Nat} {gs : List (Grid s α)}
    {g : Grid (m :: s) α} :
    (Tensor.ofGrid (Grid.stack gs)).asShape? (m :: s) = some g ↔ gs = g.rows := by
  unfold asShape?
  constructor
  · intro h
    split at h
    · rename_i hs
      obtain rfl : gs.length = m := (List.cons.inj hs).1
      obtain rfl := Option.some.inj h
      exact (Grid.rows_stack gs).symm
    · simp at h
  · intro h
    obtain rfl : gs.length = m := by rw [h]; simp [Grid.rows]
    refine (dif_pos (rfl : gs.length :: s = gs.length :: s)).trans (congrArg some ?_)
    refine Grid.ext_get fun i => ?_
    have hk := congrArg (·[i.head]?) h
    simp only [Grid.rows, List.getElem?_ofFn, Fin.is_lt, dif_pos, Fin.getElem?_fin,
      List.getElem?_eq_getElem, Option.some.injEq] at hk
    show (Grid.ofRows fun k => gs[k]).get (i.head, i.tail) = g.get (i.head, i.tail)
    rw [Grid.get_ofRows, ← Grid.get_row, ← hk]
    rfl

def Grid.nodeColumn {m n : Nat} (u : Grid [m, n] K) (i : Fin n) : List K :=
  u.rows.map (·.get (.node i))

/-- The numbers of rows at a node and a time. -/
def columnAt {n t : Nat} (rows : List (Grid [n, t] K)) (i : Fin n) (j : Fin t) : List K :=
  rows.map (·.get (.nodeTime i j))

variable {m n t : Nat}

theorem Grid.length_rows {s : Shape} (u : Grid (m :: s) K) : u.rows.length = m := by simp [rows]

theorem Grid.nodeColumn_eq_ofFn (u : Grid [m, n] K) (i : Fin n) :
    u.nodeColumn i = List.ofFn fun k => u.get (.cons k (.node i)) := by
  rw [nodeColumn, rows, List.map_ofFn]
  congr 1
  funext k
  exact get_row u k (.node i)

theorem Grid.ext_nodeColumn {u w : Grid [m, n] K} (h : ∀ i, u.nodeColumn i = w.nodeColumn i) :
    u = w := by
  refine ext_get fun i => ?_
  have hi := h i.tail.head
  rw [nodeColumn_eq_ofFn, nodeColumn_eq_ofFn, List.ofFn_inj] at hi
  exact congrFun hi i.head

theorem Grid.exists_nodeColumn {xs : Fin n → List K} (h : ∀ i, (xs i).length = m) :
    ∃ u : Grid [m, n] K, ∀ i, u.nodeColumn i = xs i := by
  refine ⟨Grid.ofFn fun i : Index [m, n] =>
    (xs i.tail.head).get (i.head.cast (h _).symm), fun i => ?_⟩
  rw [nodeColumn_eq_ofFn]
  refine List.ext_getElem (by simp [h]) fun k hk hk' => ?_
  rw [List.getElem_ofFn, get_ofFn]
  rfl

theorem length_timeColumns (rows : List (Grid [n, t] K)) : (timeColumns rows).length = t := by
  simp [timeColumns]

theorem nodeColumn_timeColumns (rows : List (Grid [n, t] K)) (i : Fin n) (j : Fin t)
    (hj : j < (timeColumns rows).length) :
    ((timeColumns rows)[j.val]).nodeColumn i = columnAt rows i j := by
  rw [Grid.nodeColumn_eq_ofFn, columnAt]
  refine List.ext_getElem (by simp) fun k hk hk' => ?_
  simp only [timeColumns, List.getElem_ofFn, List.getElem_map, Grid.get_ofFn]
  rfl

theorem map_rows_append {l : Nat} (v : Grid [l, n] K) (u : Grid [m, n] K) (i : Fin n) :
    (v.rows ++ u.rows).map (·.get (.node i)) = v.nodeColumn i ++ u.nodeColumn i :=
  List.map_append

theorem checkedRate_eq_ok {rate : Rate [m, n] K} {u : Grid [m, n] K} {time : K}
    {x : Except Fault (List (Grid [n] K))}
    (h : rate u time = do return .ofGrid (Grid.stack (← x))) {g : Grid [m, n] K} :
    checkedRate rate u time = .ok g ↔ x = .ok g.rows := by
  rw [checkedRate, h]
  cases x with
  | error e => simp
  | ok gs =>
    simp only [ok_bind, pure_eq_ok, Except.ok.injEq, ← Tensor.asShape?_stack]
    cases (Tensor.ofGrid (Grid.stack gs)).asShape? [m, n] with
    | none => simp [mismatched]
    | some v => simp

variable [Scalar K] {minValue : Option K} {rate : Rate [m, n] K} {u w : Grid [m, n] K} {time : K}

def raiseTo (minValue : Option K) (x : K) : K :=
  match minValue with
  | none => x
  | some m => Scalar.maximum x m

theorem get_raise {s : Shape} (minValue : Option K) (u : Grid s K) (i : Index s) :
    (raise minValue u).get i = raiseTo minValue (u.get i) := by
  cases minValue with
  | none => rfl
  | some m => exact Grid.get_map _ u i

def addRates (minValue : Option K) (xs rates : List K) : List K :=
  List.zipWith (fun x r => raiseTo minValue (x + r)) xs rates

theorem nodeColumn_raise (u g : Grid [m, n] K) (i : Fin n) :
    (raise minValue (u.zipWith (· + ·) g)).nodeColumn i =
      addRates minValue (u.nodeColumn i) (g.nodeColumn i) := by
  simp only [addRates, Grid.nodeColumn_eq_ofFn]
  refine List.ext_getElem (by simp) fun k hk hk' => ?_
  simp [get_raise]

theorem advanceOnce_eq_ok :
    advanceOnce minValue rate u time = .ok w ↔
      ∃ g, checkedRate rate u time = .ok g ∧ raise minValue (u.zipWith (· + ·) g) = w := by
  rw [advanceOnce, bind_eq_ok]
  simp

/-- A step of all rows steps the numbers of every node. -/
theorem advanceOnce_nodes (ratesAt : Fin n → Except Fault (List K))
    (h : ∀ g, checkedRate rate u time = .ok g → ∀ i, ratesAt i = .ok (g.nodeColumn i))
    (hw : advanceOnce minValue rate u time = .ok w) (i : Fin n) :
    (do return addRates minValue (u.nodeColumn i) (← ratesAt i)) = Except.ok (w.nodeColumn i) := by
  obtain ⟨g, hg, rfl⟩ := advanceOnce_eq_ok.1 hw
  simp [h g hg i, nodeColumn_raise]

/-- Steps of the numbers of every node are a step of all rows. -/
theorem advanceOnce_of_nodes {ratesAt : Fin n → Except Fault (List K)}
    (h : ∀ g, (∀ i, ratesAt i = .ok (g.nodeColumn i)) → checkedRate rate u time = .ok g)
    (hlen : ∀ i xs, ratesAt i = .ok xs → xs.length = m)
    (hw : ∀ i, (do return addRates minValue (u.nodeColumn i) (← ratesAt i)) =
      Except.ok (w.nodeColumn i)) : advanceOnce minValue rate u time = .ok w := by
  have hrates (i : Fin n) : ∃ xs, ratesAt i = .ok xs ∧
      addRates minValue (u.nodeColumn i) xs = w.nodeColumn i := by
    obtain ⟨xs, hxs, h⟩ := bind_eq_ok.1 (hw i)
    exact ⟨xs, hxs, Except.ok.inj h⟩
  choose xs hxs hadd using hrates
  obtain ⟨g, hg⟩ := Grid.exists_nodeColumn fun i => hlen i (xs i) (hxs i)
  refine advanceOnce_eq_ok.2 ⟨g, h g fun i => by rw [hxs, hg], Grid.ext_nodeColumn fun i => ?_⟩
  rw [nodeColumn_raise, hg, hadd]

section

variable {p : Program K} {d : RunData n t K} {weights : Weights K}

theorem Program.length_run {s : Shape} {params : Bindings K} {rows outs : List (Grid s K)}
    (h : p.run rows params weights = .ok outs) : outs.length = p.outputs.length := by
  unfold run at h
  split at h
  · obtain ⟨env, -, h⟩ := bind_eq_ok.1 h
    exact (mapM_eq_ok.1 h).length_eq.symm
  · unfold runSymbolic at h
    split at h
    · rw [← Except.ok.inj h, List.length_map]
    · obtain ⟨ps, -, h⟩ := bind_eq_ok.1 h
      rw [← Except.ok.inj h, List.length_map, List.length_range]

theorem Program.run_times (hb : p.backend = .elementwise) (hp : p.ByFormulas)
    (hn : p.inputs.Nodup) {rows outs : List (Grid [n, t] K)}
    (h : p.run rows d.timeBindings weights = .ok outs) (i : Fin n) (j : Fin t) :
    evalOutputs (nodeScope d.params i) p.formulas p.outputs (scopeOf p.inputs (columnAt rows i j)) =
      .ok (columnAt outs i j) := by
  rw [run, hb] at h
  exact runElementwise_ok hp hn d.timeBindings_hold h (.nodeTime i j)

theorem Program.run_of_times (hb : p.backend = .elementwise) (hp : p.ByFormulas)
    (hn : p.inputs.Nodup) (hnode : 0 < n) (htime : 0 < t) {rows outs : List (Grid [n, t] K)}
    (h : ∀ i j, evalOutputs (nodeScope d.params i) p.formulas p.outputs
      (scopeOf p.inputs (columnAt rows i j)) = .ok (columnAt outs i j)) :
    p.run rows d.timeBindings weights = .ok outs := by
  rw [run, hb]
  exact (runElementwise_eq_ok hp hn d.timeBindings_hold (.nodeTime ⟨0, hnode⟩ ⟨0, htime⟩)).2
    fun i => h i.head i.tail.head

theorem Program.run_nodes (hb : p.backend = .elementwise) (hp : p.ByFormulas)
    (hn : p.inputs.Nodup) {rows outs : List (Grid [n] K)}
    (h : p.run rows d.nodeBindings weights = .ok outs) (i : Fin n) :
    evalOutputs (nodeScope d.params i) p.formulas p.outputs
      (scopeOf p.inputs (rows.map (·.get (.node i)))) = .ok (outs.map (·.get (.node i))) := by
  rw [run, hb] at h
  exact runElementwise_ok hp hn d.nodeBindings_hold h (.node i)

theorem Program.run_of_nodes (hb : p.backend = .elementwise) (hp : p.ByFormulas)
    (hn : p.inputs.Nodup) (hnode : 0 < n) {rows outs : List (Grid [n] K)}
    (h : ∀ i, evalOutputs (nodeScope d.params i) p.formulas p.outputs
      (scopeOf p.inputs (rows.map (·.get (.node i)))) = .ok (outs.map (·.get (.node i)))) :
    p.run rows d.nodeBindings weights = .ok outs := by
  rw [run, hb]
  exact (runElementwise_eq_ok hp hn d.nodeBindings_hold (.node ⟨0, hnode⟩)).2 fun i => h i.head

end

theorem length_stateRows (columns : List (Grid [m, n] K)) : (stateRows m t columns).length = m := by
  simp [stateRows]

theorem columnAt_stateRows (columns : List (Grid [m, n] K)) (i : Fin n) (j : Fin t)
    (hj : j < columns.length) :
    columnAt (stateRows m t columns) i j = (columns[j.val]).nodeColumn i := by
  rw [Grid.nodeColumn_eq_ofFn, columnAt]
  refine List.ext_getElem (by simp [stateRows]) fun k hk hk' => ?_
  simp only [stateRows, List.getElem_ofFn, List.getElem_map, List.getElem?_toArray]
  refine (Grid.get_ofFn _ _).trans ?_
  show ((columns[j.val]?).map _).getD _ = _
  rw [List.getElem?_eq_getElem hj]
  rfl

theorem stateRows_timeColumns (rows : List (Grid [n, t] K)) :
    stateRows rows.length t (timeColumns rows) = rows := by
  refine List.ext_getElem (length_stateRows _) fun k hk hk' => Grid.ext_get fun i => ?_
  have hcol := columnAt_stateRows (timeColumns rows) i.head i.tail.head
    (by rw [length_timeColumns]; exact i.tail.head.isLt)
  rw [nodeColumn_timeColumns] at hcol
  have hget := congrArg (·[k]?) hcol
  simp only [columnAt, List.getElem?_map, List.getElem?_eq_getElem hk,
    List.getElem?_eq_getElem hk', Option.map_some, Option.some.injEq] at hget
  exact hget

variable {times : List K} {columns : List (Grid [m, n] K)}

theorem Marches.columnAt_zero (h : Marches minValue rate u times columns) (ht : times.length = t)
    (i : Fin n) (j : Fin t) (hj : j.val = 0) :
    columnAt (stateRows m t columns) i j = u.nodeColumn i := by
  have hlt : j.val < columns.length := by rw [h.length, ht]; exact j.isLt
  rw [columnAt_stateRows columns i j hlt]
  congr 1
  refine h.head _ ?_
  rw [List.head?_eq_getElem?, ← hj, List.getElem?_eq_getElem hlt]
  rfl

/-- If a step of all rows is a step of the numbers of the nodes, so is a trajectory from each time
to the next. -/
theorem Marches.columnAt_succ (step : Fin t → (Fin n → List K) → (Fin n → List K) → Prop)
    (h : Marches minValue rate u times columns) (ht : times.length = t)
    (hstep : ∀ (j : Fin t) v w time, times[j.val]? = some time → j.val + 1 < t →
      advanceOnce minValue rate v time = .ok w → step j v.nodeColumn w.nodeColumn)
    {j j' : Fin t} (hj : j'.val = j.val + 1) :
    step j (fun i => columnAt (stateRows m t columns) i j)
      fun i => columnAt (stateRows m t columns) i j' := by
  have hlt : j.val < columns.length := by rw [h.length, ht]; exact j.isLt
  have hlt' : j'.val < columns.length := by rw [h.length, ht]; exact j'.isLt
  have hj' : j.val < times.length := by rw [ht]; exact j.isLt
  have htime : times[j.val]? = some times[j.val] := List.getElem?_eq_getElem hj'
  have hv : columns[j.val]? = some columns[j.val] := List.getElem?_eq_getElem hlt
  have hw : columns[j.val + 1]? = some columns[j'.val] := by
    rw [← hj]
    exact List.getElem?_eq_getElem hlt'
  simp only [columnAt_stateRows columns _ j hlt, columnAt_stateRows columns _ j' hlt']
  exact hstep j _ _ _ htime (hj ▸ j'.isLt) (h.step j _ _ _ hv hw htime)

/-- Rows that step from each time to the next are a trajectory. -/
theorem marches_of_nodes (minValue : Option K) (rate : Rate [m, n] K) (u : Grid [m, n] K)
    (step : Fin t → (Fin n → List K) → (Fin n → List K) → Prop) {states : List (Grid [n, t] K)}
    (hl : states.length = m) (ht : times.length = t)
    (hzero : ∀ i (j : Fin t), j.val = 0 → columnAt states i j = u.nodeColumn i)
    (hsucc : ∀ j j' : Fin t, j'.val = j.val + 1 →
      step j (fun i => columnAt states i j) fun i => columnAt states i j')
    (hstep : ∀ (j : Fin t) v w time, times[j.val]? = some time → j.val + 1 < t →
      step j v.nodeColumn w.nodeColumn → advanceOnce minValue rate v time = .ok w) :
    ∃ columns, Marches minValue rate u times columns ∧ stateRows m t columns = states := by
  subst hl
  have hget {j : Nat} {v : Grid [states.length, n] K} (hv : (timeColumns states)[j]? = some v) :
      ∃ hj : j < t, v.nodeColumn = fun i => columnAt states i ⟨j, hj⟩ := by
    obtain ⟨hj, rfl⟩ := List.getElem?_eq_some_iff.1 hv
    rw [length_timeColumns] at hj
    exact ⟨hj, funext fun i => nodeColumn_timeColumns states i ⟨j, hj⟩ _⟩
  refine ⟨timeColumns states, ⟨by rw [length_timeColumns, ht], fun v hv => ?_, ?_⟩,
    stateRows_timeColumns states⟩
  · rw [List.head?_eq_getElem?] at hv
    obtain ⟨hj, hcol⟩ := hget hv
    refine Grid.ext_nodeColumn fun i => ?_
    rw [hcol]
    exact hzero i ⟨0, hj⟩ rfl
  · intro j v w time hv hw htime
    obtain ⟨hj, hcol⟩ := hget hv
    obtain ⟨hj', hcol'⟩ := hget hw
    refine hstep ⟨j, hj⟩ v w time htime hj' ?_
    rw [hcol, hcol']
    exact hsucc ⟨j, hj⟩ ⟨j + 1, hj'⟩ rfl

/-- At a time that another follows, the forcing is what the rows hold there. -/
theorem Forcing.nodeColumn_value [OrderedScalar K] {rows : List (Grid [n, t] K)}
    {f : Forcing [rows.length, n] K} {d : RunData n t K}
    (hf : Forcing.make d.times (timeColumns rows) = .ok f) (hstrict : StrictTimes d.times)
    (scheme : Interpolation) {j : Fin t} {x : K} (hx : d.times[j.val]? = some x)
    (hj : j.val + 1 < t) (i : Fin n) : (f.value scheme x).nodeColumn i = columnAt rows i j := by
  have hc : j.val < (timeColumns rows).length := by rw [length_timeColumns]; exact j.isLt
  rw [Forcing.value_of_make hf hstrict scheme hx (by rw [d.times_length]; exact hj) hc]
  exact nodeColumn_timeColumns rows i j hc

end Catchment
