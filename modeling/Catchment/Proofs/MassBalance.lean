import Mathlib
import Catchment.Proofs.BucketModels
import Catchment.Proofs.ExactArithmetic
import Catchment.Proofs.FlowTotals
import Catchment.Proofs.NamedRoutes
import Catchment.Proofs.RearrangedRoutes
import Catchment.Proofs.RouteRuns

/-!
# Mass balance

The stores of a route gain, over a run in exact arithmetic, what flows into the network less what
flows out of it and less what its outlets give. What one node passes to another one cancels: the
inflow rows of a run are what the outflow rows give at the same time, and no flow is divided where no
node drains into two nodes. Laws have to be elementwise, since they are applied to the nodes in a step
and to all nodes and times in the end.
-/
namespace Catchment

section

variable {K : Type} [Scalar K] {z p : String → K} {backend : Backend} {names : List String}
  {e : Expr K} {x : K}

theorem Expr.evalCell_foldl {op : Binary} {f : K → K → K}
    (hop : ∀ x y, Cell.binary op (.double x) (.double y) = .ok (Cell.double (f x y)))
    (he : e.evalCell (Scope.named (fun _ => .double) z) (Scope.doubles p) = .ok (.double x)) :
    (names.foldl (fun e n => .binary op e (.var n)) e).evalCell
        (Scope.named (fun _ => .double) z) (Scope.doubles p) =
      .ok (.double (names.foldl (fun x n => f x (z n)) x)) := by
  induction names generalizing e x with
  | nil => exact he
  | cons n names ih =>
    refine ih ?_
    rw [evalCell, he, ok_bind]
    exact hop x (z n)

theorem Expr.symbolic_foldl (op : Binary) :
    (names.foldl (fun e n => .binary op e (.var n)) e).symbolic z p =
      names.foldl (fun x n => op.symbolic x (z n)) (e.symbolic z p) := by
  induction names generalizing e with
  | nil => rfl
  | cons n names ih => exact ih

end

section

attribute [local instance] ExactSums.addCommGroup

variable {K : Type} [Scalar K] [ExactSums K] {z p : String → K}

theorem foldl_add_eq (names : List String) (x : K) :
    names.foldl (fun x n => x + z n) x = x + (names.map z).sum := by
  rw [← Scalar.foldl_add_eq, List.foldl_map]

theorem foldl_sub_eq (names : List String) (x : K) :
    names.foldl (fun x n => x - z n) x = x - (names.map z).sum := by
  induction names generalizing x with
  | nil => exact (sub_zero x).symm
  | cons n names ih => rw [List.foldl_cons, ih, List.map_cons, List.sum_cons, sub_sub]

/-- The balance of some flows is the total of what flows in less the total of what flows out. -/
theorem StateFlux.valueAt_balance (backend : Backend) {inflows outflows : List String}
    (hne : inflows ≠ []) :
    (balance inflows outflows).valueAt backend (fun _ => .double) z p =
      .ok ((inflows.map z).sum - (outflows.map z).sum) := by
  cases inflows with
  | nil => exact absurd rfl hne
  | cons first rest =>
    have htotal : outflows.foldl (fun x n => x - z n) (rest.foldl (fun x n => x + z n) (z first)) =
        ((first :: rest).map z).sum - (outflows.map z).sum := by
      rw [foldl_sub_eq, foldl_add_eq, List.map_cons, List.sum_cons]
    rw [← htotal]
    cases backend with
    | elementwise =>
      refine bind_eq_ok.2 ⟨_, Expr.evalCell_foldl (f := (· - ·)) (fun _ _ => rfl)
        (Expr.evalCell_foldl (f := (· + ·)) (x := z first) (fun _ _ => rfl) rfl), rfl⟩
    | symbolic =>
      refine congrArg Except.ok ?_
      rw [balance, Expr.symbolic_foldl, Expr.symbolic_foldl]
      rfl

theorem sum_map_erase {names : List String} {v : String} (h : names.count v = 1) :
    (names.map z).sum = z v + ((names.erase v).map z).sum := by
  have hmem : v ∈ names := List.count_pos_iff.1 (by omega)
  rw [← List.sum_cons, ← List.map_cons]
  exact ((List.perm_cons_erase hmem).map z).sum_eq

end

/-- The place is that of an outlet. -/
def Topology.IsOutlet (t : Topology) (i : Nat) : Prop :=
  ∃ h : i < t.size, t.node ⟨i, h⟩ ∈ t.outlets

instance (t : Topology) (i : Nat) : Decidable (t.IsOutlet i) :=
  inferInstanceAs (Decidable (∃ h : i < t.size, t.node ⟨i, h⟩ ∈ t.outlets))

theorem Topology.isOutlet_iff {t : Topology} {n : Nat} (hsize : t.size = n) (i : Fin n) :
    t.IsOutlet i ↔ (t.downstream n i).isEmpty = true := by
  subst hsize
  rw [List.isEmpty_iff, ← t.node_mem_outlets i]
  exact ⟨fun h => h.2, fun h => ⟨i.isLt, h⟩⟩

variable {n t : Nat}

section

variable {K : Type} [Scalar K]

/-- The total of a row over all nodes at a time. -/
def totalAt (g : Grid [n, t] K) (j : Fin t) : K :=
  Scalar.total fun i : Fin n => g.get (.nodeTime i j)

/-- What flows into the network at a time, less what flows out and less what the outlets give. -/
def Route.netInflow (r : Route K) (inflows outflows : List String) (y : String → Grid [n, t] K)
    (j : Fin t) : K :=
  Scalar.sum (inflows.map fun v => totalAt (y v) j) -
    Scalar.sum (outflows.map fun v => totalAt (y v) j) -
    Scalar.total fun i : Fin n =>
      if r.topology.IsOutlet i then (y r.outflow).get (.nodeTime i j) else Scalar.zero

end

section

attribute [local instance] ExactSums.addCommGroup

variable {K : Type} [Scalar K] [ExactSums K]

theorem sum_map_totalAt (names : List String) (y : String → Grid [n, t] K) (j : Fin t) :
    Scalar.sum (names.map fun v => totalAt (y v) j) =
      ∑ i, (names.map (namedAt y i j)).sum := by
  rw [Scalar.sum_eq]
  induction names with
  | nil => simp
  | cons v names ih =>
    simp only [List.map_cons, List.sum_cons, ih, Finset.sum_add_distrib]
    rw [totalAt, Scalar.total_eq]
    rfl

/-- What a number has gained after some steps is the total of what it gains in each. -/
theorem sub_eq_total {f g : Fin t → K} (h : ∀ j j' : Fin t, j'.val = j.val + 1 → f j' = f j + g j)
    (ht : 0 < t) (j : Fin t) :
    f j - f ⟨0, ht⟩ = Scalar.total fun k : Fin j.val => g (k.castLE j.isLt.le) := by
  obtain ⟨j, hj⟩ := j
  induction j with
  | zero => exact sub_self _
  | succ j ih =>
    have hlast := ih (Nat.lt_of_succ_lt hj)
    rw [Scalar.total_eq] at hlast ⊢
    rw [Fin.sum_univ_castSucc, h ⟨j, Nat.lt_of_succ_lt hj⟩ ⟨j + 1, hj⟩ rfl, add_sub_right_comm,
      hlast]
    rfl

variable {r : Route K} {args : RunArguments K} {s : Settings K}
  {fluxesHold : Fin n → (String → K) → Prop} {y : String → Grid [n, t] K} {store : StateFlux K}
  {inflows outflows : List String}

/-- In a step a node gains its inflow and the other inflows, less its outflow and the other ones. -/
theorem Route.NamedRun.namedAt_succ (h : r.NamedRun args s fluxesHold y) (hmin : s.minValue = none)
    (hstore : store ∈ r.rates) (hexpr : store.expr = StateFlux.balance inflows outflows)
    (hin : inflows.count r.inflow = 1) (hout : outflows.count r.outflow = 1) {j j' : Fin t}
    (hj : j'.val = j.val + 1) (i : Fin n) :
    namedAt y i j' store.state = namedAt y i j store.state +
      ((namedAt y i j r.inflow + ((inflows.erase r.inflow).map (namedAt y i j)).sum) -
        (namedAt y i j r.outflow + ((outflows.erase r.outflow).map (namedAt y i j)).sum)) := by
  have hne : inflows ≠ [] := by
    rintro rfl
    exact absurd hin (by simp)
  obtain ⟨x, hx, hgain⟩ := h.gains store hstore i j j' hj
  rw [hexpr, StateFlux.valueAt_balance s.backend hne, Except.ok.injEq] at hx
  rw [← hgain, hmin, ← hx, sum_map_erase hin, sum_map_erase hout]
  rfl

/-- In a step all nodes together gain what flows into the network. -/
theorem Route.NamedRun.totalAt_succ (h : r.NamedRun args s fluxesHold y) (hmin : s.minValue = none)
    (hsize : r.topology.size = n) (htree : r.topology.Unbranched) (hstore : store ∈ r.rates)
    (hexpr : store.expr = StateFlux.balance inflows outflows) (hin : inflows.count r.inflow = 1)
    (hout : outflows.count r.outflow = 1) {j j' : Fin t} (hj : j'.val = j.val + 1) :
    totalAt (y store.state) j' = totalAt (y store.state) j +
      r.netInflow (inflows.erase r.inflow) (outflows.erase r.outflow) y j := by
  have hpassed : ∑ i, namedAt y i j r.inflow =
      ∑ i : Fin n, if r.topology.IsOutlet i then 0 else namedAt y i j r.outflow := by
    have htotal := r.topology.total_inflowSum_of_unbranched htree hsize
      fun k : Fin n => namedAt y k j r.outflow
    simp only [← h.inflow, Scalar.total_eq, ← Topology.isOutlet_iff hsize] at htotal
    exact htotal
  have hgiven : ∑ i, namedAt y i j r.outflow =
      (∑ i : Fin n, if r.topology.IsOutlet i then 0 else namedAt y i j r.outflow) +
        ∑ i : Fin n, if r.topology.IsOutlet i then namedAt y i j r.outflow else 0 := by
    rw [← Finset.sum_add_distrib]
    refine Finset.sum_congr rfl fun i _ => ?_
    split
    · exact (zero_add _).symm
    · exact (add_zero _).symm
  have htotals (k : Fin t) : totalAt (y store.state) k = ∑ i, namedAt y i k store.state :=
    Scalar.total_eq _
  have hnet : r.netInflow (inflows.erase r.inflow) (outflows.erase r.outflow) y j =
      (∑ i, ((inflows.erase r.inflow).map (namedAt y i j)).sum) -
        (∑ i, ((outflows.erase r.outflow).map (namedAt y i j)).sum) -
        ∑ i : Fin n, if r.topology.IsOutlet i then namedAt y i j r.outflow else 0 := by
    rw [Route.netInflow, sum_map_totalAt, sum_map_totalAt, Scalar.total_eq]
    rfl
  rw [htotals, htotals, hnet]
  simp only [h.namedAt_succ hmin hstore hexpr hin hout hj, Finset.sum_add_distrib,
    Finset.sum_sub_distrib]
  rw [hpassed, hgiven, add_assoc (Finset.sum ..), add_sub_add_left_eq_sub, sub_sub]
  exact congrArg (fun w => _ + (_ - w)) (add_comm ..)

end

theorem StateFlux.expr_of_ofRate {K : Type} [Scalar K] {state : Label K}
    {inflows outflows : List (Label K)} {ins outs : List String} {name : Option String}
    {store : StateFlux K} (h : ofRate state none inflows outflows name = .ok store)
    (hin : inflows.mapM Label.resolve = .ok ins) (hout : outflows.mapM Label.resolve = .ok outs) :
    store.expr = balance ins outs := by
  obtain ⟨state, -, h⟩ := bind_eq_ok.1 h
  dsimp only at h
  split at h
  · simp [misconfigured] at h
  · simp only [hin, hout, ok_bind, pure_eq_ok, ofDraft] at h
    split at h
    · rw [← Except.ok.inj h]
    · simp [misconfigured] at h

/-- Let no node of a network drain into two nodes, let every law be elementwise, so that the rows of a
run hold what flowed in its steps, and let a store of every node gain the inflow and lose the
outflow, beside other flows. From the first time of a fixed-step run without lower bound to any other
time, the total content of the stores grows by what the other flows bring in all steps between, less
what the outlets give. -/
theorem Route.run_conserves_mass {r : Route ExactReal} {state : Label ExactReal}
    {inflows outflows : List (Label ExactReal)} {ins outs : List String} {name : Option String}
    {store : StateFlux ExactReal} {input : Nested ExactReal} {args : RunArguments ExactReal}
    {s : Settings ExactReal} {result : RunResult ExactReal} (htree : r.topology.Unbranched)
    (hstore : StateFlux.ofRate state none inflows outflows name = .ok store)
    (hmem : store ∈ r.rates) (hins : inflows.mapM Label.resolve = .ok ins)
    (houts : outflows.mapM Label.resolve = .ok outs) (hin : ins.count r.inflow = 1)
    (hout : outs.count r.outflow = 1) (hfree : RatesFree r.rates)
    (hlaws : ∀ f ∈ r.fluxes, f.Elementwise args.params) (hsolver : s.solver ≠ .adaptive)
    (hmin : s.minValue = none) (hrun : (Component.route r).run input args s = .ok result) :
    ∃ (n t : Nat) (y : String → Grid [n, t] ExactReal) (single : Bool) (ht : 0 < t),
      (InputRows.named (Component.route r).signature.inputs y single).Reads input ∧
      result = .named (Component.route r).rowNames y single ∧
      ∀ j : Fin t, totalAt (y store.state) j - totalAt (y store.state) ⟨0, ht⟩ =
        Scalar.total fun k : Fin j.val =>
          r.netInflow (ins.erase r.inflow) (outs.erase r.outflow) y (k.castLE j.isLt.le) := by
  obtain ⟨given, hreads, hcount, out, hcompute, rfl⟩ := Component.run_eq_ok.1 hrun
  obtain ⟨d, hprepare, hout'⟩ := bind_eq_ok.1 hcompute
  obtain ⟨hsize, hd⟩ := Component.prepareFor_route hprepare
  obtain ⟨-, ht, hordered⟩ := accepted_of_run hsize hout'
  have hs : s.Stepwise given.times := by
    refine ⟨hsolver, fun times htimes => ?_⟩
    obtain rfl := Except.ok.inj (htimes.symm.trans (RunData.prepare_eq_ok_iff.1 hd).1)
    exact ExactArithmetic.strictTimes_of_unorderedTimes hordered
  obtain ⟨fluxesHold, y, hrows, rfl, hnamed⟩ :=
    namedRun_of_elementwise hfree hlaws hs hsize hd hcount hout'
  have hgiven : InputRows.named r.signature.inputs y given.single = given := by
    rw [InputRows.named, ← hrows]
  exact ⟨_, _, y, given.single, ht, hgiven.symm ▸ hreads, rfl, fun j => sub_eq_total
    (fun j j' hj => hnamed.totalAt_succ hmin hsize htree hmem
      (StateFlux.expr_of_ofRate hstore hins houts) hin hout hj) ht j⟩

namespace Route

def lawOf (name : String) (f : (s : Shape) → Grid s ExactReal → Grid s ExactReal) :
    Law ExactReal where
  name
  apply
    | [v] => .ok (.single (.ofGrid (f v.tensor.shape v.tensor.grid)))
    | _ => .error .operand

def emptyingDraft (law : Law ExactReal) : FluxDraft ExactReal where
  name := "emptying"
  outputs := ["q"]
  inputs := ["s"]
  params := []
  exprs := []
  law := some law

theorem emptyingDraft_accepted (law : Law ExactReal) : (emptyingDraft law).fault? = none := by rfl

noncomputable def contentDraft : StateFluxDraft ExactReal where
  name := "content"
  state := "s"
  expr := StateFlux.balance ["p", "u"] ["q"]
  inputs := ["p", "u", "q"]
  params := []

theorem contentDraft_accepted : contentDraft.fault? = none := by decide

noncomputable def content : StateFlux ExactReal := ⟨contentDraft, contentDraft_accepted⟩

/-- Two stores in a row that are filled by an input and emptied by a law. -/
noncomputable def storesUnder (law : Law ExactReal) : Route ExactReal where
  name := some "stores"
  fluxes := [.flux ⟨emptyingDraft law, emptyingDraft_accepted law⟩]
  rates := [content]
  topology := twoStores.topology
  outflow := "q"
  inflow := "u"
  sort := true
  ordered := [.flux ⟨emptyingDraft law, emptyingDraft_accepted law⟩]
  order_eq := rfl
  accepted := RouteDraft.fault?_eq_none.2 (of_decide_eq_true rfl)

theorem storesUnder_free (law : Law ExactReal) : RatesFree (storesUnder law).rates :=
  of_decide_eq_true rfl

theorem length_realTimes :
    ((List.range 2).map fun (i : Nat) => (Scalar.ofInt i : ExactReal)).length = 2 := rfl

noncomputable def onesAt : Grid [2] ExactReal := ⟨#v[Scalar.one, Scalar.one]⟩

noncomputable def storesData : RunData 2 2 ExactReal where
  times := (List.range 2).map fun (i : Nat) => Scalar.ofInt i
  times_length := length_realTimes
  params := []
  weights := []
  initial := [onesAt]
  settings := .standard

theorem storesData_strictTimes : StrictTimes storesData.times := by
  refine ExactArithmetic.strictTimes_of_unorderedTimes ?_
  show (Scalar.le (Scalar.ofInt 1 - Scalar.ofInt 0 : ExactReal) Scalar.zero || false) = false
  rw [Bool.or_false, Bool.eq_false_iff, Ne, ExactReal.le_iff]
  simp only [ExactReal.ofInt_eq, ExactReal.zero_eq]
  norm_num

noncomputable def precipitation : Grid [2, 2] ExactReal :=
  ⟨#v[Scalar.one, Scalar.one, Scalar.one, Scalar.one]⟩

section

variable {name : String} {f : (s : Shape) → Grid s ExactReal → Grid s ExactReal}
  {p q : Program ExactReal}

/-- Over rows of any shape the stores give what the law says of what they hold. -/
theorem run_storesUnder_fluxes {s : Shape} (hp : p.toProgramDraft =
      ⟨.elementwise, (storesUnder (lawOf name f)).ordered, ["p", "s"], ["q"]⟩)
    (x y : Grid s ExactReal) (params : Bindings ExactReal) (weights : Weights ExactReal) :
    p.run [x, y] params weights = .ok [f s y] := by
  obtain ⟨d, h⟩ := p
  obtain rfl : d = _ := hp
  show (do
    let v ← Values.orFault Fault.value ((Values.ofGrid (f s y)).tensor.repeat? s)
    return [v]) = _
  rw [(Values.holds_ofGrid (f s y)).repeat?]
  exact congrArg (fun g => Except.ok [g]) (Grid.ext_get fun i => Grid.get_ofFn _ i)

def storesFeeders : Fin 2 → List (Fin 2) := twoStores.topology.feedersAt rfl

def lowerNode : Fin 2 := Fin.last 1

def upperNode : Fin 2 := lowerNode.rev

noncomputable def gained (given : Grid [2] ExactReal) : Grid [1, 2] ExactReal :=
  ⟨#v[Scalar.one + Scalar.zero - given.get (.node upperNode),
    Scalar.one + (Scalar.zero + given.get (.node upperNode)) - given.get (.node lowerNode)]⟩

noncomputable def contents (given : Grid [2] ExactReal) : Grid [2, 2] ExactReal :=
  ⟨#v[Scalar.one, Scalar.one + (gained given).get (.nodeTime (Fin.last 0) upperNode),
    Scalar.one, Scalar.one + (gained given).get (.nodeTime (Fin.last 0) lowerNode)]⟩

theorem rate_storesUnder (hp : p.toProgramDraft =
      ⟨.elementwise, (storesUnder (lawOf name f)).ordered, ["p", "s"], ["q"]⟩)
    (hq : q.toProgramDraft = ⟨.elementwise, (storesUnder (lawOf name f)).rates.map .state,
      ["p", "s", "q", "u"], ["d(s)"]⟩) {g : Forcing [1, 2] ExactReal} {time : ExactReal}
    (hg : g.value .direct time = Grid.stack [onesAt]) :
    checkedRate ((storesUnder (lawOf name f)).rate p q storesFeeders g storesData)
      (Grid.stack storesData.initial) time = .ok (gained (f [2] onesAt)) := by
  refine checkedRate_iff.2 ⟨[f [2] onesAt], _, ?_, rfl, ?_⟩
  · show p.run ((g.value .direct time).rows ++ _) _ _ = _
    rw [hg]
    exact run_storesUnder_fluxes hp onesAt onesAt _ _
  · show q.run ((g.value .direct time).rows ++ _ ++ _ ++ _) _ _ = _
    rw [hg]
    refine Program.run_of_nodes (congrArg ProgramDraft.backend hq) (byFormulas_rateProgram hq)
      (hq ▸ of_decide_eq_true rfl) (by decide) fun i => ?_
    refine (evalOutputs_rateProgram (storesUnder_free _) hq _ _ _).2 ?_
    match i with
    | 0 => rfl
    | 1 => rfl

theorem run_storesUnder : (storesUnder (lawOf name f)).run storesData [precipitation] =
    .ok ⟨[contents (f [2] onesAt), f [2, 2] (contents (f [2] onesAt)),
      gatherRows storesFeeders (f [2, 2] (contents (f [2] onesAt)))], []⟩ := by
  obtain ⟨p, hp, hpd⟩ : ∃ p, (storesUnder (lawOf name f)).fluxProgram .elementwise = .ok p ∧
      p.toProgramDraft = ⟨.elementwise, (storesUnder (lawOf name f)).ordered, ["p", "s"], ["q"]⟩ :=
    Program.compile_exists rfl (fun _ ho => .inr ho) fun h => nomatch h
  obtain ⟨q, hq, hqd⟩ : ∃ q, (storesUnder (lawOf name f)).rateProgram .elementwise = .ok q ∧
      q.toProgramDraft = ⟨.elementwise, (storesUnder (lawOf name f)).rates.map .state,
        ["p", "s", "q", "u"], ["d(s)"]⟩ :=
    Program.compile_exists rfl (fun _ ho => .inr ho) fun h => nomatch h
  have hcolumns : (timeColumns [precipitation]).length = storesData.times.length := rfl
  obtain ⟨g, hg, -⟩ := Forcing.make_eq_ok storesData_strictTimes hcolumns (by decide)
  have hvalue : g.value .direct (Scalar.ofInt 0) = Grid.stack [onesAt] := by
    refine Grid.ext_nodeColumn fun i => ?_
    rw [Forcing.nodeColumn_value hg storesData_strictTimes .direct (x := Scalar.ofInt 0)
      (j := 0) rfl (by decide)]
    match i with
    | 0 => rfl
    | 1 => rfl
  have hstep : advanceOnce none ((storesUnder (lawOf name f)).rate p q storesFeeders g storesData)
      (Grid.stack storesData.initial) (Scalar.ofInt 0) =
        .ok ((Grid.stack storesData.initial).zipWith (· + ·) (gained (f [2] onesAt))) :=
    advanceOnce_eq_ok.2 ⟨_, rate_storesUnder hpd hqd hvalue, rfl⟩
  have hmarch : marchExplicit none ((storesUnder (lawOf name f)).rate p q storesFeeders g storesData)
      (Grid.stack storesData.initial) storesData.times = .ok [Grid.stack storesData.initial,
        (Grid.stack storesData.initial).zipWith (· + ·) (gained (f [2] onesAt))] :=
    bind_eq_ok.2 ⟨_, hstep, rfl⟩
  refine run_eq_ok.2 ⟨rfl, p, q, g, _, [f [2, 2] (contents (f [2] onesAt))], _, hp, hq, hg,
    bind_eq_ok.2 ⟨_, hmarch, rfl⟩, ?_, rfl, rfl⟩
  exact run_storesUnder_fluxes hpd precipitation (contents (f [2] onesAt)) _ _

noncomputable def storesRows (f : (s : Shape) → Grid s ExactReal → Grid s ExactReal) :
    String → Grid [2, 2] ExactReal
  | "s" => contents (f [2] onesAt)
  | "q" => f [2, 2] (contents (f [2] onesAt))
  | "u" => gatherRows storesFeeders (f [2, 2] (contents (f [2] onesAt)))
  | _ => precipitation

noncomputable def ones : Nested ExactReal :=
  .list [.entry (.real Scalar.one), .entry (.real Scalar.one)]

theorem storesUnder_returns : (Component.route (storesUnder (lawOf name f))).run
    (.list [.list [ones, ones]]) ⟨[], [("s", ones)]⟩ .standard =
      .ok (.named ["s", "q", "u"] (storesRows f) false) := by
  have haccepts : (Component.route (storesUnder (lawOf name f))).Accepts (.list [.list [ones, ones]])
      ⟨[], [("s", ones)]⟩ .standard ⟨2, 2, [precipitation], false⟩ storesData :=
    ⟨⟨_, rfl, rfl⟩, rfl, rfl⟩
  exact haccepts.run_route.trans (congrArg (· >>= _) run_storesUnder)

theorem ofRate_content : StateFlux.ofRate (.name "s") none [.name "p", .name "u"] [.name "q"]
    (some "content") = .ok content := rfl

theorem storesRows_reads : (InputRows.named ["p"] (storesRows f) false).Reads
    (.list [.list [ones, ones]]) := ⟨_, rfl, rfl⟩

end

theorem lawOf_elementwise (name : String) : (lawOf name fun _ g => g).Elementwise 1 := by
  refine ⟨List.map fun c => .double c.value, ?_⟩
  intro s args cells result parts hholds hresult hparts
  match args, hresult with
  | [v], hresult =>
    obtain ⟨c, rest, ⟨lift, hlift, hc⟩, hrest, rfl⟩ := List.forall₂_cons_left_iff.1 hholds
    obtain rfl := List.forall₂_nil_left_iff.1 hrest
    obtain rfl := Except.ok.inj hresult
    obtain rfl := Except.ok.inj hparts
    exact ⟨[fun i => .double (c i).value], .cons ⟨lift, hlift, fun i =>
      congrArg (fun c => Cell.double c.value) (hc i)⟩ .nil, fun i => rfl⟩

/-- Each store is emptied in every step, by a law. -/
theorem emptiedStores_balance :
    ∃ result, (Component.route (storesUnder (lawOf "all" fun _ g => g))).run
        (.list [.list [ones, ones]]) ⟨[], [("s", ones)]⟩ .standard = .ok result ∧
      ∃ (n t : Nat) (y : String → Grid [n, t] ExactReal) (single : Bool) (ht : 0 < t),
        (InputRows.named ["p"] y single).Reads (.list [.list [ones, ones]]) ∧
        result = .named ["s", "q", "u"] y single ∧
        ∀ j : Fin t, totalAt (y "s") j - totalAt (y "s") ⟨0, ht⟩ =
          Scalar.total fun k : Fin j.val =>
            (storesUnder (lawOf "all" fun _ g => g)).netInflow ["p"] [] y (k.castLE j.isLt.le) := by
  have hlaws : ∀ f ∈ (storesUnder (lawOf "all" fun _ g => g)).fluxes, f.Elementwise [] := by
    refine List.forall_mem_singleton.2 fun law hlaw => ?_
    obtain rfl := Option.some.inj hlaw
    exact lawOf_elementwise "all"
  exact ⟨_, storesUnder_returns, run_conserves_mass (by decide) ofRate_content
    (List.mem_singleton_self _) rfl rfl (by decide) (by decide) (storesUnder_free _) hlaws
    (by decide) rfl storesUnder_returns⟩

noncomputable def pooled (s : Shape) (g : Grid s ExactReal) : Grid s ExactReal :=
  Grid.replicate (Scalar.sum g.toList)

/-- By a law that is not elementwise each store gives what all stores hold: over all nodes in a step,
and over all nodes and times in the rows of the run, which are not what flowed out. -/
theorem pooledStores_unbalanced :
    let r := storesUnder (lawOf "pooled" pooled)
    r.topology.Unbranched ∧ content ∈ r.rates ∧ RatesFree r.rates ∧
      StateFlux.ofRate (.name "s") none [.name "p", .name "u"] [.name "q"] (some "content") =
        .ok content ∧
      ∃ y : String → Grid [2, 2] ExactReal,
        (InputRows.named (Component.route r).signature.inputs y false).Reads
          (.list [.list [ones, ones]]) ∧
        (Component.route r).run (.list [.list [ones, ones]]) ⟨[], [("s", ones)]⟩ .standard =
          .ok (.named (Component.route r).rowNames y false) ∧
        totalAt (y "s") 1 - totalAt (y "s") 0 ≠
          Scalar.total fun k : Fin 1 => r.netInflow ["p"] [] y (k.castLE one_le_two) := by
  refine ⟨by decide, List.mem_singleton_self _, storesUnder_free _, ofRate_content,
    storesRows pooled, storesRows_reads, storesUnder_returns, fun h => ?_⟩
  let both : ExactReal := Scalar.sum [Scalar.one, Scalar.one]
  have hfirst : totalAt (storesRows pooled "s") 0 = Scalar.sum [Scalar.one, Scalar.one] := rfl
  have hsecond : totalAt (storesRows pooled "s") 1 = Scalar.sum [
      Scalar.one + (Scalar.one + Scalar.zero - both),
      Scalar.one + (Scalar.one + (Scalar.zero + both) - both)] := rfl
  have hnet : (Scalar.total fun k : Fin 1 => (storesUnder (lawOf "pooled" pooled)).netInflow ["p"]
      [] (storesRows pooled) (k.castLE one_le_two)) =
        Scalar.sum [Scalar.sum [Scalar.sum [Scalar.one, Scalar.one]] - Scalar.sum [] - Scalar.sum
          [Scalar.zero, Scalar.sum [Scalar.one, Scalar.one + (Scalar.one + Scalar.zero - both),
            Scalar.one, Scalar.one + (Scalar.one + (Scalar.zero + both) - both)]]] := rfl
  rw [hfirst, hsecond, hnet] at h
  have hreal := congrArg ExactArithmetic.toReal h
  norm_num [both, ExactArithmetic.toReal_sum] at hreal

end Route

end Catchment
