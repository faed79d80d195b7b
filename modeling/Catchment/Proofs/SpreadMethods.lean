import Catchment.Proofs.AcceptedRuns
import Catchment.Proofs.ExactSums
import Catchment.Proofs.NodeWeights

/-!
# Methods of spreading

In exact arithmetic a place of the buffer holds the sum of the shares that are due at its time, so
that the buffer and the convolution return the same rows: at each node the weights of its own lag
times the inflow at and before a time.
-/
namespace Catchment

variable {K : Type} [Scalar K] {n t : Nat}

def due (share flow : Nat → K) (inflows steps : Nat) : K :=
  Scalar.sum ((List.range inflows).map fun m => share (steps + m) * flow (inflows - 1 - m))

section

variable [ExactSums K] {places count : Nat} {share : Nat → K} (flow : Nat → K)

theorem due_succ (j k : Nat) :
    due share flow (j + 1) k = share k * flow j + due share flow j (k + 1) := by
  rw [due, Scalar.sum_range_head]
  refine congrArg (_ + Scalar.sum ·) (List.map_congr_left fun m _ => ?_)
  have hsteps : k + (m + 1) = k + 1 + m := by omega
  have hinflow : j + 1 - 1 - (m + 1) = j - 1 - m := by omega
  rw [hsteps, hinflow]

theorem held_succ (j k : Nat) : held none places share flow (j + 1) k =
    (if k + 1 < places then held none places share flow j (k + 1) else Scalar.zero) +
      share (k + 1) * flow j := by
  rw [held]
  exact (ExactSums.add_assoc _ _ _).symm.trans
    (congrArg (· + _) (ExactSums.add_sub_cancel _ _))

variable [ExactOrder K]

theorem due_eq_zero {k : Nat} (hshare : ∀ m, k ≤ m → share m = Scalar.zero) (j : Nat) :
    due share flow j k = Scalar.zero :=
  Scalar.sum_range_eq (Nat.zero_le j) fun m _ _ => by
    rw [hshare _ (Nat.le_add_right k m), ExactSums.zero_mul]

/-- A place holds what is due at its time of all earlier inflow. -/
theorem held_eq_due (hshare : ∀ k, places < k → share k = Scalar.zero) (j k : Nat) :
    held none places share flow j k = due share flow j (k + 1) := by
  induction j generalizing k with
  | zero => rfl
  | succ j ih =>
    have hshifted : (if k + 1 < places then held none places share flow j (k + 1)
        else Scalar.zero) = due share flow j (k + 1 + 1) := by
      split
      · exact ih (k + 1)
      · -- the last place takes over nothing, and no share is due there later
        exact (due_eq_zero flow (fun m hm => hshare m (by omega)) j).symm
    rw [held_succ, hshifted, due_succ, ExactSums.add_comm]

theorem weightedSum_eq_due (hshare : ∀ k, count ≤ k → share k = Scalar.zero) (j : Nat) :
    weightedSum count share flow j = due share flow (j + 1) 0 := by
  simp only [due, Nat.zero_add, Nat.add_sub_cancel]
  refine (Scalar.sum_range_eq (Nat.min_le_right _ _) fun k hk hkj => ?_).symm
  rw [hshare k (by omega), ExactSums.zero_mul]

theorem outflow_eq_weightedSum (hshare : ∀ k, count ≤ k → share k = Scalar.zero) (j : Nat) :
    UnitHydrograph.outflow none count share flow j = weightedSum count share flow j := by
  rw [weightedSum_eq_due flow hshare, due_succ, UnitHydrograph.outflow]
  split
  · rw [due_eq_zero flow (fun k hk => hshare k (by omega)), ExactSums.add_zero]
  · rw [held_eq_due flow (fun k hk => hshare k (by omega))]

end

namespace UnitHydrograph

variable {h : UnitHydrograph K} {d : RunData n t K} {q : Grid [n, t] K} {lags : Grid [n] K}

/-- The hydrograph with another method. -/
def withMethod (h : UnitHydrograph K) (method : SpreadMethod) : UnitHydrograph K :=
  { h with method }

theorem run_withMethod (hlags : d.params.lookup h.lag = some lags) (method : SpreadMethod) :
    (h.withMethod method).run d [q] = (do
      let w ← weightsFor h.curve lags
      match method with
      | .sparse => return ⟨[convolve w q], []⟩
      | .discrete => (h.withMethod method).buffered w d q) := by
  have hlags' : d.params.lookup (h.withMethod method).lag = some lags := hlags
  rw [run, hlags']
  rfl

/-- Accepted arguments have a lag for every node. -/
theorem lags_of_prepare {args : RunArguments K} {s : Settings K}
    (hd : RunData.prepare h.signature n t args s = .ok d) :
    ∃ lags, d.params.lookup h.lag = some lags ∧ args.paramRow s n h.lag = .ok lags := by
  obtain ⟨-, -, ⟨-, -, hparams⟩, -⟩ := RunData.prepare_eq_ok_iff.1 hd
  exact lookup_of_forall₂ (R := fun k g => args.paramRow s n k = .ok g) hparams
    (List.mem_singleton_self h.lag)

def routedAt (method : SpreadMethod) (count : Nat) (share flow : Nat → K) (j : Nat) : K :=
  match method with
  | .sparse => weightedSum count share flow j
  | .discrete => outflow none count share flow j

/-- Either method works node by node on the weights that are filled up with zeros. -/
theorem run_eq_routed [OrderedScalar K] (hsolver : d.settings.solver ≠ .adaptive)
    (hmin : d.settings.minValue = none) (hstrict : StrictTimes d.times) (ht : 0 < t)
    (hlags : d.params.lookup h.lag = some lags) (method : SpreadMethod) :
    (h.withMethod method).run d [q] = (do
      let w ← weightsFor h.curve lags
      return ⟨[Grid.ofFn fun c =>
        routedAt method w.width (w.share c.head) (q.series c.head) c.tail.head], []⟩) := by
  rw [run_withMethod hlags]
  cases hw : weightsFor h.curve lags with
  | error e => rfl
  | ok w => cases method with
    | sparse =>
      have hrow : convolve w q = Grid.ofFn fun c =>
          routedAt .sparse w.width (w.share c.head) (q.series c.head) c.tail.head := by
        refine Grid.ext_get fun c => ?_
        rw [Grid.get_ofFn]
        exact get_convolve w q c.head c.tail.head
      rw [ok_bind, ok_bind, ← hrow]
    | discrete =>
      rw [ok_bind, ok_bind, buffered_eq hsolver hstrict ht (width_pos_of_weightsFor hw), hmin]
      rfl

/-- The inflow of each node spread by its own weights. -/
def spread (weights : Fin n → List K) (q : Grid [n, t] K) : Grid [n, t] K :=
  Grid.ofFn fun c => weightedSum (weights c.head).length
    (fun k => (weights c.head).getD k Scalar.zero) (q.series c.head) c.tail.head

section

variable [ExactOrder K] [ExactSums K]

theorem routedAt_eq_weightedSum (method : SpreadMethod) {count : Nat} {share : Nat → K}
    (hshare : ∀ k, count ≤ k → share k = Scalar.zero) (flow : Nat → K) (j : Nat) :
    routedAt method count share flow j = weightedSum count share flow j := by
  cases method with
  | sparse => rfl
  | discrete => exact outflow_eq_weightedSum flow hshare j

theorem ofFn_weightedSum_eq_spread {w : WeightGrid n K} {weights : Fin n → List K}
    (hpads : w.Pads weights) (q : Grid [n, t] K) :
    (Grid.ofFn fun c : Index [n, t] =>
      weightedSum w.width (w.share c.head) (q.series c.head) c.tail.head) = spread weights q := by
  refine congrArg Grid.ofFn (funext fun c => ?_)
  have hshare : w.share c.head = fun k => (weights c.head).getD k Scalar.zero :=
    funext (hpads.share c.head)
  rw [← hshare, weightedSum_eq_due _ fun k hk => w.share_of_le _ hk,
    weightedSum_eq_due _ fun k hk => hpads.share_of_length_le hk]

variable [OrderedScalar K]

/-- Either method returns the convolution. -/
theorem run_eq_convolution (hsolver : d.settings.solver ≠ .adaptive)
    (hmin : d.settings.minValue = none) (hstrict : StrictTimes d.times) (ht : 0 < t)
    (hlags : d.params.lookup h.lag = some lags) (method : SpreadMethod) :
    (h.withMethod method).run d [q] = (do
      let w ← weightsFor h.curve lags
      return ⟨[Grid.ofFn fun c =>
        weightedSum w.width (w.share c.head) (q.series c.head) c.tail.head], []⟩) := by
  rw [run_eq_routed hsolver hmin hstrict ht hlags]
  refine congrArg (weightsFor h.curve lags >>= ·) (funext fun w => ?_)
  simp only [routedAt_eq_weightedSum method fun k hk => w.share_of_le _ hk]

theorem run_eq_ok_iff_spread (hsolver : d.settings.solver ≠ .adaptive)
    (hmin : d.settings.minValue = none) (hstrict : StrictTimes d.times) (hn : 0 < n) (ht : 0 < t)
    (hlags : d.params.lookup h.lag = some lags) (method : SpreadMethod) {out : Outcome n t K} :
    (h.withMethod method).run d [q] = .ok out ↔ ∃ weights : Fin n → List K,
      (∀ i, h.curve.weights (lags.get (.node i)) = .ok (weights i)) ∧
        out = ⟨[spread weights q], []⟩ := by
  rw [run_eq_convolution hsolver hmin hstrict ht hlags, bind_eq_ok]
  constructor
  · rintro ⟨w, hw, hout⟩
    obtain ⟨-, weights, hweights, hpads⟩ := pads_of_weightsFor hw
    rw [ofFn_weightedSum_eq_spread hpads] at hout
    exact ⟨weights, hweights, (Except.ok.inj hout).symm⟩
  · rintro ⟨weights, hweights, rfl⟩
    obtain ⟨w, hw, hpads⟩ := weightsFor_eq_ok hn hweights
    rw [← ofFn_weightedSum_eq_spread hpads]
    exact ⟨w, hw, rfl⟩

end

end UnitHydrograph

namespace Component.Accepts

variable {h : UnitHydrograph K} {input : Nested K} {args : RunArguments K} {s : Settings K}
  {given : InputRows K} {d : RunData given.nodes given.times K}

theorem withMethod (haccepts : (hydrograph h).Accepts input args s given d)
    (method : SpreadMethod) : (hydrograph (h.withMethod method)).Accepts input args s given d where
  shape := haccepts.shape
  count := (haccepts.count : given.rows.length = [h.input].length)
  prepared := by
    have hparams : (h.withMethod method).signature.params = [h.lag] := rfl
    have hnetworks : (h.withMethod method).signature.networks = [] := rfl
    have hstates : (h.withMethod method).signature.states = [] := rfl
    exact (RunData.prepare_congr hparams hnetworks hstates).trans haccepts.prepared

end Component.Accepts

namespace UnitHydrograph

variable [ExactOrder K] [ExactSums K] [OrderedScalar K]

/-- In exact arithmetic a run by the buffer is the run by convolution. Both return the inflow of
each node spread by the weights of its own lag, if every lag has weights. -/
theorem methods_agree (h : UnitHydrograph K) {input : Nested K} {args : RunArguments K}
    {s : Settings K} {given : InputRows K} {d : RunData given.nodes given.times K}
    (haccepts : (Component.hydrograph h).Accepts input args s given d)
    (hsolver : s.solver ≠ .adaptive) (hmin : s.minValue = none) (hstrict : StrictTimes d.times)
    (hn : 0 < given.nodes) (ht : 0 < given.times) :
    (Component.hydrograph (h.withMethod .discrete)).run input args s =
      (Component.hydrograph (h.withMethod .sparse)).run input args s ∧
    ∃ q lags, given.rows = [q] ∧ args.paramRow s given.nodes h.lag = .ok lags ∧
      ∀ method result,
        (Component.hydrograph (h.withMethod method)).run input args s = .ok result ↔
          ∃ weights : Fin given.nodes → List K,
            (∀ i, h.curve.weights (lags.get (.node i)) = .ok (weights i)) ∧
              result = given.result [spread weights q] [] := by
  obtain ⟨q, hq⟩ := List.length_eq_one_iff.1 haccepts.count
  obtain ⟨lags, hlags, hrow⟩ := lags_of_prepare haccepts.prepared
  obtain ⟨rfl, -⟩ := RunData.prepare_eq_ok haccepts.prepared
  have hrun (method : SpreadMethod) := (haccepts.withMethod method).run_hydrograph
  refine ⟨?_, q, lags, hq, hrow, fun method result => ?_⟩
  · rw [hrun, hrun, hq, run_eq_convolution hsolver hmin hstrict ht hlags,
      run_eq_convolution hsolver hmin hstrict ht hlags]
  · rw [hrun, hq, bind_eq_ok]
    simp only [run_eq_ok_iff_spread hsolver hmin hstrict hn ht hlags]
    constructor
    · rintro ⟨_, ⟨weights, hweights, rfl⟩, hresult⟩
      exact ⟨weights, hweights, (Except.ok.inj hresult).symm⟩
    · rintro ⟨weights, hweights, rfl⟩
      exact ⟨_, ⟨weights, hweights, rfl⟩, rfl⟩

def evenSpread : UnitHydrograph K where
  name := none
  input := "q"
  output := "r"
  lag := "lag"
  curve := .custom CurveLaw.linear (.real (Scalar.ofInt 2))
  method := .discrete
  changesName := by decide

open ExactReal

theorem steps_evenSpread : evenSpread.curve.steps (Scalar.ofInt 1 : ExactReal) = .ok 2 := by
  have hceiling : evenSpread.curve.steps (Scalar.ofInt 1 : ExactReal) =
      .ok ⌈(Scalar.ofInt 2 * Scalar.ofInt 1 : ExactReal)⌉ := rfl
  rw [hceiling]
  simp [ofInt_eq]

theorem value_evenSpread {t : Int} (ht : t ≤ 2) :
    evenSpread.curve.value (Scalar.ofInt t) (Scalar.ofInt 1) =
      .ok (Scalar.ratio t 2 : ExactReal) := by
  have hquotient : SCurve.quotient (Scalar.ofInt t) (Scalar.ofInt 2 * Scalar.ofInt 1) =
      .ok (Scalar.ratio t 2 : ExactReal) := by
    rw [SCurve.quotient, if_neg (by simp [ExactReal.eq_iff, ofInt_eq, zero_eq])]
    simp [ofInt_eq, ratio_eq]
  have hlt : Scalar.lt Scalar.one (Scalar.ratio t 2 : ExactReal) = false := by
    have ht' : (t : ExactReal) ≤ 2 := by exact_mod_cast ht
    rw [Bool.eq_false_iff, ne_eq, lt_iff, one_eq, not_lt, ratio_eq]
    linarith
  show (do
    let x ← SCurve.quotient (Scalar.ofInt t) (Scalar.ofInt 2 * Scalar.ofInt 1)
    return CurveLaw.atMostOne x) = _
  rw [hquotient, ok_bind, CurveLaw.atMostOne, hlt]
  rfl

theorem increments_halves : increments [Scalar.ratio 0 2, Scalar.ratio 1 2, Scalar.ratio 2 2] =
    ([Scalar.ratio 1 2, Scalar.ratio 1 2] : List ExactReal) := by
  simp only [increments, ratio_eq]
  norm_num

theorem pairwiseSum_halves :
    pairwiseSum [Scalar.ratio 1 2, Scalar.ratio 1 2] = (Scalar.one : ExactReal) := by
  rw [pairwiseSum, if_pos (by decide)]
  simp only [Scalar.sum, List.foldl, ratio_eq, zero_eq, one_eq]
  norm_num

theorem weights_evenSpread_one :
    evenSpread.curve.weights (Scalar.ofInt 1) =
      .ok ([Scalar.ratio 1 2, Scalar.ratio 1 2] : List ExactReal) := by
  have hpos : Scalar.lt Scalar.zero (Scalar.ofInt 1 : ExactReal) = true :=
    OrderedScalar.zero_lt_one
  have hvalues : ((List.range 3).mapM fun (t : Nat) =>
      evenSpread.curve.value (Scalar.ofInt t) (Scalar.ofInt 1)) =
      .ok [Scalar.ratio 0 2, Scalar.ratio 1 2, Scalar.ratio 2 2] :=
    mapM_eq_ok.2 (.cons (value_evenSpread (by decide)) (.cons (value_evenSpread (by decide))
      (.cons (value_evenSpread (by decide)) .nil)))
  have hdiv (x : ExactReal) : x / Scalar.one = x := by simp [one_eq]
  rw [SCurve.weights, if_neg (by simpa using hpos), steps_evenSpread, ok_bind]
  refine (congrArg (· >>= _) hvalues).trans ?_
  simp only [ok_bind, increments_halves, pairwiseSum_halves, if_pos OrderedScalar.zero_lt_one,
    List.map_cons, List.map_nil, hdiv]
  rfl

theorem weights_evenSpread_zero :
    evenSpread.curve.weights (Scalar.ofInt 0 : ExactReal) = .ok [Scalar.one] :=
  SCurve.weights_of_not_pos _ (Bool.eq_false_iff.2 fun hlt => lt_irrefl _ (lt_iff.1 hlt))

noncomputable def mixedLags : RunArguments ExactReal where
  params := [("lag", .tensor (.ofGrid (Grid.ofFn fun c : Index [2] =>
    Scalar.ofInt (1 - c.head.val))))]
  states := []

noncomputable def mixedWeights (i : Fin 2) : List ExactReal :=
  if i = 0 then [Scalar.ratio 1 2, Scalar.ratio 1 2] else [Scalar.one]

noncomputable def risingInflow : Grid [1, 2, 3] ExactReal :=
  Grid.ofFn fun c => Scalar.ofInt (c.tail.tail.head.val + 1)

noncomputable def mixedOutflow : Grid [2, 3] ExactReal :=
  Grid.ofFn fun c => if c.head = 0 then Scalar.ratio (2 * c.tail.head.val + 1) 2
    else Scalar.ofInt (c.tail.head.val + 1)

theorem weightedSum_risingInflow (i : Fin 2) (j : Fin 3) :
    weightedSum (mixedWeights i).length (fun k => (mixedWeights i).getD k Scalar.zero)
      ((risingInflow.row 0).series i) j = mixedOutflow.get (.nodeTime i j) := by
  have hflow (i : Fin 2) {k : Nat} (hk : k < 3) :
      (risingInflow.row 0).series i k = Scalar.ofInt (k + 1) := by
    rw [Grid.series_of_lt _ _ hk, Grid.get_row, risingInflow]
    exact Grid.get_ofFn _ _
  rw [mixedOutflow, Grid.get_ofFn]
  fin_cases i <;> fin_cases j <;>
    simp [weightedSum, mixedWeights, List.range_succ, Scalar.sum, hflow, Index.head, Index.tail,
      Index.nodeTime, Index.cons, ratio_eq, ofInt_eq, zero_eq, one_eq] <;>
    norm_num

theorem strictTimes_ofInt : StrictTimes
    ([Scalar.ofInt 0, Scalar.ofInt 1, Scalar.ofInt 2] : List ExactReal) where
  finite x _ := by simp [Scalar.isFinite, ExactReal.eq_iff, zero_eq]
  increasing := by
    have hlt {a b : Int} (h : a < b) :
        Scalar.lt (Scalar.ofInt a) (Scalar.ofInt b : ExactReal) = true := by
      rw [lt_iff, ofInt_eq, ofInt_eq]
      exact_mod_cast h
    simp [hlt]

/-- A hydrograph accepts three steps of inflow at two nodes, if there is a lag for each of these. -/
theorem accepts_threeSteps (u : UnitHydrograph ExactReal) (inflow : Grid [1, 2, 3] ExactReal)
    (args : RunArguments ExactReal) (hpresent : missingNames args.params [u.lag] = [])
    (hlag : ∃ lags, args.paramRow Settings.standard 2 u.lag = .ok lags) :
    ∃ d, (Component.hydrograph u).Accepts (.tensor (.ofGrid inflow)) args Settings.standard
        ⟨2, 3, inflow.rows, false⟩ d ∧
      d.times = [Scalar.ofInt 0, Scalar.ofInt 1, Scalar.ofInt 2] := by
  have hgives : args.Gives Settings.standard 2 3 u.signature.params [] :=
    { times := ⟨_, rfl⟩
      paramClasses := ⟨none, rfl⟩
      stateClasses := ⟨none, rfl⟩
      present := hpresent
      params := fun k hk => by
        obtain rfl : k = u.lag := List.mem_singleton.1 hk
        exact hlag
      states := nofun }
  obtain ⟨d, hd⟩ := (RunData.prepare_exists rfl).2 hgives
  refine ⟨d, ⟨⟨_, rfl, rfl⟩, rfl, hd⟩, ?_⟩
  exact (congrArg Subtype.val (Except.ok.inj (RunData.prepare_eq_ok_iff.1 hd).1)).symm

theorem evenSpread_run : ∃ d, (Component.hydrograph evenSpread).Accepts
      (.tensor (.ofGrid risingInflow)) mixedLags Settings.standard
        ⟨2, 3, risingInflow.rows, false⟩ d ∧
    StrictTimes d.times ∧
    ∀ method, (Component.hydrograph (evenSpread.withMethod method)).run
      (.tensor (.ofGrid risingInflow)) mixedLags Settings.standard =
        .ok ⟨.ofGrid (Grid.stack [mixedOutflow]), []⟩ := by
  obtain ⟨d, haccepts, htimes⟩ :=
    accepts_threeSteps evenSpread risingInflow mixedLags rfl ⟨_, rfl⟩
  have hstrict : StrictTimes d.times := htimes ▸ strictTimes_ofInt
  obtain ⟨-, q, lags, hq, hlags, hrun⟩ := evenSpread.methods_agree haccepts (by decide) rfl hstrict
    (by decide) (by decide)
  obtain rfl : risingInflow.row 0 = q := (List.cons.inj hq).1
  refine ⟨d, haccepts, hstrict, fun method => (hrun method _).2 ⟨mixedWeights, fun i => ?_, ?_⟩⟩
  · obtain rfl := Except.ok.inj hlags
    fin_cases i
    · exact weights_evenSpread_one
    · exact weights_evenSpread_zero
  · rw [InputRows.result, Outcome.toTensor, dif_neg (by simp)]
    refine congrArg (fun g => RunResult.mk (.ofGrid (Grid.stack [g])) []) (Grid.ext_get fun c => ?_)
    rw [spread, Grid.get_ofFn]
    exact (weightedSum_risingInflow c.head c.tail.head).symm

end UnitHydrograph

end Catchment
