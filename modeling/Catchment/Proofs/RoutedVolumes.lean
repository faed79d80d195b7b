import Catchment.Proofs.CurveWeights
import Catchment.Proofs.SpreadMethods

/-!
# Routed volumes

A unit hydrograph creates no volume. In exact arithmetic all that a node has given out so far is a
weighted mean of what it had been given at the steps up to now. So it is never more than what it has
been given, and it is all of that once nothing came in for as long as a pulse takes to leave.
-/
namespace Catchment

open ExactArithmetic

variable {K : Type} [Scalar K] {n t : Nat}

/-- The sum of the numbers of a node over the first steps. -/
def Grid.volume (q : Grid [n, t] K) (i : Fin n) (count : Nat) : K :=
  Scalar.sum ((List.range count).map (q.series i))

section

variable [ExactArithmetic K]

theorem toReal_sum_range (f : Nat → K) (count : Nat) :
    toReal (Scalar.sum ((List.range count).map f)) = ∑ k ∈ Finset.range count, toReal (f k) := by
  rw [toReal_sum, List.map_map]
  rfl

theorem toReal_volume_mono {q : Grid [n, t] K} {i : Fin n}
    (hq : ∀ j, 0 ≤ toReal (q.series i j)) {count count' : Nat} (hle : count ≤ count') :
    toReal (q.volume i count) ≤ toReal (q.volume i count') := by
  rw [Grid.volume, Grid.volume, toReal_sum_range, toReal_sum_range]
  exact Finset.sum_le_sum_of_subset_of_nonneg (Finset.range_mono hle) fun j _ _ => hq j

/-- After the last step with a number nothing is added. -/
theorem toReal_volume_eq {q : Grid [n, t] K} {i : Fin n} {count count' : Nat}
    (hle : count ≤ count') (hq : ∀ j, count ≤ j → j < count' → q.series i j = Scalar.zero) :
    toReal (q.volume i count) = toReal (q.volume i count') :=
  congrArg toReal (Scalar.sum_range_eq hle hq).symm

theorem toReal_weightedSum {count : Nat} {share : Nat → K}
    (hshare : ∀ k, count ≤ k → share k = Scalar.zero) (flow : Nat → K) (j : Nat) :
    toReal (weightedSum count share flow j) =
      ∑ k ∈ Finset.range (j + 1), toReal (share k) * toReal (flow (j - k)) := by
  rw [weightedSum_eq_due flow hshare, due, toReal_sum_range]
  simp only [Nat.zero_add, Nat.add_sub_cancel, toReal_mul]

namespace UnitHydrograph

variable (weights : Fin n → List K) (q : Grid [n, t] K) {i : Fin n}

/-- A share of what came in some steps ago has left by now, for every share. -/
theorem toReal_volume_spread {count : Nat} (hcount : count ≤ t) :
    toReal ((spread weights q).volume i count) = ∑ k ∈ Finset.range count,
      toReal ((weights i).getD k Scalar.zero) * toReal (q.volume i (count - k)) := by
  have hcell (j : Nat) (hj : j < count) : toReal ((spread weights q).series i j) =
      ∑ k ∈ Finset.range (j + 1),
        toReal ((weights i).getD k Scalar.zero) * toReal (q.series i (j - k)) := by
    rw [Grid.series_of_lt _ i (hj.trans_le hcount), spread, Grid.get_ofFn]
    exact toReal_weightedSum (fun k hk => List.getD_eq_default _ _ hk) _ j
  simp only [Grid.volume, toReal_sum_range]
  rw [Finset.sum_congr rfl fun j hj => hcell j (Finset.mem_range.1 hj),
    Finset.sum_range_diag_flip count fun k m =>
      toReal ((weights i).getD k Scalar.zero) * toReal (q.series i m)]
  simp only [Finset.mul_sum]

end UnitHydrograph

theorem toReal_getD_nonneg {w : List K} (hw : ∀ x ∈ w, Scalar.le Scalar.zero x = true) (k : Nat) :
    0 ≤ toReal (w.getD k Scalar.zero) := by
  rcases Nat.lt_or_ge k w.length with hk | hk
  · rw [List.getD_eq_getElem _ _ hk]
    simpa [le_iff] using hw _ (List.getElem_mem hk)
  · rw [List.getD_eq_default _ _ hk, toReal_zero]

/-- Shares that are not there are zero. -/
theorem sum_range_toReal_getD (w : List K) {count : Nat} (hcount : w.length ≤ count) :
    ∑ k ∈ Finset.range count, toReal (w.getD k Scalar.zero) = toReal (Scalar.sum w) := by
  have hw : w = (List.range w.length).map fun k => w.getD k Scalar.zero :=
    List.ext_getElem (by simp) fun k hk _ => by simp [hk]
  rw [← toReal_sum_range,
    Scalar.sum_range_eq hcount fun k hk _ => List.getD_eq_default _ _ hk, ← hw]

theorem sum_range_toReal_getD_le {w : List K} (hw : ∀ x ∈ w, Scalar.le Scalar.zero x = true)
    (count : Nat) :
    ∑ k ∈ Finset.range count, toReal (w.getD k Scalar.zero) ≤ toReal (Scalar.sum w) := by
  rw [← sum_range_toReal_getD w (Nat.le_max_right count w.length)]
  exact Finset.sum_le_sum_of_subset_of_nonneg (Finset.range_mono (Nat.le_max_left _ _))
    fun k _ _ => toReal_getD_nonneg hw k

/-- Every curve has weights for a lag that is not positive, and a built-in one for any lag. None of
them is negative. -/
theorem SCurve.exists_weights (hpower : RisesToOne (power : K → K)) {c : SCurve K}
    (hc : c.kind ≠ .custom) (lag : K) :
    ∃ w, c.weights lag = .ok w ∧ ∀ x ∈ w, Scalar.le Scalar.zero x = true := by
  cases hlag : Scalar.lt Scalar.zero lag with
  | false =>
    refine ⟨[Scalar.one], c.weights_of_not_pos hlag, List.forall_mem_singleton.2 ?_⟩
    rw [le_iff, toReal_zero, toReal_one]
    exact zero_le_one
  | true =>
    have hpos : 0 < toReal lag := by rwa [lt_iff, toReal_zero] at hlag
    obtain ⟨w, hw⟩ := exists_distributes hpower hc hpos
    exact ⟨w, hw.weights_eq, hw.nonneg⟩

/-- Outflow of a node that adds nothing to its inflow: it is not negative, no more has left than
came in, and all has left where nothing came in during the last steps but one of a pulse. -/
structure PassesOn (q out : Grid [n, t] K) (i : Fin n) (steps : Nat) : Prop where
  nonneg : ∀ j : Fin t, Scalar.le Scalar.zero (out.get (.nodeTime i j)) = true
  bounded : ∀ j : Fin t, Scalar.le (out.volume i (j + 1)) (q.volume i (j + 1)) = true
  emptied : steps ≤ t → (∀ j : Fin t, t < j + steps → q.get (.nodeTime i j) = Scalar.zero) →
    out.volume i t = q.volume i t

namespace UnitHydrograph

variable {weights : Fin n → List K} {q : Grid [n, t] K} {i : Fin n}

theorem toReal_series_nonneg
    (hq : ∀ j : Fin t, Scalar.le Scalar.zero (q.get (.nodeTime i j)) = true) (j : Nat) :
    0 ≤ toReal (q.series i j) := by
  by_cases hj : j < t
  · rw [q.series_of_lt i hj]
    simpa [le_iff] using hq ⟨j, hj⟩
  · rw [Grid.series, dif_neg hj, toReal_zero]

section

variable (hshare : ∀ x ∈ weights i, Scalar.le Scalar.zero x = true)
  (hsum : Scalar.sum (weights i) = Scalar.one)
  (hq : ∀ j : Fin t, Scalar.le Scalar.zero (q.get (.nodeTime i j)) = true)

include hshare hsum hq in
theorem toReal_volume_spread_le {count : Nat} (hcount : count ≤ t) :
    toReal ((spread weights q).volume i count) ≤ toReal (q.volume i count) := by
  have hflow := toReal_series_nonneg hq
  have hzero : 0 ≤ toReal (q.volume i count) := by
    rw [Grid.volume, toReal_sum_range]
    exact Finset.sum_nonneg fun j _ => hflow j
  have hone : ∑ k ∈ Finset.range count, toReal ((weights i).getD k Scalar.zero) ≤ 1 := by
    have hle := sum_range_toReal_getD_le hshare count
    rwa [hsum, toReal_one] at hle
  calc toReal ((spread weights q).volume i count)
      = ∑ k ∈ Finset.range count,
          toReal ((weights i).getD k Scalar.zero) * toReal (q.volume i (count - k)) :=
        toReal_volume_spread weights q hcount
    _ ≤ ∑ k ∈ Finset.range count,
          toReal ((weights i).getD k Scalar.zero) * toReal (q.volume i count) :=
        Finset.sum_le_sum fun k _ => mul_le_mul_of_nonneg_left
          (toReal_volume_mono hflow (Nat.sub_le count k)) (toReal_getD_nonneg hshare k)
    _ = (∑ k ∈ Finset.range count, toReal ((weights i).getD k Scalar.zero)) *
          toReal (q.volume i count) := (Finset.sum_mul _ _ _).symm
    _ ≤ toReal (q.volume i count) := mul_le_of_le_one_left hzero hone

include hsum in
/-- A share that there is leaves within the steps of a pulse, so all of it has left that came in
before the last of them. -/
theorem toReal_volume_spread_eq (hsteps : (weights i).length ≤ t)
    (hlast : ∀ j : Fin t, t < j + (weights i).length → q.get (.nodeTime i j) = Scalar.zero) :
    toReal ((spread weights q).volume i t) = toReal (q.volume i t) := by
  have hterm (k : Nat) : toReal ((weights i).getD k Scalar.zero) * toReal (q.volume i (t - k)) =
      toReal ((weights i).getD k Scalar.zero) * toReal (q.volume i t) := by
    rcases Nat.lt_or_ge k (weights i).length with hk | hk
    · rw [toReal_volume_eq (Nat.sub_le t k) fun j hkj hj => ?_]
      rw [q.series_of_lt i hj]
      exact hlast ⟨j, hj⟩ (by simp only; omega)
    · rw [List.getD_eq_default _ _ hk, toReal_zero, zero_mul, zero_mul]
  rw [toReal_volume_spread weights q le_rfl, Finset.sum_congr rfl fun k _ => hterm k,
    ← Finset.sum_mul, sum_range_toReal_getD _ hsteps, hsum, toReal_one, one_mul]

include hshare hsum hq in
theorem spread_passesOn : PassesOn q (spread weights q) i (weights i).length where
  nonneg j := by
    have hcell : (spread weights q).get (.nodeTime i j) = weightedSum (weights i).length
        (fun k => (weights i).getD k Scalar.zero) (q.series i) j := Grid.get_ofFn _ _
    rw [le_iff, toReal_zero, hcell, toReal_weightedSum fun k hk => List.getD_eq_default _ _ hk]
    exact Finset.sum_nonneg fun k _ =>
      mul_nonneg (toReal_getD_nonneg hshare k) (toReal_series_nonneg hq _)
  bounded j := le_iff.2 (toReal_volume_spread_le hshare hsum hq j.isLt)
  emptied hsteps hlast := toReal_injective (toReal_volume_spread_eq hsum hsteps hlast)

end

variable {h : UnitHydrograph K} {d : RunData n t K} {lags : Grid [n] K}

/-- A buffer with places only returns over times that increase, and one without returns what comes
in: either way what it returns is followed place by place. -/
theorem eq_outflow_of_buffered (hsolver : d.settings.solver ≠ .adaptive)
    (hmin : d.settings.minValue = none) {w : WeightGrid n K} (hw : 0 < w.width)
    {out : Outcome n t K} (hout : h.buffered w d q = .ok out) :
    out = ⟨[Grid.ofFn fun c =>
      outflow none w.width (w.share c.head) (q.series c.head) c.tail.head], []⟩ := by
  by_cases hnarrow : w.width ≤ 1
  · rw [buffered, if_neg hsolver, if_pos hnarrow] at hout
    obtain rfl := Except.ok.inj hout
    congr 2
    refine Grid.ext_get fun c => ?_
    rw [get_immediate hw, Grid.get_ofFn, outflow, if_pos hnarrow]
  · have hforcing := hout
    rw [buffered, if_neg hsolver, if_neg hnarrow] at hforcing
    obtain ⟨f, hf, -⟩ := bind_eq_ok.1 hforcing
    have htimes := (Forcing.fields_of_make hf).1
    have hstrict : StrictTimes d.times := by
      have hordered := f.ordered
      rw [htimes] at hordered
      exact strictTimes_of_unorderedTimes hordered
    have ht : 0 < t := by
      have hnonempty := f.nonempty
      rwa [htimes, List.size_toArray, d.times_length] at hnonempty
    rw [buffered_eq hsolver hstrict ht hw, hmin] at hout
    exact (Except.ok.inj hout).symm

/-- Whatever either method returns is the inflow of each node spread by its own weights. -/
theorem eq_spread_of_run (hsolver : d.settings.solver ≠ .adaptive)
    (hmin : d.settings.minValue = none) (hlags : d.params.lookup h.lag = some lags)
    {out : Outcome n t K} (hout : h.run d [q] = .ok out) : ∃ weights : Fin n → List K,
      (∀ i, h.curve.weights (lags.get (.node i)) = .ok (weights i)) ∧
        out = ⟨[spread weights q], []⟩ := by
  have hrun := run_withMethod (h := h) (q := q) hlags h.method
  obtain ⟨w, hw, hout⟩ := bind_eq_ok.1 (hrun.symm.trans hout)
  obtain ⟨-, weights, hweights, hpads⟩ := pads_of_weightsFor hw
  refine ⟨weights, hweights, ?_⟩
  rw [← ofFn_weightedSum_eq_spread hpads]
  cases hmethod : h.method with
  | sparse =>
    rw [hmethod] at hout
    obtain rfl := Except.ok.inj hout
    congr 2
    refine Grid.ext_get fun c => ?_
    rw [Grid.get_ofFn]
    exact get_convolve w q c.head c.tail.head
  | discrete =>
    rw [hmethod] at hout
    obtain rfl := eq_outflow_of_buffered hsolver hmin (width_pos_of_weightsFor hw) hout
    congr 3
    funext c
    exact outflow_eq_weightedSum _ (fun k hk => w.share_of_le _ hk) _

/-- In exact arithmetic, and whatever rises from 0 to 1 as the power 5/2 does, a unit hydrograph of
a built-in kind passes on what a node is given: where the inflow is not negative, neither is the
outflow, no more has left at any time than came in, and the two are equal at the end if nothing
came in during the last steps but one of the pulse of that node's lag. A run over increasing times
returns. -/
theorem routing_adds_nothing (h : UnitHydrograph K) (hcurve : h.curve.kind ≠ .custom)
    (hpower : RisesToOne (SCurve.power : K → K)) {input : Nested K} {args : RunArguments K}
    {s : Settings K} {given : InputRows K} {d : RunData given.nodes given.times K}
    (haccepts : (Component.hydrograph h).Accepts input args s given d)
    (hsolver : s.solver ≠ .adaptive) (hmin : s.minValue = none) :
    (0 < given.nodes → 0 < given.times → StrictTimes d.times →
      ∃ result, (Component.hydrograph h).run input args s = .ok result) ∧
    ∃ q lags, given.rows = [q] ∧ args.paramRow s given.nodes h.lag = .ok lags ∧
      ∀ result, (Component.hydrograph h).run input args s = .ok result →
        ∃ out, result = given.result [out] [] ∧ ∀ i,
          (∀ j, Scalar.le Scalar.zero (q.get (.nodeTime i j)) = true) →
            ∃ w, h.curve.weights (lags.get (.node i)) = .ok w ∧ PassesOn q out i w.length := by
  obtain ⟨q, hq⟩ := List.length_eq_one_iff.1 haccepts.count
  obtain ⟨lags, hlags, hrow⟩ := lags_of_prepare haccepts.prepared
  obtain ⟨rfl, -⟩ := RunData.prepare_eq_ok haccepts.prepared
  have hrun := haccepts.run_hydrograph
  rw [hq] at hrun
  refine ⟨fun hn ht hstrict => ?_, q, lags, hq, hrow, fun result hresult => ?_⟩
  · choose weights hweights _ using fun i : Fin given.nodes =>
      SCurve.exists_weights hpower hcurve (lags.get (.node i))
    have hreturns : h.run d [q] = .ok ⟨[spread weights q], []⟩ :=
      (run_eq_ok_iff_spread hsolver hmin hstrict hn ht hlags h.method).2 ⟨weights, hweights, rfl⟩
    rw [hrun, hreturns]
    exact ⟨_, rfl⟩
  · rw [hrun] at hresult
    obtain ⟨out, hout, hresult⟩ := bind_eq_ok.1 hresult
    obtain ⟨weights, hweights, rfl⟩ := eq_spread_of_run hsolver hmin hlags hout
    refine ⟨_, (Except.ok.inj hresult).symm, fun i hi => ⟨weights i, hweights i, ?_⟩⟩
    obtain ⟨w, hw, hnonneg⟩ := SCurve.exists_weights hpower hcurve (lags.get (.node i))
    obtain rfl := Except.ok.inj (hw.symm.trans (hweights i))
    exact spread_passesOn hnonneg (SCurve.sum_weights hw) hi

end UnitHydrograph

end

namespace UnitHydrograph

def quickRise : UnitHydrograph K where
  name := none
  input := "fast"
  output := "routed"
  lag := "lag"
  curve := .half none
  method := .discrete
  changesName := by decide

noncomputable def fractionalLags : RunArguments ExactReal where
  params := [("lag", .tensor (.ofGrid (Grid.ofFn fun c : Index [2] =>
    if c.head.val = 0 then Scalar.ratio 5 2 else Scalar.zero)))]
  states := []

noncomputable def pulse : Grid [1, 2, 3] ExactReal :=
  Grid.ofFn fun c => if c.tail.tail.head = 0 then Scalar.one else Scalar.zero

theorem get_pulse (i : Fin 2) (j : Fin 3) :
    (pulse.row 0).get (.nodeTime i j) = if j = 0 then Scalar.one else Scalar.zero := by
  rw [Grid.get_row, pulse]
  exact Grid.get_ofFn _ _

theorem exists_weights_quickRise : ∃ w,
    quickRise.curve.weights (Scalar.ratio 5 2 : ExactReal) = .ok w ∧ w.length = 3 := by
  have hceil : ⌈toReal (Scalar.ratio 5 2 : ExactReal)⌉₊ = 3 := by
    rw [toReal_ratio, Nat.ceil_eq_iff three_ne_zero]
    norm_num
  have hlag : 0 < toReal (Scalar.ratio 5 2 : ExactReal) := by
    rw [toReal_ratio]
    norm_num
  obtain ⟨w, hw⟩ := SCurve.exists_distributes SCurve.risesToOne_power_real
    (c := (quickRise : UnitHydrograph ExactReal).curve) (by decide) hlag
  refine ⟨w, hw.weights_eq, hw.length_eq.trans ?_⟩
  rw [SCurve.span, hceil]
  rfl

theorem weights_quickRise_zero :
    quickRise.curve.weights (Scalar.zero : ExactReal) = .ok [Scalar.one] :=
  SCurve.weights_of_not_pos _ (Bool.eq_false_iff.2 fun hlt => lt_irrefl _ (lt_iff.1 hlt))

/-- The first node gives out the pulse within three steps, the second one at once. -/
theorem routing_adds_nothing_pulse : RisesToOne (SCurve.power : ExactReal → ExactReal) ∧
    ∃ d, (Component.hydrograph quickRise).Accepts (.tensor (.ofGrid pulse)) fractionalLags
        Settings.standard ⟨2, 3, pulse.rows, false⟩ d ∧
      StrictTimes d.times ∧ ∃ out : Grid [2, 3] ExactReal,
        (Component.hydrograph quickRise).run (.tensor (.ofGrid pulse)) fractionalLags
          Settings.standard = .ok ⟨.ofGrid (Grid.stack [out]), []⟩ ∧
        PassesOn (pulse.row 0) out 0 3 ∧ PassesOn (pulse.row 0) out 1 1 ∧
        out.volume 0 3 = (pulse.row 0).volume 0 3 := by
  have hpower : RisesToOne (SCurve.power : ExactReal → ExactReal) := SCurve.risesToOne_power_real
  obtain ⟨d, haccepts, htimes⟩ := accepts_threeSteps quickRise pulse fractionalLags rfl ⟨_, rfl⟩
  have hstrict : StrictTimes d.times := htimes ▸ strictTimes_ofInt
  have hcurve : (quickRise : UnitHydrograph ExactReal).curve.kind ≠ .custom := by decide
  have hinflow (i : Fin 2) (j : Fin 3) :
      Scalar.le Scalar.zero ((pulse.row 0).get (.nodeTime i j)) = true := by
    rw [get_pulse, le_iff, toReal_zero]
    split_ifs
    · rw [toReal_one]
      exact zero_le_one
    · rw [toReal_zero]
  obtain ⟨hreturns, q, lags, hq, hlags, hpasses⟩ :=
    routing_adds_nothing quickRise hcurve hpower haccepts (by decide) rfl
  obtain rfl : pulse.row 0 = q := (List.cons.inj hq).1
  obtain rfl := Except.ok.inj hlags
  obtain ⟨result, hresult⟩ := hreturns (by decide) (by decide) hstrict
  obtain ⟨out, rfl, hout⟩ := hpasses result hresult
  obtain ⟨w, hw, hfirst⟩ := hout 0 (hinflow 0)
  obtain ⟨w', hw', hlength⟩ := exists_weights_quickRise
  obtain ⟨w'', hw'', hsecond⟩ := hout 1 (hinflow 1)
  obtain rfl : w' = w := Except.ok.inj (hw'.symm.trans hw)
  obtain rfl : [Scalar.one] = w'' := Except.ok.inj (weights_quickRise_zero.symm.trans hw'')
  rw [hlength] at hfirst
  refine ⟨hpower, d, haccepts, hstrict, out, ?_, hfirst, hsecond, hfirst.emptied le_rfl ?_⟩
  · rw [hresult, InputRows.result, Outcome.toTensor, dif_neg (by simp)]
  · intro j hj
    rw [get_pulse, if_neg]
    rintro rfl
    exact absurd hj (by decide)

end UnitHydrograph

end Catchment
