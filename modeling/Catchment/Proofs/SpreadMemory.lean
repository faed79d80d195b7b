import Catchment.Proofs.SpreadMethods

/-!
# Memory of spreading

The convolution at a time reads as many of the last inflows as the longest weights have steps,
whatever the inflow was before; in exact arithmetic so does the buffer, and each node reads no more
than its own weights need. In doubles the buffer only forgets an inflow by taking it away again,
which neither a missing nor a very large one survives.
-/
namespace Catchment

variable {K : Type} [Scalar K] {n t : Nat}

theorem weightedSum_congr {count : Nat} (share : Nat → K) {flow flow' : Nat → K} {j : Nat}
    (h : ∀ m, m ≤ j → j < m + count → flow m = flow' m) :
    weightedSum count share flow j = weightedSum count share flow' j := by
  refine congrArg Scalar.sum (List.map_congr_left fun k hk => ?_)
  have hlt := List.mem_range.1 hk
  rw [h (j - k) (Nat.sub_le j k) (by omega)]

theorem Grid.series_congr {q q' : Grid [n, t] K} {i : Fin n} {j : Fin t} {count m : Nat}
    (h : ∀ m : Fin t, m ≤ j → j.val < m + count → q.get (.nodeTime i m) = q'.get (.nodeTime i m))
    (hmj : m ≤ j) (hjm : j < m + count) : q.series i m = q'.series i m := by
  have hm : m < t := Nat.lt_of_le_of_lt hmj j.isLt
  rw [q.series_of_lt i hm, q'.series_of_lt i hm]
  exact h ⟨m, hm⟩ hmj hjm

namespace UnitHydrograph

variable {h : UnitHydrograph K} {d : RunData n t K} {q q' : Grid [n, t] K} {lags : Grid [n] K}
  {out out' : Outcome n t K}

theorem convolve_congr (w : WeightGrid n K) {i : Fin n} {j : Fin t}
    (hq : ∀ m : Fin t, m ≤ j → j.val < m + w.width →
      q.get (.nodeTime i m) = q'.get (.nodeTime i m)) :
    (convolve w q).get (.nodeTime i j) = (convolve w q').get (.nodeTime i j) := by
  rw [get_convolve, get_convolve]
  exact weightedSum_congr _ fun m hmj hjm => Grid.series_congr hq hmj hjm

/-- What the convolution returns at a time depends on the last inflows of the node only, as many as
the longest weights of the run have steps. -/
theorem convolution_memory (hlags : d.params.lookup h.lag = some lags)
    (hout : (h.withMethod .sparse).run d [q] = .ok out)
    (hout' : (h.withMethod .sparse).run d [q'] = .ok out') {count : Nat}
    (hcount : ∀ i weights, h.curve.weights (lags.get (.node i)) = .ok weights →
      weights.length ≤ count)
    {i : Fin n} {j : Fin t} (hq : ∀ m : Fin t, m ≤ j → j.val < m + count →
      q.get (.nodeTime i m) = q'.get (.nodeTime i m)) :
    ∃ row row', out = ⟨[row], []⟩ ∧ out' = ⟨[row'], []⟩ ∧
      row.get (.nodeTime i j) = row'.get (.nodeTime i j) := by
  rw [run_withMethod hlags, bind_eq_ok] at hout hout'
  obtain ⟨w, hw, hrow⟩ := hout
  obtain ⟨w', hw', hrow'⟩ := hout'
  obtain rfl : w = w' := Except.ok.inj (hw.symm.trans hw')
  obtain ⟨-, weights, hweights, hpads⟩ := pads_of_weightsFor hw
  have hwidth : w.width ≤ count := (hpads.width_le_iff count).2 fun i => hcount i _ (hweights i)
  exact ⟨_, _, (Except.ok.inj hrow).symm, (Except.ok.inj hrow').symm,
    convolve_congr w fun m hmj hjm => hq m hmj (by omega)⟩

/-- In exact arithmetic either method reads no more of the last inflows of a node than its own
weights have steps. -/
theorem exact_memory [ExactOrder K] [ExactSums K] [OrderedScalar K]
    (hsolver : d.settings.solver ≠ .adaptive) (hmin : d.settings.minValue = none)
    (hstrict : StrictTimes d.times) (ht : 0 < t) (hlags : d.params.lookup h.lag = some lags)
    {method : SpreadMethod} (hout : (h.withMethod method).run d [q] = .ok out)
    (hout' : (h.withMethod method).run d [q'] = .ok out') {i : Fin n} {weights : List K}
    (hweights : h.curve.weights (lags.get (.node i)) = .ok weights) {j : Fin t}
    (hq : ∀ m : Fin t, m ≤ j → j.val < m + weights.length →
      q.get (.nodeTime i m) = q'.get (.nodeTime i m)) :
    ∃ row row', out = ⟨[row], []⟩ ∧ out' = ⟨[row'], []⟩ ∧
      row.get (.nodeTime i j) = row'.get (.nodeTime i j) := by
  have hn : 0 < n := Nat.zero_lt_of_lt i.isLt
  rw [run_eq_ok_iff_spread hsolver hmin hstrict hn ht hlags] at hout hout'
  obtain ⟨all, hall, rfl⟩ := hout
  obtain ⟨all', hall', rfl⟩ := hout'
  obtain rfl : all = all' :=
    funext fun i => Except.ok.inj ((hall i).symm.trans (hall' i))
  obtain rfl : all i = weights := Except.ok.inj ((hall i).symm.trans hweights)
  refine ⟨_, _, rfl, rfl, ?_⟩
  rw [spread, spread, Grid.get_ofFn, Grid.get_ofFn]
  exact weightedSum_congr _ fun m hmj hjm => Grid.series_congr hq hmj hjm

def lagOne : RunArguments Float where
  params := [("lag", .entry (.real Scalar.one))]
  states := []

/-- The inflow of a single instance. -/
def inflow (xs : List Float) : Nested Float :=
  .list [.list (xs.map fun x => .entry (.real x))]

/-- With weights of two steps the buffer still holds a missing inflow four steps later; the
convolution returns it twice. -/
theorem buffer_keeps_missing :
    (∃ result, (Component.hydrograph (evenSpread.withMethod .discrete)).run
        (inflow [Scalar.nan, 0, 0, 0, 0]) lagOne .standard = .ok result ∧
      result.rows.toList.map Scalar.isNaN = [true, true, true, true, true]) ∧
    ∃ result, (Component.hydrograph (evenSpread.withMethod .sparse)).run
        (inflow [Scalar.nan, 0, 0, 0, 0]) lagOne .standard = .ok result ∧
      result.rows.toList.map Scalar.isNaN = [true, true, false, false, false] :=
  ⟨exists_ok_of_check (by decide +kernel), exists_ok_of_check (by decide +kernel)⟩

/-- A large inflow swallows the share of the next one, which the convolution returns a step after
the large one has left. -/
theorem buffer_loses_small :
    (∃ result, (Component.hydrograph (evenSpread.withMethod .discrete)).run
        (inflow [Scalar.ofInt (10 ^ 20), 1, 0, 0]) lagOne .standard = .ok result ∧
      result.rows.toList.drop 2 = [0, 0]) ∧
    ∃ result, (Component.hydrograph (evenSpread.withMethod .sparse)).run
        (inflow [Scalar.ofInt (10 ^ 20), 1, 0, 0]) lagOne .standard = .ok result ∧
      result.rows.toList.drop 2 = [Scalar.ratio 1 2, 0] :=
  ⟨exists_ok_of_check (by decide +kernel), exists_ok_of_check (by decide +kernel)⟩

end UnitHydrograph

end Catchment
