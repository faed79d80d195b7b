import Catchment.Proofs.IndependentNodes
import Catchment.Proofs.SpreadMethods

/-!
# Spreads of single nodes

The weights of a node are filled up with zeros to the longest weights of a run. As long as the
inflow of the node is finite, a place of the buffer beyond its own weights holds zero, and a zero
weight adds nothing. So a node with finite inflow returns, up to the sign of a zero, what a single
instance returns for it. A zero times an infinite or a missing inflow is missing.
-/
namespace Catchment

variable {K : Type} [Scalar K] {n t : Nat}

section

open Scalar NeutralZeros

variable [NeutralZeros K] {share flow : Nat → K} {own wide steps : Nat}
  (hshare : ∀ k, own ≤ k → share k = zero) (hflow : ∀ m < steps, isFinite (flow m) = true)

include hshare hflow

theorem zero_share {k m : Nat} (hk : own ≤ k) (hm : m < steps) :
    same (share k * flow m) zero = true := by
  rw [hshare k hk]
  exact zero_mul (hflow m hm)

/-- A place whose shares are all zero holds zero. -/
theorem held_beyond (places : Nat) {j k : Nat} (hj : j ≤ steps) (hk : own ≤ k + 1) :
    same (held none places share flow j k) zero = true := by
  induction j generalizing k with
  | zero => exact same_refl _
  | succ j ih =>
    have hdue : same (held none places share flow j k) zero = true := ih (by omega) hk
    have hshifted : same (if k + 1 < places then held none places share flow j (k + 1) else zero)
        zero = true := by
      split
      · exact ih (by omega) (by omega)
      · exact same_refl _
    have hchange := same_trans (same_sub hshifted hdue) zero_sub_zero
    have hgain := zero_share hshare hflow hk (by omega : j < steps)
    exact same_trans (same_add_of_same_zero _
      (same_trans (same_add_of_same_zero _ hgain) hchange)) hdue

/-- More places than the own weights need make no difference to what the needed ones hold. -/
theorem held_same (hle : own ≤ wide) {j k : Nat} (hj : j ≤ steps) (hk : k < own - 1) :
    same (held none (wide - 1) share flow j k) (held none (own - 1) share flow j k) = true := by
  induction j generalizing k with
  | zero => exact same_refl _
  | succ j ih =>
    have hdue := ih (by omega : j ≤ steps) hk
    have hshifted : same
        (if k + 1 < wide - 1 then held none (wide - 1) share flow j (k + 1) else zero)
        (if k + 1 < own - 1 then held none (own - 1) share flow j (k + 1) else zero) = true := by
      by_cases hown : k + 1 < own - 1
      · rw [if_pos hown, if_pos (by omega)]
        exact ih (by omega) hown
      · -- the next place is the first that only the wide buffer has
        rw [if_neg hown]
        split
        · exact held_beyond hshare hflow (wide - 1) (by omega) (by omega)
        · exact same_refl _
    exact same_add hdue (same_add (same_sub hshifted hdue) (same_refl _))

theorem outflow_same (hle : own ≤ wide) {j : Nat} (hj : j < steps) :
    same (UnitHydrograph.outflow none wide share flow j)
      (UnitHydrograph.outflow none own share flow j) = true := by
  unfold UnitHydrograph.outflow
  by_cases hwide : wide ≤ 1
  · rw [if_pos hwide, if_pos (by omega)]
    exact same_refl _
  · rw [if_neg hwide]
    split
    · exact same_add_of_same_zero _
        (held_beyond hshare hflow (wide - 1) (by omega) (by omega))
    · exact same_add (same_refl _) (held_same hshare hflow hle (by omega) (by omega))

theorem weightedSum_same (hle : own ≤ wide) {j : Nat} (hj : j < steps) :
    same (weightedSum wide share flow j) (weightedSum own share flow j) = true :=
  same_sum_range (by omega) fun k hk hkj =>
    zero_share hshare hflow (by omega) (by omega)

theorem routedAt_same (method : SpreadMethod) (hle : own ≤ wide) {j : Nat} (hj : j < steps) :
    same (UnitHydrograph.routedAt method wide share flow j)
      (UnitHydrograph.routedAt method own share flow j) = true := by
  cases method with
  | sparse => exact weightedSum_same hshare hflow hle hj
  | discrete => exact outflow_same hshare hflow hle hj

end

omit [Scalar K] in
theorem Grid.get_pick_atNode (lags : Grid [n] K) (i : Fin n) (k : Fin 1) :
    (lags.pick (.atNode i)).get (.node k) = lags.get (.node i) := by
  simp [Index.atNode]

theorem Grid.series_pick_alongNode (q : Grid [n, t] K) (i : Fin n) (k : Fin 1) :
    (q.pick (.alongNode i)).series k = q.series i := by
  funext j
  simp only [series, get_pick]
  rfl

omit [Scalar K] in
theorem Grid.get_stack_single {s : Shape} (g : Grid s K) (j : Index s) :
    (Grid.stack [g]).get (.cons 0 j) = g.get j :=
  get_ofRows _ _ _

theorem WeightGrid.Pads.width_eq {w : WeightGrid 1 K} {weights : List K}
    (h : w.Pads fun _ => weights) : w.width = weights.length :=
  Nat.le_antisymm ((h.width_le_iff _).2 fun _ => Nat.le_refl _) (h.length_le 0)

namespace UnitHydrograph

variable [OrderedScalar K] [NeutralZeros K] {h : UnitHydrograph K} {d : RunData n t K}
  {q : Grid [n, t] K} {lags : Grid [n] K} {out : Outcome n t K}

/-- What a node returns among others is the same as what it returns alone, if its inflow is
finite. -/
theorem run_atNode (hsolver : d.settings.solver ≠ .adaptive) (hmin : d.settings.minValue = none)
    (hstrict : StrictTimes d.times) (ht : 0 < t) (hlags : d.params.lookup h.lag = some lags)
    (hout : h.run d [q] = .ok out) {i : Fin n}
    (hfinite : ∀ j, Scalar.isFinite (q.get (.nodeTime i j)) = true) :
    ∃ row single, out = ⟨[row], []⟩ ∧
      h.run (d.atNode i) [q.pick (.alongNode i)] = .ok ⟨[single], []⟩ ∧
      ∀ j, Scalar.same (row.get (.nodeTime i j)) (single.get (.nodeTime 0 j)) = true := by
  have hlag : (d.atNode i).params.lookup h.lag = some (lags.pick (.atNode i)) := by
    rw [RunData.atNode, lookup_map_snd, hlags]
    rfl
  have hrun := run_eq_routed (q := q) hsolver hmin hstrict ht hlags h.method
  have hsingle := run_eq_routed (d := d.atNode i) (q := q.pick (.alongNode i)) hsolver hmin hstrict
    ht hlag h.method
  obtain ⟨w, hw, hrow⟩ := bind_eq_ok.1 (hrun.symm.trans hout)
  obtain ⟨-, weights, hweights, hpads⟩ := pads_of_weightsFor hw
  have hown (k : Fin 1) : h.curve.weights ((lags.pick (.atNode i)).get (.node k)) =
      .ok (weights i) := by
    rw [lags.get_pick_atNode]
    exact hweights i
  obtain ⟨w', hw', hpads'⟩ := weightsFor_eq_ok Nat.zero_lt_one hown
  have hshare : w'.share 0 = w.share i := funext fun k =>
    (hpads'.share 0 k).trans (hpads.share i k).symm
  rw [hw', ok_bind] at hsingle
  refine ⟨_, _, (Except.ok.inj hrow).symm, hsingle, fun j => ?_⟩
  rw [Grid.get_ofFn, Grid.get_ofFn]
  show Scalar.same (routedAt h.method w.width (w.share i) (q.series i) j)
    (routedAt h.method w'.width (w'.share 0) ((q.pick (.alongNode i)).series 0) j) = true
  rw [hshare, q.series_pick_alongNode i 0, hpads'.width_eq]
  refine routedAt_same (fun k hk => hpads.share_of_length_le hk) (fun m hm => ?_) h.method
    (hpads.length_le i) j.isLt
  rw [q.series_of_lt i hm]
  exact hfinite ⟨m, hm⟩

theorem compute_atNode {args : RunArguments K} {s : Settings K} (hsolver : s.solver ≠ .adaptive)
    (hmin : s.minValue = none) (ht : 0 < t)
    (hstrict : ∀ times, s.timesFor t = .ok times → StrictTimes times.1)
    (hout : (Component.hydrograph h).compute args s [q] = .ok out) {i : Fin n}
    (hfinite : ∀ j, Scalar.isFinite (q.get (.nodeTime i j)) = true) :
    ∃ row single, out = ⟨[row], []⟩ ∧
      (Component.hydrograph h).compute (args.atNode s i) s.withoutClasses
        [q.pick (.alongNode i)] = .ok ⟨[single], []⟩ ∧
      ∀ j, Scalar.same (row.get (.nodeTime i j)) (single.get (.nodeTime 0 j)) = true := by
  obtain ⟨d, hd, hrun⟩ := bind_eq_ok.1 hout
  obtain ⟨rfl, -⟩ := RunData.prepare_eq_ok hd
  obtain ⟨lags, hlags, -⟩ := lags_of_prepare hd
  have htimes := (RunData.prepare_eq_ok_iff.1 hd).1
  obtain ⟨row, single, hrow, hsingle, hsame⟩ :=
    run_atNode hsolver hmin (hstrict _ htimes) ht hlags hrun hfinite
  have hd' : (Component.hydrograph h).prepareFor 1 t (args.atNode d.settings i)
      d.settings.withoutClasses = .ok (d.atNode i) := RunData.prepare_atNode rfl hd i
  exact ⟨row, single, hrow, by rw [Component.compute, hd', ok_bind, hsingle], hsame⟩

/-- A node with finite inflow returns, whatever the others are given, what a single instance returns
for its slice of the inflow and its lag. -/
theorem nodes_independent {input : Nested K} {args : RunArguments K} {s : Settings K}
    (hsolver : s.solver ≠ .adaptive) (hmin : s.minValue = none) (ht : 0 < t)
    (hstrict : ∀ times, s.timesFor t = .ok times → StrictTimes times.1)
    {x : Grid [1, n, t] K} (hinput : input.toTensor = .ok (.ofGrid x)) {result : RunResult K}
    (hrun : (Component.hydrograph h).run input args s = .ok result) {i : Fin n}
    (hfinite : ∀ j, Scalar.isFinite (x.get (.cons 0 (.nodeTime i j))) = true) :
    ∃ (y : Grid [1, n, t] K) (z : Grid [1, t] K), result = ⟨.ofGrid y, []⟩ ∧
      (Component.hydrograph h).run (.tensor (.ofGrid (x.nodeSlice i))) (args.atNode s i)
        s.withoutClasses = .ok ⟨.ofGrid z, []⟩ ∧
      ∀ j, Scalar.same (y.get (.cons 0 (.nodeTime i j))) (z.get (.nodeTime 0 j)) = true := by
  have hreads : InputRows.Reads ⟨n, t, [x.row 0], false⟩ input := ⟨_, hinput, rfl⟩
  have hreads' : InputRows.Reads ⟨1, t, [(x.row 0).pick (.alongNode i)], true⟩
      (.tensor (.ofGrid (x.nodeSlice i))) := ⟨_, rfl, InputRows.ofTensor?_nodeSlice x i⟩
  obtain ⟨hcount, out, hout, rfl⟩ := (Component.run_eq_ok_of_reads hreads).1 hrun
  obtain ⟨row, single, rfl, hsingle, hsame⟩ := compute_atNode hsolver hmin ht hstrict hout
    fun j => (congrArg _ (x.get_row 0 _)).trans (hfinite j)
  refine ⟨Grid.stack [row], Grid.stack [single.reshape (by simp)], ?_,
    (Component.run_eq_ok_of_reads hreads').2 ⟨rfl, _, hsingle, ?_⟩, fun j => ?_⟩
  · rw [InputRows.result, Outcome.toTensor, dif_neg (by simp)]
  · rw [InputRows.result, Outcome.toTensor, dif_pos ⟨rfl, rfl⟩]
    rfl
  · rw [Grid.get_stack_single]
    have hz : (Grid.stack [single.reshape (u := [t]) (by simp)]).get (.nodeTime 0 j) =
        single.get (.nodeTime 0 j) :=
      (Grid.get_stack_single _ _).trans (Grid.get_reshape_drop _ _ _)
    exact (congrArg _ hz).trans (hsame j)

def noneAndOne : RunArguments Float where
  params := [("lag", .list [.entry (.real Scalar.zero), .entry (.real Scalar.one)])]
  states := []

def flood : Grid [1, 2, 4] Float :=
  Grid.ofFn fun c =>
    if c.tail.head.val = 0 ∧ c.tail.tail.head.val = 0 then Scalar.infinity else Scalar.one

/-- The first node has a single weight. Alone it returns its inflow; next to a node with two weights
it also adds a zero times its infinite inflow. -/
theorem padding_spreads_infinity (method : SpreadMethod) :
    (∃ result, (Component.hydrograph (evenSpread.withMethod method)).run
        (.tensor (.ofGrid flood)) noneAndOne .standard = .ok result ∧
      (result.rows.toList.map Scalar.isNaN)[1]? = some true) ∧
    ∃ result, (Component.hydrograph (evenSpread.withMethod method)).run
        (.tensor (.ofGrid (flood.nodeSlice 0))) (noneAndOne.atNode .standard (0 : Fin 2))
        .standard = .ok result ∧
      result.rows.toList = [Scalar.infinity, 1, 1, 1] := by
  cases method with
  | sparse => exact ⟨exists_ok_of_check (by decide +kernel), exists_ok_of_check (by decide +kernel)⟩
  | discrete =>
    exact ⟨exists_ok_of_check (by decide +kernel), exists_ok_of_check (by decide +kernel)⟩

end UnitHydrograph

end Catchment
