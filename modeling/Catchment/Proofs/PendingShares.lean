import Catchment.UnitHydrograph
import Catchment.Proofs.NodeSteps

/-!
# Pending shares

A run by a buffer is followed place by place: a place takes over what is due one step later and
gains its share of the inflow. The outflow of a node is its first share at once and what the first
place holds; the outflow by convolution is a sum over the inflow so far.
-/
namespace Catchment

variable {K : Type} [Scalar K] {n t : Nat}

/-- The weight of a node after some steps, zero from the width on. -/
def WeightGrid.share (w : WeightGrid n K) (i : Fin n) (k : Nat) : K :=
  if h : k < w.width then w.weights.get (.nodeTime i ⟨k, h⟩) else Scalar.zero

/-- The numbers of a node at the times of a row, zero after the last one. -/
def Grid.series (q : Grid [n, t] K) (i : Fin n) (j : Nat) : K :=
  if h : j < t then q.get (.nodeTime i ⟨j, h⟩) else Scalar.zero

theorem WeightGrid.share_of_lt {w : WeightGrid n K} (i : Fin n) {k : Nat} (h : k < w.width) :
    w.share i k = w.weights.get (.nodeTime i ⟨k, h⟩) := dif_pos h

theorem WeightGrid.share_of_le {w : WeightGrid n K} (i : Fin n) {k : Nat} (h : w.width ≤ k) :
    w.share i k = Scalar.zero := dif_neg (Nat.not_lt.2 h)

theorem Grid.series_of_lt (q : Grid [n, t] K) (i : Fin n) {j : Nat} (h : j < t) :
    q.series i j = q.get (.nodeTime i ⟨j, h⟩) := dif_pos h

/-- The first weights times the inflow at and before a time, latest inflow first. -/
def weightedSum (count : Nat) (share flow : Nat → K) (j : Nat) : K :=
  Scalar.sum ((List.range (min count (j + 1))).map fun k => share k * flow (j - k))

/-- What a place of a buffer holds after some steps: what the next place held before, and its share
of the inflow. -/
def held (minValue : Option K) (places : Nat) (share flow : Nat → K) : Nat → Nat → K
  | 0, _ => Scalar.zero
  | j + 1, k =>
    let due := held minValue places share flow j k
    let shifted := if k + 1 < places then held minValue places share flow j (k + 1)
      else Scalar.zero
    raiseTo minValue (due + (shifted - due + share (k + 1) * flow j))

theorem foldl_range_if (f : Nat → K) (count j : Nat) (total : K) :
    (List.range count).foldl (fun total k => if k ≤ j then total + f k else total) total =
      ((List.range (min count (j + 1))).map f).foldl (· + ·) total := by
  induction count with
  | zero => simp
  | succ count ih =>
    rw [List.range_succ, List.foldl_append, ih]
    by_cases h : count ≤ j
    · have hmin : min count (j + 1) = count := by omega
      have hmin' : min (count + 1) (j + 1) = count + 1 := by omega
      rw [hmin, hmin', List.range_succ]
      simp [h]
    · have hmin : min (count + 1) (j + 1) = min count (j + 1) := by omega
      simp [hmin, h]

theorem get_addFrom_delayed (total : Grid [n, t] K) (w : WeightGrid n K) (q : Grid [n, t] K)
    (k : Fin w.width) (i : Fin n) (j : Fin t) :
    (UnitHydrograph.addFrom total k (UnitHydrograph.delayed w q k)).get (.nodeTime i j) =
      if (k : Nat) ≤ j then total.get (.nodeTime i j) + w.share i k * q.series i (j - k)
      else total.get (.nodeTime i j) := by
  refine (Grid.get_ofFn _ _).trans ?_
  by_cases h : (k : Nat) ≤ j
  · refine (dif_pos h).trans ((congrArg (_ + ·) (Grid.get_ofFn _ _)).trans ?_)
    rw [if_pos h, w.share_of_lt i k.isLt, q.series_of_lt i (by omega)]
    rfl
  · rw [if_neg h]
    exact dif_neg h

/-- The loop over the weights adds up, at each place, the shares that reach it. -/
theorem get_convolve (w : WeightGrid n K) (q : Grid [n, t] K) (i : Fin n) (j : Fin t) :
    (UnitHydrograph.convolve w q).get (.nodeTime i j) =
      weightedSum w.width (w.share i) (q.series i) j := by
  have hloop (ks : List (Fin (min w.width t))) (total : Grid [n, t] K) :
      (ks.foldl (fun total (k : Fin (min w.width t)) => UnitHydrograph.addFrom total k
          (UnitHydrograph.delayed w q (k.castLE (Nat.min_le_left _ _)))) total).get
          (.nodeTime i j) =
        (ks.map Fin.val).foldl (fun x (k : Nat) =>
          if k ≤ j then x + w.share i k * q.series i (j - k) else x)
          (total.get (.nodeTime i j)) := by
    induction ks generalizing total with
    | nil => rfl
    | cons k ks ih =>
      rw [List.foldl_cons, ih, List.map_cons, List.foldl_cons]
      exact congrArg (List.foldl _ · _)
        (get_addFrom_delayed total w q (k.castLE (Nat.min_le_left _ _)) i j)
  have hcut : min (min w.width t) (j + 1) = min w.width (j + 1) := by omega
  rw [UnitHydrograph.convolve, hloop, List.map_coe_finRange_eq_range, foldl_range_if, hcut,
    Grid.get_replicate]
  rfl

def bufferChange (w : WeightGrid n K) (q : Grid [n] K) (u : Grid [w.width - 1, n] K) :
    Grid [w.width - 1, n] K :=
  Grid.ofFn fun c =>
    (if h : c.head.val + 1 < w.width - 1 then u.get (.cons ⟨c.head + 1, h⟩ c.tail)
      else Scalar.zero) - u.get c + w.share c.tail.head (c.head + 1) * q.get c.tail

theorem checkedRate_bufferRate (w : WeightGrid n K) (inflow : K → Grid [n] K)
    (u : Grid [w.width - 1, n] K) (time : K) :
    checkedRate (UnitHydrograph.bufferRate w inflow) u time =
      .ok (bufferChange w (inflow time) u) := by
  have hshape (g : Grid [w.width - 1, n] K) :
      (Tensor.ofGrid g).asShape? [w.width - 1, n] = some g := dif_pos rfl
  rw [checkedRate, UnitHydrograph.bufferRate, ok_bind, hshape]
  refine congrArg Except.ok (Grid.ext_get fun c => ?_)
  have hlt : c.head.val + 1 < w.width := by have := c.head.isLt; omega
  rw [bufferChange, Grid.get_ofFn, Grid.get_ofFn, w.share_of_lt _ hlt]
  rfl

def bufferAt (minValue : Option K) (w : WeightGrid n K) (q : Grid [n, t] K) (j : Nat) :
    Grid [w.width - 1, n] K :=
  Grid.ofFn fun c =>
    held minValue (w.width - 1) (w.share c.tail.head) (q.series c.tail.head) j c.head

theorem advanceOnce_bufferAt (minValue : Option K) (w : WeightGrid n K) (q : Grid [n, t] K)
    {inflow : K → Grid [n] K} {time : K} (j : Fin t)
    (hinflow : inflow time = q.column (s := [n]) j) :
    advanceOnce minValue (UnitHydrograph.bufferRate w inflow) (bufferAt minValue w q j) time =
      .ok (bufferAt minValue w q (j + 1)) := by
  refine advanceOnce_eq_ok.2 ⟨_, checkedRate_bufferRate w inflow _ time, Grid.ext_get fun c => ?_⟩
  have hseries : (q.column (s := [n]) j).get c.tail = q.series c.tail.head j := by
    rw [Grid.get_column, q.series_of_lt _ j.isLt]
    rfl
  rw [get_raise, Grid.get_zipWith, bufferChange, hinflow]
  simp only [bufferAt, Grid.get_ofFn, hseries, held]
  rfl

namespace UnitHydrograph

variable {h : UnitHydrograph K} {d : RunData n t K} {w : WeightGrid n K} {q : Grid [n, t] K}

theorem get_headD_stateRows {m : Nat} (hm : 0 < m) (columns : List (Grid [m, n] K))
    (missing : Grid [n, t] K) (c : Index [n, t]) (hc : c.tail.head.val < columns.length) :
    ((stateRows m t columns).headD missing).get c =
      (columns[c.tail.head.val]).get (.cons ⟨0, hm⟩ (.node c.head)) := by
  obtain ⟨k, rfl⟩ : ∃ k, m = k + 1 := ⟨m - 1, by omega⟩
  rw [stateRows, List.ofFn_succ, List.headD_cons]
  refine (Grid.get_ofFn _ _).trans ?_
  show ((columns.toArray[c.tail.head.val]?).map _).getD _ = _
  rw [List.getElem?_toArray, List.getElem?_eq_getElem hc]
  rfl

/-- The outflow of a node: the first share at once, and what the first place holds. -/
def outflow (minValue : Option K) (width : Nat) (share flow : Nat → K) (j : Nat) : K :=
  if width ≤ 1 then share 0 * flow j
  else share 0 * flow j + held minValue (width - 1) share flow j 0

theorem get_immediate (hw : 0 < w.width) (c : Index [n, t]) :
    (immediate w q).get c = w.share c.head 0 * q.series c.head c.tail.head := by
  rw [immediate, w.share_of_lt c.head hw, q.series_of_lt c.head c.tail.head.isLt]
  exact (Grid.get_ofFn _ _).trans (dif_pos hw)

variable [OrderedScalar K]

theorem marches_bufferAt {scheme : Interpolation} {f : Forcing [n] K}
    (hf : Forcing.make d.times (q.columns (s := [n])) = .ok f) (hstrict : StrictTimes d.times)
    (minValue : Option K) :
    Marches minValue (bufferRate w (f.value scheme)) (Grid.replicate Scalar.zero) d.times
      (List.ofFn fun j : Fin t => bufferAt minValue w q j) where
  length := by rw [List.length_ofFn, d.times_length]
  head v hv := by
    rw [List.head?_eq_getElem?] at hv
    obtain ⟨hj, rfl⟩ := List.getElem?_eq_some_iff.1 hv
    refine Grid.ext_get fun c => ?_
    rw [List.getElem_ofFn, bufferAt, Grid.get_ofFn, Grid.get_replicate, held]
  step j v u time hv hu htime := by
    obtain ⟨hj, rfl⟩ := List.getElem?_eq_some_iff.1 hv
    obtain ⟨hj', rfl⟩ := List.getElem?_eq_some_iff.1 hu
    have hlt : j + 1 < t := by simpa using hj'
    have hc : j < (q.columns (s := [n])).length := by simpa [Grid.columns] using hj
    have hvalue := Forcing.value_of_make hf hstrict scheme htime
      (by rw [d.times_length]; exact hlt) hc
    rw [List.getElem_ofFn, List.getElem_ofFn]
    refine advanceOnce_bufferAt minValue w q ⟨j, Nat.lt_of_succ_lt hlt⟩ (hvalue.trans ?_)
    simp [Grid.columns]

/-- The run by a buffer, node by node. -/
theorem buffered_eq (hsolver : d.settings.solver ≠ .adaptive) (hstrict : StrictTimes d.times)
    (ht : 0 < t) (hw : 0 < w.width) :
    h.buffered w d q = .ok ⟨[Grid.ofFn fun c => outflow d.settings.minValue w.width
      (w.share c.head) (q.series c.head) c.tail.head], []⟩ := by
  rw [buffered, if_neg hsolver]
  by_cases hnarrow : w.width ≤ 1
  · rw [if_pos hnarrow, pure_eq_ok]
    congr 3
    refine Grid.ext_get fun c => ?_
    rw [get_immediate hw, Grid.get_ofFn, outflow, if_pos hnarrow]
  · have hcount : (q.columns (s := [n])).length = d.times.length := by
      simp [Grid.columns, d.times_length]
    obtain ⟨f, hf, -⟩ := Forcing.make_eq_ok hstrict hcount (by rw [d.times_length]; exact ht)
    have hpath : advance d.settings (bufferRate w (f.value d.settings.interpolation))
        (Grid.replicate Scalar.zero) d.times =
        .ok ⟨List.ofFn fun j : Fin t => bufferAt d.settings.minValue w q j, []⟩ :=
      (advance_eq_ok hsolver).2 ⟨marches_bufferAt hf hstrict d.settings.minValue, rfl⟩
    rw [if_neg hnarrow, hf, ok_bind, hpath, ok_bind, pure_eq_ok]
    congr 3
    refine Grid.ext_get fun c => ?_
    rw [Grid.get_zipWith, get_immediate hw, get_headD_stateRows (by omega) _ _ c (by simp),
      List.getElem_ofFn, bufferAt, Grid.get_ofFn, Grid.get_ofFn, outflow, if_neg hnarrow]
    rfl

end UnitHydrograph

end Catchment
