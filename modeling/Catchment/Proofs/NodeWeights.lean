import Catchment.Proofs.NodeArguments
import Catchment.Proofs.PendingShares

/-!
# Weights of nodes

The weights of all nodes are rows of one width, the longest one, filled up with zeros. There is at
least one weight for every lag.
-/
namespace Catchment

variable {K : Type} [Scalar K] {n t : Nat}

theorem increments_eq_zipWith (xs : List K) :
    increments xs = List.zipWith (fun a b => b - a) xs xs.tail := by
  fun_induction increments xs with
  | case1 a b rest ih => exact congrArg ((b - a) :: ·) ih
  | case2 xs hshort => cases xs with
    | nil => rfl
    | cons a rest => cases rest with
      | nil => rfl
      | cons b rest => exact (hshort a b rest rfl).elim

theorem length_increments (xs : List K) : (increments xs).length = xs.length - 1 := by
  rw [increments_eq_zipWith, List.length_zipWith, List.length_tail]
  omega

theorem increments_map_range (f : Nat → K) (n : Nat) :
    increments ((List.range (n + 1)).map f) = (List.range n).map fun k => f (k + 1) - f k := by
  refine List.ext_getElem (by simp [length_increments]) fun k hk hk' => ?_
  simp [increments_eq_zipWith]

theorem SCurve.weights_of_not_pos (c : SCurve K) {lag : K}
    (h : Scalar.lt Scalar.zero lag = false) : c.weights lag = .ok [Scalar.one] := by
  rw [weights, h]
  rfl

theorem SCurve.length_weights_pos {c : SCurve K} {lag : K} {w : List K}
    (h : c.weights lag = .ok w) : 0 < w.length := by
  unfold weights at h
  split at h
  · rw [← Except.ok.inj h]
    exact Nat.zero_lt_one
  · obtain ⟨steps, -, h⟩ := bind_eq_ok.1 h
    obtain ⟨values, hvalues, h⟩ := bind_eq_ok.1 h
    have hlen := (mapM_eq_ok.1 hvalues).length_eq
    rw [List.length_range] at hlen
    rw [← Except.ok.inj h]
    split
    · rw [List.length_map, length_increments]
      omega
    · exact Nat.zero_lt_one

namespace WeightGrid

theorem foldl_max_le_iff {m bound : Nat} {lengths : List Nat} :
    lengths.foldl max m ≤ bound ↔ m ≤ bound ∧ ∀ l ∈ lengths, l ≤ bound := by
  induction lengths generalizing m with
  | nil => simp
  | cons l lengths ih => simp [ih, and_assoc]

/-- The rows hold these weights, each filled up with zeros to the longest. -/
structure Pads (w : WeightGrid n K) (weights : Fin n → List K) : Prop where
  share : ∀ i k, w.share i k = (weights i).getD k Scalar.zero
  width_le_iff : ∀ bound, w.width ≤ bound ↔ ∀ i, (weights i).length ≤ bound

theorem pads_ofRows (rows : List (List K)) : (ofRows rows).Pads rows.get where
  share i k := by
    by_cases hk : k < (ofRows rows).width
    · rw [share_of_lt i hk]
      exact Grid.get_ofFn _ _
    · have hlen : (rows.get i).length ≤ (ofRows rows).width := by
        have h := (foldl_max_le_iff.1 (Nat.le_refl (longest rows))).2
        exact h _ (List.mem_map_of_mem (rows.get_mem i))
      rw [share_of_le i (Nat.not_lt.1 hk), List.getD_eq_default _ _ (by omega)]
  width_le_iff bound := by
    refine foldl_max_le_iff.trans ⟨fun h i => ?_, fun h => ⟨Nat.zero_le _, fun l hl => ?_⟩⟩
    · exact h.2 _ (List.mem_map_of_mem (rows.get_mem i))
    · obtain ⟨row, hrow, rfl⟩ := List.mem_map.1 hl
      obtain ⟨k, hk, rfl⟩ := List.mem_iff_getElem.1 hrow
      exact h ⟨k, hk⟩

namespace Pads

variable {w : WeightGrid n K} {weights : Fin n → List K}

theorem length_le (h : w.Pads weights) (i : Fin n) : (weights i).length ≤ w.width :=
  (h.width_le_iff w.width).1 (Nat.le_refl _) i

theorem share_of_length_le (h : w.Pads weights) {i : Fin n} {k : Nat}
    (hk : (weights i).length ≤ k) : w.share i k = Scalar.zero := by
  rw [h.share, List.getD_eq_default _ _ hk]

end Pads

end WeightGrid

namespace UnitHydrograph

variable {c : SCurve K} {lags : Grid [n] K} {weights : Fin n → List K} {w : WeightGrid n K}

omit [Scalar K] in
/-- The rows of weights are those of the lags at the nodes. -/
theorem getElem_of_forall₂ {α : Type} {R : K → α → Prop} {rows : List α}
    (h : List.Forall₂ R lags.toList rows) (i : Fin n) (hi : i.val < rows.length) :
    R (lags.get (.node i)) rows[i.val] := by
  obtain ⟨hlen, hget⟩ := List.forall₂_iff_get.1 h
  have hcell := List.getElem?_eq_some_iff.1 (lags.getElem?_toList i)
  rw [← hcell.2]
  exact hget i hcell.1 hi

/-- The weights of nodes are found if every lag has weights. -/
theorem weightsFor_eq_ok (hn : 0 < n)
    (h : ∀ i, c.weights (lags.get (.node i)) = .ok (weights i)) :
    ∃ w, weightsFor c lags = .ok w ∧ w.Pads weights := by
  obtain ⟨rows, hrows⟩ : ∃ rows, lags.toList.mapM c.weights = .ok rows := by
    refine exists_mapM_eq_ok.2 fun lag hlag => ?_
    obtain ⟨k, hk, rfl⟩ := List.mem_iff_getElem.1 hlag
    have hkn : k < n := by rwa [lags.length_toList] at hk
    have hcell := (List.getElem?_eq_some_iff.1 (lags.getElem?_toList ⟨k, hkn⟩)).2
    exact ⟨_, (congrArg c.weights hcell).trans (h ⟨k, hkn⟩)⟩
  have hlen : rows.length = n := by rw [← (mapM_eq_ok.1 hrows).length_eq, lags.length_toList]
  subst hlen
  have hweights : weights = rows.get := funext fun i =>
    Except.ok.inj ((h i).symm.trans (getElem_of_forall₂ (mapM_eq_ok.1 hrows) i i.isLt))
  refine ⟨WeightGrid.ofRows rows, ?_, hweights ▸ WeightGrid.pads_ofRows rows⟩
  rw [weightsFor, hrows, ok_bind, dif_pos rfl, if_neg hn.ne']
  rfl

theorem pads_of_weightsFor (h : weightsFor c lags = .ok w) : 0 < n ∧ ∃ weights : Fin n → List K,
    (∀ i, c.weights (lags.get (.node i)) = .ok (weights i)) ∧ w.Pads weights := by
  obtain ⟨rows, hrows, h⟩ := bind_eq_ok.1 h
  split at h
  · rename_i hlen
    subst hlen
    split at h
    · simp at h
    · rename_i hn
      obtain rfl := Except.ok.inj h
      exact ⟨Nat.pos_of_ne_zero hn, rows.get,
        fun i => getElem_of_forall₂ (mapM_eq_ok.1 hrows) i i.isLt, WeightGrid.pads_ofRows rows⟩
  · simp at h

theorem width_pos_of_weightsFor (h : weightsFor c lags = .ok w) : 0 < w.width := by
  obtain ⟨hn, weights, hweights, hpads⟩ := pads_of_weightsFor h
  exact Nat.lt_of_lt_of_le (SCurve.length_weights_pos (hweights ⟨0, hn⟩)) (hpads.length_le _)

end UnitHydrograph

end Catchment
