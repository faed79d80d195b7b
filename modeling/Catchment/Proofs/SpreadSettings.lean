import Catchment.Proofs.SpreadMemory

/-!
# Settings of a spread

A unit hydrograph has no states: initial states change no run of it, and a lower bound of states
changes no convolution. The buffer is raised to such a bound like a state, so that there it changes
nothing only while no pending outflow falls below it.
-/
namespace Catchment

variable {K : Type} [Scalar K] {n t : Nat}

def Settings.withMinValue (s : Settings K) (minValue : Option K) : Settings K :=
  { s with minValue }

def RunData.withMinValue (d : RunData n t K) (minValue : Option K) : RunData n t K :=
  { d with settings := d.settings.withMinValue minValue }

theorem RunData.prepare_withMinValue (sig : Signature) (args : RunArguments K) (s : Settings K)
    (minValue : Option K) : prepare sig n t args (s.withMinValue minValue) = (do
      let d ← prepare sig n t args s
      return d.withMinValue minValue) := by
  simp only [prepare, bind_assoc, pure_bind]
  rfl

/-- Without states in the signature nothing is read from the initial states. -/
theorem RunData.prepare_of_no_states {sig : Signature} (hstates : sig.states = [])
    (params states states' : List (String × Nested K)) (s : Settings K) :
    prepare sig n t ⟨params, states⟩ s = prepare sig n t ⟨params, states'⟩ s := by
  simp only [prepare, expandStates, hstates, List.mapM_nil]
  rfl

/-- A bound changes no place of a buffer while no place is raised to it. -/
theorem held_of_above {places steps : Nat} {share flow : Nat → K} {bound : K}
    (habove : ∀ j < steps, ∀ k < places,
      Scalar.maximum (held none places share flow (j + 1) k) bound =
        held none places share flow (j + 1) k)
    {j k : Nat} (hj : j ≤ steps) (hk : k < places) :
    held (some bound) places share flow j k = held none places share flow j k := by
  induction j generalizing k with
  | zero => rfl
  | succ j ih =>
    have hshifted : (if k + 1 < places then held (some bound) places share flow j (k + 1)
        else Scalar.zero) =
        if k + 1 < places then held none places share flow j (k + 1) else Scalar.zero := by
      split
      · exact ih (by omega) ‹_›
      · rfl
    rw [held, ih (by omega) hk, hshifted]
    exact habove j hj k hk

theorem outflow_of_above {width steps : Nat} {share flow : Nat → K} {bound : K}
    (habove : ∀ j < steps, ∀ k < width - 1,
      Scalar.maximum (held none (width - 1) share flow (j + 1) k) bound =
        held none (width - 1) share flow (j + 1) k) {j : Nat} (hj : j ≤ steps) :
    UnitHydrograph.outflow (some bound) width share flow j =
      UnitHydrograph.outflow none width share flow j := by
  unfold UnitHydrograph.outflow
  split
  · rfl
  · rw [held_of_above habove hj (by omega)]

/-- Shares and inflow that are not negative leave no place below zero. -/
theorem held_nonneg {places : Nat} {share flow : Nat → ExactReal} (hshare : ∀ k, 0 ≤ share k)
    (hflow : ∀ j, 0 ≤ flow j) (j k : Nat) : 0 ≤ held none places share flow j k := by
  induction j generalizing k with
  | zero => exact ExactReal.zero_eq.ge
  | succ j ih =>
    rw [held_succ]
    refine add_nonneg ?_ (mul_nonneg (hshare (k + 1)) (hflow j))
    split
    · exact ih (k + 1)
    · exact ExactReal.zero_eq.ge

theorem maximum_eq_left {x bound : ExactReal} (h : bound ≤ x) : Scalar.maximum x bound = x := by
  have hle (hx : x ≤ bound) : bound = x := le_antisymm h hx
  simpa [Scalar.maximum, Scalar.isNaN_eq_false, Scalar.lt] using hle

namespace UnitHydrograph

variable {h : UnitHydrograph K} {d : RunData n t K} {w : WeightGrid n K} {q : Grid [n, t] K}

/-- A bound that raises no place after a step changes no run by the buffer. -/
theorem buffered_withMinValue [OrderedScalar K] (hsolver : d.settings.solver ≠ .adaptive)
    (hstrict : StrictTimes d.times) (ht : 0 < t) (hw : 0 < w.width) {bound : K}
    (habove : ∀ i, ∀ j < t, ∀ k < w.width - 1,
      Scalar.maximum (held none (w.width - 1) (w.share i) (q.series i) (j + 1) k) bound =
        held none (w.width - 1) (w.share i) (q.series i) (j + 1) k) :
    h.buffered w (d.withMinValue (some bound)) q = h.buffered w (d.withMinValue none) q := by
  rw [buffered_eq (d := d.withMinValue (some bound)) hsolver hstrict ht hw,
    buffered_eq (d := d.withMinValue none) hsolver hstrict ht hw]
  congr 3
  refine Grid.ext_get fun c => ?_
  rw [Grid.get_ofFn, Grid.get_ofFn]
  exact outflow_of_above (habove c.head) c.tail.head.isLt.le

/-- In exact arithmetic a bound that is not positive changes no run by the buffer if neither weights
nor inflow are negative. -/
theorem buffered_of_nonneg {h : UnitHydrograph ExactReal} {d : RunData n t ExactReal}
    {w : WeightGrid n ExactReal} {q : Grid [n, t] ExactReal}
    (hsolver : d.settings.solver ≠ .adaptive) (hstrict : StrictTimes d.times) (ht : 0 < t)
    (hw : 0 < w.width) (hweights : ∀ i k, 0 ≤ w.share i k) (hinflow : ∀ i j, 0 ≤ q.series i j)
    {bound : ExactReal} (hbound : bound ≤ 0) :
    h.buffered w (d.withMinValue (some bound)) q = h.buffered w (d.withMinValue none) q :=
  buffered_withMinValue hsolver hstrict ht hw fun i j _ k _ =>
    maximum_eq_left (hbound.trans (held_nonneg (hweights i) (hinflow i) (j + 1) k))

/-- Initial states change no run. -/
theorem run_of_states (h : UnitHydrograph K) (input : Nested K)
    (params states states' : List (String × Nested K)) (s : Settings K) :
    (Component.hydrograph h).run input ⟨params, states⟩ s =
      (Component.hydrograph h).run input ⟨params, states'⟩ s := by
  have hprepare (n t : Nat) : (Component.hydrograph h).prepareFor n t ⟨params, states⟩ s =
      (Component.hydrograph h).prepareFor n t ⟨params, states'⟩ s :=
    RunData.prepare_of_no_states rfl params states states' s
  simp only [Component.run, Component.compute, hprepare]

/-- Initial states and a lower bound of states change no run by convolution. -/
theorem convolution_of_settings (h : UnitHydrograph K) (input : Nested K)
    (params states states' : List (String × Nested K)) (s : Settings K) (minValue : Option K) :
    (Component.hydrograph (h.withMethod .sparse)).run input ⟨params, states⟩ s =
      (Component.hydrograph (h.withMethod .sparse)).run input ⟨params, states'⟩
        (s.withMinValue minValue) := by
  rw [run_of_states _ input params states states']
  have hprepare (n t : Nat) : (Component.hydrograph (h.withMethod .sparse)).prepareFor n t
      ⟨params, states'⟩ (s.withMinValue minValue) = (do
        let d ← (Component.hydrograph (h.withMethod .sparse)).prepareFor n t ⟨params, states'⟩ s
        return d.withMinValue minValue) :=
    RunData.prepare_withMinValue _ _ s minValue
  simp only [Component.run, Component.compute, hprepare, bind_assoc, pure_bind]
  rfl

/-- A bound of 5 raises the pending outflow of the buffer, and with it the outflow. -/
theorem bound_raises_outflow :
    (∃ result, (Component.hydrograph (evenSpread.withMethod .discrete)).run
        (inflow [1, 2, 3, 4]) lagOne .standard = .ok result ∧
      result.rows.toList =
        [Scalar.ratio 1 2, Scalar.ratio 3 2, Scalar.ratio 5 2, Scalar.ratio 7 2]) ∧
    ∃ result, (Component.hydrograph (evenSpread.withMethod .discrete)).run
        (inflow [1, 2, 3, 4]) lagOne (Settings.standard.withMinValue (some 5)) = .ok result ∧
      result.rows.toList = [Scalar.ratio 1 2, 6, Scalar.ratio 13 2, 7] :=
  ⟨exists_ok_of_check (by decide +kernel), exists_ok_of_check (by decide +kernel)⟩

end UnitHydrograph

end Catchment
