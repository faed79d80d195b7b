import Catchment.Forcing
import Mathlib

/-!
# Forcing at its own times

At a sample time that another sample follows, either interpolation gives the sample, provided that
the times are finite and increase. What this needs of the numbers is collected in a class.
-/
namespace Catchment

namespace Scalar

/-- A number less itself is zero, which a missing and an infinite number are not. -/
def isFinite {K : Type} [Scalar K] (x : K) : Bool := eq (x - x) zero

end Scalar

open Scalar in
/-- Comparison is an order of the numbers that are not missing, the difference of finite numbers has
the sign that their comparison says, and zero is not changed by a division by a positive number. -/
class OrderedScalar (K : Type) [Scalar K] : Prop where
  lt_eq_false_of_le : ∀ {x y : K}, le x y = true → lt y x = false
  le_eq_false_of_lt : ∀ {x y : K}, lt x y = true → le y x = false
  le_of_lt : ∀ {x y : K}, lt x y = true → le x y = true
  le_self_of_le : ∀ {x y : K}, le x y = true → le x x = true
  zero_lt_one : lt (zero : K) one = true
  le_self_of_isFinite : ∀ {x : K}, isFinite x = true → le x x = true
  sub_pos : ∀ {x y : K}, isFinite x = true → isFinite y = true → lt x y = true →
    lt zero (y - x) = true
  zero_div : ∀ {x y : K}, eq x zero = true → lt zero y = true → eq (x / y) zero = true

/-- Finite times of which each is before all later ones. -/
structure StrictTimes {K : Type} [Scalar K] (times : List K) : Prop where
  finite : ∀ x ∈ times, Scalar.isFinite x = true
  increasing : times.Pairwise fun x y => Scalar.lt x y = true

/-- Bisection finds the place from which a condition fails that holds before it. -/
theorem bisect_eq {holds : Nat → Bool} {lo hi m : Nat} (hlo : lo ≤ m) (hhi : m ≤ hi)
    (hlow : ∀ i, i < m → holds i = true) (hhigh : ∀ i, m ≤ i → i < hi → holds i = false) :
    bisect holds lo hi = m := by
  fun_induction bisect holds lo hi with
  | case1 lo hi h mid hmid ih =>
    have hm : mid < m := by
      by_contra hm
      have := hhigh mid (by omega) (by omega)
      simp [this] at hmid
    exact ih (by omega) hhi hhigh
  | case2 lo hi h mid hmid ih =>
    have hm : m ≤ mid := by
      by_contra hm
      exact hmid (hlow mid (by omega))
    exact ih hlo hm fun i hi hlt => hhigh i hi (by omega)
  | case3 lo hi h => omega

namespace Forcing

variable {K : Type} [Scalar K] {s : Shape}

theorem column_of_lt (f : Forcing s K) {i : Nat} (hi : i < f.columns.size) :
    f.column i = f.columns[i] := by
  have hp := f.paired
  have hmin : min i f.last = i := by simp only [last]; omega
  simp only [column, hmin]

theorem time_of_lt (f : Forcing s K) {i : Nat} (hi : i < f.times.size) : f.time i = f.times[i] := by
  have hmin : min i f.last = i := by simp only [last]; omega
  simp only [time, hmin]

theorem isFinite_time {f : Forcing s K} (h : StrictTimes f.times.toList) {i : Nat}
    (hi : i < f.times.size) : Scalar.isFinite (f.time i) = true := by
  rw [f.time_of_lt hi]
  exact h.finite _ (by simp)

theorem lt_times {f : Forcing s K} (h : StrictTimes f.times.toList) {i j : Nat} (hij : i < j)
    (hj : j < f.times.size) : Scalar.lt (f.time i) (f.time j) = true := by
  have hi : i < f.times.size := Nat.lt_trans hij hj
  rw [f.time_of_lt hi, f.time_of_lt hj]
  exact List.pairwise_iff_getElem.1 h.increasing i j hi hj hij

theorem fields_of_make {f : Forcing s K} {times : List K} {columns : List (Grid s K)}
    (hf : make times columns = .ok f) : f.times = times.toArray ∧ f.columns = columns.toArray := by
  unfold make at hf
  split at hf
  · split at hf
    · split at hf
      · rw [← Except.ok.inj hf]
        exact ⟨rfl, rfl⟩
      · simp [mismatched] at hf
    · simp [mismatched] at hf
  · simp [mismatched] at hf

variable [OrderedScalar K]

theorem unorderedTimes_eq_false {times : List K} (h : StrictTimes times) :
    unorderedTimes times = false := by
  obtain ⟨hfin, hinc⟩ := h
  induction times with
  | nil => rfl
  | cons x times ih => cases times with
    | nil => rfl
    | cons y times =>
      obtain ⟨hx, hinc⟩ := List.pairwise_cons.1 hinc
      have hsub := OrderedScalar.sub_pos (hfin x (by simp)) (hfin y (by simp)) (hx y (by simp))
      rw [unorderedTimes, OrderedScalar.le_eq_false_of_lt hsub,
        ih (fun z hz => hfin z (List.mem_cons_of_mem x hz)) hinc]
      rfl

theorem make_eq_ok {times : List K} {columns : List (Grid s K)} (h : StrictTimes times)
    (hl : columns.length = times.length) (h₀ : 0 < times.length) :
    ∃ f, make times columns = .ok f ∧ f.times = times.toArray ∧ f.columns = columns.toArray := by
  have hu := unorderedTimes_eq_false h
  exact ⟨_, by rw [make, dif_pos hl, dif_pos h₀, dif_pos hu], rfl, rfl⟩

variable {f : Forcing s K}

theorem le_time_self (h : StrictTimes f.times.toList) {i : Nat} (hi : i < f.times.size) :
    Scalar.le (f.time i) (f.time i) = true :=
  OrderedScalar.le_self_of_isFinite (isFinite_time h hi)

theorem before_times (h : StrictTimes f.times.toList) {i j : Nat} (hi : i < f.times.size)
    (hj : j < f.times.size) : Scalar.before (f.time i) (f.time j) = decide (i < j) := by
  have hnan : Scalar.isNaN (f.time j) = false := by simp [Scalar.isNaN, le_time_self h hj]
  rw [Scalar.before, hnan, Bool.false_and, Bool.or_false]
  rcases Nat.lt_trichotomy i j with hij | rfl | hji
  · simp [hij, lt_times h hij hj]
  · simp [OrderedScalar.lt_eq_false_of_le (le_time_self h hi)]
  · have hle := OrderedScalar.le_of_lt (lt_times h hji hi)
    simp [Nat.le_of_lt hji, OrderedScalar.lt_eq_false_of_le hle]

theorem placeBefore_time (h : StrictTimes f.times.toList) {j : Nat} (hj : j < f.times.size) :
    f.placeBefore (f.time j) = j := by
  refine bisect_eq (Nat.zero_le j) (Nat.le_of_lt hj) (fun i hi => ?_) fun i hji hi => ?_
  · simp [before_times h (Nat.lt_trans hi hj) hj, hi]
  · simp [before_times h hi hj, hji]

theorem placeAfter_time (h : StrictTimes f.times.toList) {j : Nat} (hj : j < f.times.size) :
    f.placeAfter (f.time j) = j + 1 := by
  refine bisect_eq (Nat.zero_le _) hj (fun i hi => ?_) fun i hji hi => ?_
  · have hi' : i < f.times.size := by omega
    simp [before_times h hj hi', Nat.le_of_lt_succ hi]
  · have hji' : j < i := by omega
    simp [before_times h hj hi, hji']

theorem clampUnit_eq_zero {x : K} (h : Scalar.eq x Scalar.zero = true) :
    Scalar.clampUnit x = Scalar.zero := by
  obtain ⟨hle, hge⟩ := Bool.and_eq_true_iff.1 h
  have hnan : Scalar.isNaN x = false := by simp [Scalar.isNaN, OrderedScalar.le_self_of_le hle]
  have hmax : Scalar.maximum x Scalar.zero = Scalar.zero := by
    simp [Scalar.maximum, OrderedScalar.lt_eq_false_of_le hle, hnan]
  rw [Scalar.clampUnit, hmax, Scalar.minimum, OrderedScalar.zero_lt_one]
  rfl

theorem eq_zero_zero : Scalar.eq (Scalar.zero : K) Scalar.zero = true := by
  have h := OrderedScalar.le_of_lt (OrderedScalar.zero_lt_one (K := K))
  simp [Scalar.eq, OrderedScalar.le_self_of_le h]

/-- At a sample time that another follows, the value is the sample. -/
theorem value_time (h : StrictTimes f.times.toList) (scheme : Interpolation) {j : Nat}
    (hj : j + 1 < f.times.size) : f.value scheme (f.time j) = f.column j := by
  cases scheme with
  | direct => exact congrArg f.column (placeBefore_time h (by omega))
  | linear =>
    have hlast : f.last ≠ 0 := by simp only [last]; omega
    have hplace : min (f.placeAfter (f.time j) - 1) (f.last - 1) = j := by
      rw [placeAfter_time h (by omega)]
      simp only [last]
      omega
    have hd := OrderedScalar.sub_pos (isFinite_time h (by omega : j < f.times.size))
      (isFinite_time h hj) (lt_times h (Nat.lt_succ_self j) hj)
    have hw := clampUnit_eq_zero
      (OrderedScalar.zero_div (isFinite_time h (by omega : j < f.times.size)) hd)
    simp only [value, linear, hlast, if_false, hplace, hw, eq_zero_zero, if_true]

/-- The value of columns at a time that another follows is the column of that time. -/
theorem value_of_make {times : List K} {columns : List (Grid s K)}
    (hf : make times columns = .ok f) (h : StrictTimes times) (scheme : Interpolation) {j : Nat}
    {time : K} (htime : times[j]? = some time) (hj : j + 1 < times.length)
    (hc : j < columns.length) : f.value scheme time = columns[j] := by
  obtain ⟨htimes, hcolumns⟩ := fields_of_make hf
  have hj' : j + 1 < f.times.size := by simpa [htimes] using hj
  have hc' : j < f.columns.size := by simpa [hcolumns] using hc
  have hvalue := value_time (by rw [htimes]; exact h) scheme hj'
  rw [f.time_of_lt (Nat.lt_of_succ_lt hj'), f.column_of_lt hc'] at hvalue
  obtain ⟨_, rfl⟩ := List.getElem?_eq_some_iff.1 htime
  simpa only [htimes, hcolumns, List.getElem_toArray] using hvalue

end Forcing

end Catchment
