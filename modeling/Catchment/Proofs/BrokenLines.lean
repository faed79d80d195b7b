import Catchment.Proofs.ExactArithmetic
import Catchment.Proofs.NodeArguments

/-!
# Broken lines through samples

In exact arithmetic the two schemes of interpolation are the functions that they are meant to be. The
direct scheme gives the first sample at or after a time. The linear scheme gives the broken line
through the samples, constant on either side of them. That line is a sum of ramps, one for every two
neighbouring samples, so it is continuous.
-/
namespace Catchment

noncomputable def ramp (a b x : ℝ) : ℝ := min (max ((x - a) / (b - a)) 0) 1

section

variable {a b x : ℝ}

theorem continuous_ramp (a b : ℝ) : Continuous (ramp a b) := by
  unfold ramp
  fun_prop

theorem ramp_of_le (h : a < b) (hx : x ≤ a) : ramp a b x = 0 := by
  have hneg : (x - a) / (b - a) ≤ 0 := div_nonpos_of_nonpos_of_nonneg (by linarith) (by linarith)
  rw [ramp, max_eq_right hneg, min_eq_left zero_le_one]

theorem ramp_of_ge (h : a < b) (hx : b ≤ x) : ramp a b x = 1 := by
  have hone : 1 ≤ (x - a) / (b - a) := (one_le_div (by linarith)).2 (by linarith)
  rw [ramp, min_eq_right (hone.trans (le_max_left _ _))]

theorem ramp_of_mem (h : a < b) (ha : a ≤ x) (hb : x ≤ b) : ramp a b x = (x - a) / (b - a) := by
  have hpos : 0 ≤ (x - a) / (b - a) := div_nonneg (by linarith) (by linarith)
  have hone : (x - a) / (b - a) ≤ 1 := (div_le_one (by linarith)).2 (by linarith)
  rw [ramp, max_eq_left hpos, min_eq_left hone]

theorem monotone_ramp (h : a < b) : Monotone (ramp a b) := by
  intro x y hxy
  have hle : (x - a) / (b - a) ≤ (y - a) / (b - a) :=
    div_le_div_of_nonneg_right (by linarith) (by linarith)
  exact min_le_min_right 1 (max_le_max_right 0 hle)

end

/-- Through the points of values at times up to a last one, and constant on either side. -/
noncomputable def brokenLine (last : Nat) (τ v : Nat → ℝ) (x : ℝ) : ℝ :=
  v 0 + ∑ j ∈ Finset.range last, (v (j + 1) - v j) * ramp (τ j) (τ (j + 1)) x

section

variable {last : Nat} {τ v : Nat → ℝ} {x y : ℝ} {i : Nat}

theorem continuous_brokenLine (last : Nat) (τ v : Nat → ℝ) : Continuous (brokenLine last τ v) :=
  continuous_const.add (continuous_finsetSum _ fun _ _ => continuous_const.mul (continuous_ramp _ _))

/-- Where the ramps before a place have risen and those after it have not, only its own counts. -/
theorem brokenLine_eq (hi : i < last)
    (hlow : ∀ j < i, ramp (τ j) (τ (j + 1)) x = 1)
    (hhigh : ∀ j, i < j → j < last → ramp (τ j) (τ (j + 1)) x = 0) :
    brokenLine last τ v x = v i + (v (i + 1) - v i) * ramp (τ i) (τ (i + 1)) x := by
  have hrisen : ∑ j ∈ Finset.range i, (v (j + 1) - v j) * ramp (τ j) (τ (j + 1)) x = v i - v 0 := by
    rw [← Finset.sum_range_sub]
    refine Finset.sum_congr rfl fun j hj => ?_
    rw [hlow j (Finset.mem_range.1 hj), mul_one]
  have hflat : ∑ j ∈ Finset.Ico (i + 1) last, (v (j + 1) - v j) * ramp (τ j) (τ (j + 1)) x = 0 := by
    refine Finset.sum_eq_zero fun j hj => ?_
    obtain ⟨hij, hj⟩ := Finset.mem_Ico.1 hj
    rw [hhigh j hij hj, mul_zero]
  rw [brokenLine, ← Finset.sum_range_add_sum_Ico _ (Nat.succ_le_of_lt hi), Finset.sum_range_succ,
    hrisen, hflat]
  ring

variable (hτ : ∀ i < last, τ i < τ (i + 1))

include hτ

theorem le_of_increasing {j : Nat} (hij : i ≤ j) (hj : j ≤ last) : τ i ≤ τ j := by
  induction j, hij using Nat.le_induction with
  | base => exact le_rfl
  | succ j _ ih => exact (ih (by omega)).trans (hτ j (by omega)).le

/-- Between two neighbouring times, and beyond them if they are at an end, the line is given by one
ramp. -/
theorem brokenLine_around (hi : i < last) (hlow : i = 0 ∨ τ i ≤ x)
    (hhigh : i + 1 = last ∨ x ≤ τ (i + 1)) :
    brokenLine last τ v x = v i + (v (i + 1) - v i) * ramp (τ i) (τ (i + 1)) x := by
  refine brokenLine_eq hi (fun j hj => ?_) fun j hij hj => ?_
  · refine ramp_of_ge (hτ j (by omega)) ((le_of_increasing hτ (by omega) hi.le).trans ?_)
    exact hlow.resolve_left (by omega)
  · refine ramp_of_le (hτ j hj) (le_trans (hhigh.resolve_left (by omega)) ?_)
    exact le_of_increasing hτ (by omega) hj.le

theorem brokenLine_of_le (hx : x ≤ τ 0) : brokenLine last τ v x = v 0 := by
  rcases Nat.eq_zero_or_pos last with rfl | hlast
  · simp [brokenLine]
  · rw [brokenLine_around hτ hlast (.inl rfl) (.inr (hx.trans (hτ 0 hlast).le)),
      ramp_of_le (hτ 0 hlast) hx]
    ring

theorem brokenLine_of_ge (hx : τ last ≤ x) : brokenLine last τ v x = v last := by
  rcases Nat.eq_zero_or_pos last with rfl | hlast
  · simp [brokenLine]
  · obtain ⟨i, rfl⟩ : ∃ i, last = i + 1 := ⟨last - 1, by omega⟩
    have hi : i < i + 1 := Nat.lt_succ_self i
    rw [brokenLine_around hτ hi (.inr ((hτ i hi).le.trans hx)) (.inl rfl), ramp_of_ge (hτ i hi) hx]
    ring

/-- Between two neighbouring times the line is a convex combination. -/
theorem brokenLine_of_mem (hi : i < last) (hlow : τ i ≤ x) (hhigh : x ≤ τ (i + 1)) :
    brokenLine last τ v x = (1 - (x - τ i) / (τ (i + 1) - τ i)) * v i +
      (x - τ i) / (τ (i + 1) - τ i) * v (i + 1) := by
  rw [brokenLine_around hτ hi (.inr hlow) (.inr hhigh), ramp_of_mem (hτ i hi) hlow hhigh]
  ring

theorem brokenLine_mono (hi : i < last) (hv : v i ≤ v (i + 1)) (hlow : τ i ≤ x) (hxy : x ≤ y)
    (hhigh : y ≤ τ (i + 1)) : brokenLine last τ v x ≤ brokenLine last τ v y := by
  rw [brokenLine_around hτ hi (.inr hlow) (.inr (hxy.trans hhigh)),
    brokenLine_around hτ hi (.inr (hlow.trans hxy)) (.inr hhigh)]
  exact add_le_add_right (mul_le_mul_of_nonneg_left (monotone_ramp (hτ i hi) hxy) (sub_nonneg.2 hv)) _

theorem brokenLine_anti (hi : i < last) (hv : v (i + 1) ≤ v i) (hlow : τ i ≤ x) (hxy : x ≤ y)
    (hhigh : y ≤ τ (i + 1)) : brokenLine last τ v y ≤ brokenLine last τ v x := by
  rw [brokenLine_around hτ hi (.inr hlow) (.inr (hxy.trans hhigh)),
    brokenLine_around hτ hi (.inr (hlow.trans hxy)) (.inr hhigh)]
  exact add_le_add_right
    (mul_le_mul_of_nonpos_left (monotone_ramp (hτ i hi) hxy) (sub_nonpos.2 hv)) _

end

theorem Grid.getElem_toList {α : Type} {n : Nat} (g : Grid [n] α) {i : Nat} (hi : i < n)
    {h : i < g.toList.length} : g.toList[i] = g.get (.node ⟨i, hi⟩) :=
  Option.some.inj ((List.getElem?_eq_getElem h).symm.trans (g.getElem?_toList ⟨i, hi⟩))

namespace Forcing

open ExactArithmetic

variable {K : Type} [Scalar K] {s : Shape}

/-- The first of the two samples between which the linear scheme reads. -/
def place (f : Forcing s K) (t : K) : Nat := min (f.placeAfter t - 1) (f.last - 1)

def progress (f : Forcing s K) (t : K) (i : Nat) : K :=
  Scalar.clampUnit ((t - f.time i) / (f.time (i + 1) - f.time i))

variable [ExactArithmetic K] {f : Forcing s K} {t : K}

theorem before_iff {x y : K} :
    Scalar.before x y = true ↔ toReal x < toReal y := by
  rw [Scalar.before, Scalar.isNaN_eq_false y, Bool.false_and, Bool.or_false, lt_iff]

theorem time_lt_time (f : Forcing s K) {i j : Nat} (hij : i < j) (hj : j < f.times.size) :
    toReal (f.time i) < toReal (f.time j) :=
  lt_iff.1 (lt_times (strictTimes_of_unorderedTimes f.ordered) hij hj)

theorem time_lt_next (f : Forcing s K) (i : Nat) (hi : i < f.last) :
    toReal (f.time i) < toReal (f.time (i + 1)) :=
  f.time_lt_time (Nat.lt_succ_self i) (by simp only [last] at hi; omega)

theorem placeBefore_eq {m : Nat} (hm : m ≤ f.times.size)
    (hlow : ∀ j < m, toReal (f.time j) < toReal t)
    (hhigh : ∀ j, m ≤ j → j < f.times.size → toReal t ≤ toReal (f.time j)) :
    f.placeBefore t = m :=
  bisect_eq (Nat.zero_le m) hm (fun j hj => before_iff.2 (hlow j hj)) fun j hmj hj =>
    Bool.eq_false_iff.2 fun h => (before_iff.1 h).not_ge (hhigh j hmj hj)

theorem placeAfter_eq {m : Nat} (hm : m ≤ f.times.size)
    (hlow : ∀ j < m, toReal (f.time j) ≤ toReal t)
    (hhigh : ∀ j, m ≤ j → j < f.times.size → toReal t < toReal (f.time j)) :
    f.placeAfter t = m := by
  refine bisect_eq (Nat.zero_le m) hm (fun j hj => ?_) fun j hmj hj => ?_
  · rw [Bool.not_eq_true', Bool.eq_false_iff, ne_eq, before_iff, not_lt]
    exact hlow j hj
  · rw [Bool.not_eq_false', before_iff]
    exact hhigh j hmj hj

theorem placeAfter_spec (f : Forcing s K) (t : K) : f.placeAfter t ≤ f.times.size ∧
    (∀ j < f.placeAfter t, toReal (f.time j) ≤ toReal t) ∧
    ∀ j, f.placeAfter t ≤ j → j < f.times.size → toReal t < toReal (f.time j) := by
  have hex : ∃ m, m = f.times.size ∨ toReal t < toReal (f.time m) := ⟨_, .inl rfl⟩
  have hm : Nat.find hex ≤ f.times.size := Nat.find_min' hex (.inl rfl)
  have hlow (j : Nat) (hj : j < Nat.find hex) : toReal (f.time j) ≤ toReal t :=
    not_lt.1 (not_or.1 (Nat.find_min hex hj)).2
  have hhigh (j : Nat) (hmj : Nat.find hex ≤ j) (hj : j < f.times.size) :
      toReal t < toReal (f.time j) := by
    have hfound := (Nat.find_spec hex).resolve_left (by omega)
    rcases hmj.eq_or_lt with rfl | hlt
    · exact hfound
    · exact hfound.trans (f.time_lt_time hlt hj)
  rw [placeAfter_eq hm hlow hhigh]
  exact ⟨hm, hlow, hhigh⟩

/-- A time falls between the two samples at its place, unless it is beyond an end of the axis. -/
theorem place_spec (f : Forcing s K) (t : K) (hlast : 0 < f.last) : f.place t < f.last ∧
    (f.place t = 0 ∨ toReal (f.time (f.place t)) ≤ toReal t) ∧
    (f.place t + 1 = f.last ∨ toReal t < toReal (f.time (f.place t + 1))) := by
  obtain ⟨hsize, hlow, hhigh⟩ := f.placeAfter_spec t
  have hcount : f.times.size = f.last + 1 := by simp only [last] at hlast ⊢; omega
  have hplace : f.place t = min (f.placeAfter t - 1) (f.last - 1) := rfl
  refine ⟨by omega, ?_, ?_⟩
  · rcases Nat.eq_zero_or_pos (f.placeAfter t) with hzero | hpos
    · exact .inl (by omega)
    · exact .inr (hlow _ (by omega))
  · by_cases hend : f.place t + 1 = f.last
    · exact .inl hend
    · exact .inr (hhigh _ (by omega) (by omega))

theorem toReal_clampUnit (x : K) : toReal (Scalar.clampUnit x) = min (max (toReal x) 0) 1 := by
  have hmax : toReal (Scalar.maximum x Scalar.zero) = max (toReal x) 0 := by
    rw [Scalar.maximum, Scalar.isNaN_eq_false, Bool.or_false]
    split
    · rename_i h
      rw [lt_iff, toReal_zero] at h
      exact (max_eq_left h.le).symm
    · rename_i h
      rw [lt_iff, toReal_zero, not_lt] at h
      rw [toReal_zero, max_eq_right h]
  rw [Scalar.clampUnit, Scalar.minimum, Scalar.isNaN_eq_false, Bool.or_false, ← hmax]
  split
  · rename_i h
    rw [lt_iff, toReal_one] at h
    exact (min_eq_left h.le).symm
  · rename_i h
    rw [lt_iff, toReal_one, not_lt] at h
    rw [toReal_one, min_eq_right h]

theorem toReal_progress (f : Forcing s K) (t : K) (i : Nat) : toReal (f.progress t i) =
    ramp (toReal (f.time i)) (toReal (f.time (i + 1))) (toReal t) := by
  rw [progress, toReal_clampUnit, toReal_div, toReal_sub, toReal_sub, ramp]

/-- The shortcuts at the ends of an interval give what the combination gives. -/
theorem toReal_linear_place (f : Forcing s K) (t : K) (hlast : f.last ≠ 0) (c : Index s) :
    toReal ((f.linear t).get c) = toReal ((f.column (f.place t)).get c) +
      (toReal ((f.column (f.place t + 1)).get c) - toReal ((f.column (f.place t)).get c)) *
        toReal (f.progress t (f.place t)) := by
  have hlinear : f.linear t =
      if Scalar.eq (f.progress t (f.place t)) Scalar.zero then f.column (f.place t)
      else if Scalar.eq (f.progress t (f.place t)) Scalar.one then f.column (f.place t + 1)
      else (f.column (f.place t)).zipWith (fun x y => x * (Scalar.one - f.progress t (f.place t)) +
        y * f.progress t (f.place t)) (f.column (f.place t + 1)) := if_neg hlast
  rw [hlinear]
  split
  · rename_i hzero
    rw [eq_iff.1 hzero, toReal_zero, mul_zero, add_zero]
  · split
    · rename_i hone
      rw [eq_iff.1 hone, toReal_one, mul_one, add_sub_cancel]
    · rw [Grid.get_zipWith, toReal_add, toReal_mul, toReal_mul, toReal_sub, toReal_one]
      ring

/-- The linear scheme reads the broken line through the samples. -/
theorem toReal_linear (f : Forcing s K) (t : K) (c : Index s) :
    toReal ((f.linear t).get c) = brokenLine f.last (fun i => toReal (f.time i))
      (fun i => toReal ((f.column i).get c)) (toReal t) := by
  rcases Nat.eq_zero_or_pos f.last with hzero | hlast
  · rw [linear, if_pos hzero, hzero, brokenLine, Finset.sum_range_zero, add_zero]
  · obtain ⟨hplace, hlow, hhigh⟩ := f.place_spec t hlast
    rw [f.toReal_linear_place t hlast.ne' c, toReal_progress,
      brokenLine_around f.time_lt_next hplace hlow (hhigh.imp_right le_of_lt)]

omit [ExactArithmetic K] in
theorem column_of_last_le (f : Forcing s K) {i : Nat} (hi : f.last ≤ i) :
    f.column i = f.column f.last := by
  simp only [column, Nat.min_eq_right hi, Nat.min_self]

/-- The columns of an array are read along its last axis. -/
theorem columns?_ofGrid {α : Type} {n : Nat} (g : Grid (s ++ [n]) α) :
    (Tensor.ofGrid g).columns? = some ⟨s, g.columns⟩ := by
  have hcast (s' : Shape) (m : Nat) (e : s ++ [n] = s' ++ [m]) :
      (⟨s', (e ▸ g : Grid (s' ++ [m]) α).columns⟩ : ColumnList α) = ⟨s, g.columns⟩ := by
    obtain ⟨rfl, hn⟩ := List.append_inj' e rfl
    obtain rfl : n = m := List.singleton_inj.1 hn
    rfl
  have hne : (Tensor.ofGrid g).shape ≠ [] := by simp [Tensor.ofGrid]
  rw [Tensor.columns?, dif_neg hne]
  exact congrArg some (hcast _ _ _)

section

variable {n : Nat} {times : Grid [n + 1] K}

theorem strictTimes_toList (hinc : StrictMono fun i => toReal (times.get (.node i))) :
    StrictTimes times.toList where
  finite x _ := by
    rw [Scalar.isFinite, eq_iff]
    exact toReal_injective (by simp)
  increasing := by
    rw [List.pairwise_iff_getElem]
    intro i j hi hj hij
    have hlength := times.length_toList
    rw [lt_iff, times.getElem_toList (by omega), times.getElem_toList (by omega)]
    exact hinc hij

/-- An array with increasing times for its last axis is accepted, and is read as it stands. -/
theorem forcingOf_eq_ok {given axis : Nested K} {values : Grid (s ++ [n + 1]) K}
    (hgiven : given.toTensor = .ok (.ofGrid values)) (haxis : axis.toTensor = .ok (.ofGrid times))
    (hinc : StrictMono fun i => toReal (times.get (.node i))) :
    ∃ f : Forcing s K, forcingOf given axis = .ok ⟨s, f⟩ ∧ f.last = n ∧
      (∀ i : Fin (n + 1), f.time i = times.get (.node i)) ∧
      ∀ i : Fin (n + 1), f.column i = values.column i := by
  have hlength : values.columns.length = times.toList.length := by
    rw [times.length_toList, Grid.columns, List.length_ofFn]
  obtain ⟨f, hf, htimes, hcolumns⟩ := make_eq_ok (strictTimes_toList hinc) hlength
    (by rw [times.length_toList]; exact Nat.succ_pos n)
  have hsize : f.times.size = n + 1 := by rw [htimes, List.size_toArray, times.length_toList]
  refine ⟨f, ?_, by rw [last, hsize, Nat.add_sub_cancel], fun i => ?_, fun i => ?_⟩
  · simp only [forcingOf, hgiven, haxis, ok_bind, columns?_ofGrid]
    rw [if_neg (by simp [Tensor.ofGrid])]
    exact bind_eq_ok.2 ⟨f, hf, rfl⟩
  · have hi : i.val < f.times.size := by rw [hsize]; exact i.isLt
    rw [f.time_of_lt hi]
    simp only [htimes, List.getElem_toArray, times.getElem_toList i.isLt]
  · have hi : i.val < f.columns.size := by rw [f.paired, hsize]; exact i.isLt
    rw [f.column_of_lt hi]
    simp only [hcolumns, List.getElem_toArray, Grid.columns, List.getElem_ofFn, Fin.eta]

end

/-- The value of the first sample at or after a time, and of the last sample beyond the end. -/
structure FirstAtOrAfter {n : Nat} (ts : Fin (n + 1) → ℝ) (column : Fin (n + 1) → Grid s K)
    (g : K → Grid s K) : Prop where
  found (t : K) (i : Fin (n + 1)) (hi : toReal t ≤ ts i) (hfirst : ∀ j < i, ts j < toReal t) :
    g t = column i
  beyond (t : K) (h : ∀ i, ts i < toReal t) : g t = column (Fin.last n)

/-- Constant on either side of the samples, and between two neighbouring ones their convex
combination by the part of the time that has passed: continuous everywhere, and rising or falling
from each sample to the next. -/
structure LineThrough {n : Nat} (ts : Fin (n + 1) → ℝ) (column : Fin (n + 1) → Grid s K)
    (g : K → Grid s K) : Prop where
  before (t : K) (h : toReal t ≤ ts 0) : g t = column 0
  after (t : K) (h : ts (Fin.last n) ≤ toReal t) : g t = column (Fin.last n)
  between (t : K) (i : Fin n) (hlow : ts i.castSucc ≤ toReal t) (hhigh : toReal t < ts i.succ)
    (w : ℝ) (hw : w = (toReal t - ts i.castSucc) / (ts i.succ - ts i.castSucc)) :
    0 ≤ w ∧ w < 1 ∧ ∀ c, toReal ((g t).get c) =
      (1 - w) * toReal ((column i.castSucc).get c) + w * toReal ((column i.succ).get c)
  continuous (c : Index s) : ∃ h : ℝ → ℝ, Continuous h ∧ ∀ t, toReal ((g t).get c) = h (toReal t)
  rising (i : Fin n) (c : Index s)
    (hv : toReal ((column i.castSucc).get c) ≤ toReal ((column i.succ).get c)) (t t' : K)
    (hlow : ts i.castSucc ≤ toReal t) (hle : toReal t ≤ toReal t') (hhigh : toReal t' ≤ ts i.succ) :
    toReal ((g t).get c) ≤ toReal ((g t').get c)
  falling (i : Fin n) (c : Index s)
    (hv : toReal ((column i.succ).get c) ≤ toReal ((column i.castSucc).get c)) (t t' : K)
    (hlow : ts i.castSucc ≤ toReal t) (hle : toReal t ≤ toReal t') (hhigh : toReal t' ≤ ts i.succ) :
    toReal ((g t').get c) ≤ toReal ((g t).get c)

section

variable {n : Nat} {ts : Fin (n + 1) → ℝ} {column : Fin (n + 1) → Grid s K} (hlast : f.last = n)
  (htime : ∀ i : Fin (n + 1), toReal (f.time i) = ts i)
  (hcolumn : ∀ i : Fin (n + 1), f.column i = column i)

include hlast htime hcolumn

theorem direct_firstAtOrAfter : FirstAtOrAfter ts column f.direct := by
  have hsize : f.times.size = n + 1 := by have := f.nonempty; simp only [last] at hlast; omega
  have htime' (j : Nat) (hj : j < n + 1) : toReal (f.time j) = ts ⟨j, hj⟩ := htime ⟨j, hj⟩
  constructor
  · intro t i hi hfirst
    rw [direct, ← hcolumn i]
    refine congrArg f.column (placeBefore_eq (by omega) (fun j hj => ?_) fun j hij hj => ?_)
    · rw [htime' j (by omega)]
      exact hfirst ⟨j, by omega⟩ hj
    · refine hi.trans ?_
      rw [← htime i]
      rcases hij.eq_or_lt with heq | hlt
      · rw [heq]
      · exact (f.time_lt_time hlt hj).le
  · intro t h
    have hplace : f.placeBefore t = n + 1 := by
      refine placeBefore_eq (by omega) (fun j hj => ?_) fun j hij hj => absurd hj (by omega)
      rw [htime' j hj]
      exact h _
    rw [direct, hplace, ← hcolumn (Fin.last n), Fin.val_last, ← hlast]
    exact f.column_of_last_le (Nat.le_succ _)

theorem linear_lineThrough : LineThrough ts column f.linear := by
  have hlow (i : Fin n) : toReal (f.time i) = ts i.castSucc := htime i.castSucc
  have hhigh (i : Fin n) : toReal (f.time (i + 1)) = ts i.succ := htime i.succ
  have hlowColumn (i : Fin n) : f.column i = column i.castSucc := hcolumn i.castSucc
  have hhighColumn (i : Fin n) : f.column (i + 1) = column i.succ := hcolumn i.succ
  have hlt (i : Fin n) : i.val < f.last := by rw [hlast]; exact i.isLt
  constructor
  case before =>
    intro t h
    refine Grid.ext_get fun c => toReal_injective ?_
    rw [toReal_linear, brokenLine_of_le f.time_lt_next ((htime 0).symm ▸ h), ← hcolumn 0]
    rfl
  case after =>
    intro t h
    refine Grid.ext_get fun c => toReal_injective ?_
    rw [toReal_linear, brokenLine_of_ge f.time_lt_next, hlast, ← hcolumn (Fin.last n)]
    · rfl
    · rw [hlast]
      exact (htime (Fin.last n)).symm ▸ h
  case between =>
    rintro t i hlt' hgt w rfl
    have hpos : 0 < ts i.succ - ts i.castSucc := sub_pos.2 (hlt'.trans_lt hgt)
    refine ⟨div_nonneg (sub_nonneg.2 hlt') hpos.le, (div_lt_one hpos).2 (by linarith), fun c => ?_⟩
    rw [toReal_linear, brokenLine_of_mem f.time_lt_next (hlt i) ((hlow i).symm ▸ hlt')
      ((hhigh i).symm ▸ hgt.le), hlow, hhigh, hlowColumn, hhighColumn]
  case continuous =>
    intro c
    exact ⟨_, continuous_brokenLine f.last _ _, fun t => f.toReal_linear t c⟩
  case rising =>
    intro i c hv t t' h h' h''
    rw [← hlowColumn, ← hhighColumn] at hv
    rw [toReal_linear, toReal_linear]
    exact brokenLine_mono f.time_lt_next (hlt i) hv ((hlow i).symm ▸ h) h' ((hhigh i).symm ▸ h'')
  case falling =>
    intro i c hv t t' h h' h''
    rw [← hlowColumn, ← hhighColumn] at hv
    rw [toReal_linear, toReal_linear]
    exact brokenLine_anti f.time_lt_next (hlt i) hv ((hlow i).symm ▸ h) h' ((hhigh i).symm ▸ h'')

end

/-- In exact arithmetic, over an axis of increasing times, the direct scheme gives the first sample at
or after a time and the linear scheme the line through the samples. The two samples between which the
line is read are neighbours on the axis, and their times differ. -/
theorem schemes_follow_samples {n : Nat} {given axis : Nested K} {values : Grid (s ++ [n + 1]) K}
    {times : Grid [n + 1] K} (hgiven : given.toTensor = .ok (.ofGrid values))
    (haxis : axis.toTensor = .ok (.ofGrid times))
    (hinc : StrictMono fun i => toReal (times.get (.node i))) :
    ∃ f : Forcing s K, forcingOf given axis = .ok ⟨s, f⟩ ∧
      FirstAtOrAfter (fun i => toReal (times.get (.node i))) values.column (f.value .direct) ∧
      LineThrough (fun i => toReal (times.get (.node i))) values.column (f.value .linear) ∧
      ∀ t, 0 < n → ∃ i : Fin n, f.place t = i ∧ f.time i = times.get (.node i.castSucc) ∧
        f.time (i + 1) = times.get (.node i.succ) ∧ toReal (f.time (i + 1) - f.time i) ≠ 0 := by
  obtain ⟨f, hf, hlast, htime, hcolumn⟩ := forcingOf_eq_ok hgiven haxis hinc
  have htimes (i : Fin (n + 1)) : toReal (f.time i) = toReal (times.get (.node i)) :=
    congrArg toReal (htime i)
  refine ⟨f, hf, direct_firstAtOrAfter hlast htimes hcolumn,
    linear_lineThrough hlast htimes hcolumn, fun t hn => ?_⟩
  obtain ⟨hplace, -⟩ := f.place_spec t (by omega)
  have hnext := f.time_lt_next _ hplace
  rw [hlast] at hplace
  refine ⟨⟨f.place t, hplace⟩, rfl, htime (Fin.castSucc ⟨_, hplace⟩),
    htime (Fin.succ ⟨_, hplace⟩), ?_⟩
  rw [toReal_sub]
  exact (sub_pos.2 hnext).ne'

noncomputable def unevenTimes : Grid [3] ExactReal :=
  Grid.ofFn fun i => Scalar.ofInt (![0, 1, 3] i.head)

noncomputable def peakValues : Grid [3] ExactReal :=
  Grid.ofFn fun i => Scalar.ofInt (![2, 4, 0] i.head)

theorem peak_interpolated : ∃ f : Forcing [] ExactReal,
    forcingOf (.tensor (.ofGrid peakValues)) (.tensor (.ofGrid unevenTimes)) = .ok ⟨[], f⟩ ∧
      (f.value .direct (Scalar.ratio 1 2)).get .nil = Scalar.ofInt 4 ∧
      (f.value .direct (Scalar.ofInt 5)).get .nil = Scalar.ofInt 0 ∧
      (f.value .linear (Scalar.ofInt 2)).get .nil = Scalar.ofInt 2 ∧
      (f.value .linear (Scalar.ofInt (-1))).get .nil = Scalar.ofInt 2 := by
  have htime (i : Fin 3) : toReal (unevenTimes.get (.node i)) = (![0, 1, 3] i : Int) := by
    rw [unevenTimes, Grid.get_ofFn, toReal_ofInt]
    rfl
  have hvalue (i : Fin 3) : (peakValues.column (s := []) i).get .nil =
      Scalar.ofInt (![2, 4, 0] i) := by
    rw [Grid.get_column]
    exact Grid.get_ofFn _ _
  have hlastTime : (![0, 1, 3] : Fin 3 → Int) 2 = 3 := rfl
  have hlastValue : (![2, 4, 0] : Fin 3 → Int) 2 = 0 := rfl
  have hinc : StrictMono fun i => toReal (unevenTimes.get (.node i)) := by
    simp only [htime, Fin.strictMono_iff_lt_succ, Fin.forall_fin_two]
    norm_num [hlastTime]
  have hgiven : (Nested.tensor (.ofGrid peakValues)).toTensor = .ok (.ofGrid peakValues) := rfl
  have haxis : (Nested.tensor (.ofGrid unevenTimes)).toTensor = .ok (.ofGrid unevenTimes) := rfl
  obtain ⟨f, hf, hdirect, hlinear, -⟩ := schemes_follow_samples (s := []) hgiven haxis hinc
  simp only [htime] at hdirect hlinear
  refine ⟨f, hf, ?_, ?_, toReal_injective ?_, ?_⟩
  · rw [hdirect.found _ 1 (by norm_num) (by simp), hvalue]
    rfl
  · rw [hdirect.beyond _ (by norm_num [Fin.forall_fin_succ]), hvalue]
    rfl
  · rw [(hlinear.between _ 1 (by norm_num) (by norm_num [hlastTime]) _ rfl).2.2 .nil, hvalue, hvalue]
    norm_num [hlastTime, hlastValue]
  · rw [hlinear.before _ (by norm_num), hvalue]
    rfl

end Forcing

end Catchment
