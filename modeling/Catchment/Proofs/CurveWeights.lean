import Catchment.Proofs.ExactArithmetic
import Catchment.Proofs.NodeWeights

/-!
# Weights of a curve

In exact arithmetic the weights of a curve sum to one. Those of a built-in curve share a pulse out:
the curve rises from 0 to 1 over the lag, or over twice the lag, so that its increments are not
negative and are their own shares.
-/
namespace Catchment

section

attribute [local instance] ExactSums.addCommGroup

variable {K : Type} [Scalar K] [ExactSums K]

theorem sum_addEights {totals : List K} (htotals : totals.length = 8) (xs : List K) :
    (addEights totals xs).1.sum + (addEights totals xs).2.sum = totals.sum + xs.sum := by
  fun_induction addEights totals xs with
  | case1 totals xs hshort => rfl
  | case2 totals xs hlong ih =>
    have hlen : totals.length = (xs.take 8).length := by simp; omega
    rw [ih (by rw [List.length_zipWith, ← hlen, htotals, min_self]),
      ← List.sum_add_sum_eq_sum_zipWith_of_length_eq _ _ hlen, add_assoc,
      List.sum_take_add_sum_drop]

theorem sum_of_addEights {xs totals rest : List K} (hlong : ¬xs.length < 8)
    (h : addEights (xs.take 8) (xs.drop 8) = (totals, rest)) :
    totals.sum + rest.sum = xs.sum := by
  have hsum := sum_addEights (List.length_take_of_le (Nat.not_lt.1 hlong)) (xs.drop 8)
  rwa [h, List.sum_take_add_sum_drop] at hsum

/-- In which order numbers are added makes no difference. -/
theorem pairwiseSum_eq_sum (xs : List K) : pairwiseSum xs = Scalar.sum xs := by
  fun_induction pairwiseSum xs with
  | case1 xs hshort => rfl
  | case2 xs hlong hsmall a b c d e f g h rest heq =>
    rw [Scalar.sum_eq, ← sum_of_addEights hlong heq, Scalar.foldl_add_eq]
    simp only [List.sum_cons, List.sum_nil, add_zero, add_assoc]
  | case3 xs hlong hsmall totals rest hne heq =>
    rw [Scalar.sum_eq, Scalar.sum_eq, List.sum_append, sum_of_addEights hlong heq]
  | case4 xs hlong hlarge middle ihfirst ihsecond =>
    rw [ihfirst, ihsecond, Scalar.sum_eq, Scalar.sum_eq, Scalar.sum_eq, List.sum_take_add_sum_drop]

theorem sum_increments (f : Nat → K) (n : Nat) :
    Scalar.sum ((List.range n).map fun k => f (k + 1) - f k) = f n - f 0 := by
  rw [Scalar.sum_eq]
  induction n with
  | zero => exact (sub_self (f 0)).symm
  | succ n ih =>
    rw [List.range_succ, List.map_append, List.sum_append, ih, List.map_singleton,
      List.sum_singleton, add_comm, sub_add_sub_cancel]

end

namespace SCurve

section

variable {K : Type} [Scalar K]

/-- The power that the built-in curves are made of. -/
def power (x : K) : K := Scalar.pow x (Scalar.ratio 5 2)

/-- The value of a built-in curve at a time that is not negative, from the time in lags. -/
def rise (c : SCurve K) (x : K) : K :=
  match c with
  | half _ => if Scalar.lt Scalar.one x then Scalar.one else power x
  | full _ =>
    if Scalar.lt (Scalar.ofInt 2) x then Scalar.one
    else if Scalar.lt Scalar.one x then
      Scalar.one - Scalar.ratio 1 2 * power (Scalar.abs (Scalar.ofInt 2 - x))
    else Scalar.ratio 1 2 * power (Scalar.abs x)
  | custom .. => Scalar.zero

def reach : SCurve K → Nat
  | half _ => 1
  | full _ => 2
  | custom .. => 0

/-- The increments over the time steps that the response spans. -/
def shares (c : SCurve K) (lag : K) : Except Fault (List K) := do
  let n := (max (← c.steps lag) 1).toNat
  return increments (← (List.range (n + 1)).mapM fun (t : Nat) => c.value (Scalar.ofInt t) lag)

theorem weights_of_pos (c : SCurve K) {lag : K} (hlag : Scalar.lt Scalar.zero lag = true) :
    c.weights lag = (do
      let shares ← c.shares lag
      return if Scalar.lt Scalar.zero (pairwiseSum shares) then
        shares.map (· / pairwiseSum shares) else [Scalar.one]) := by
  simp only [weights, shares, hlag, Bool.not_true, Bool.false_eq_true, if_false, bind_assoc,
    pure_bind]

end

end SCurve

variable {K : Type} [Scalar K] [ExactArithmetic K]

open ExactArithmetic

/-- A function that rises, strictly or not, from 0 at 0 to 1 at 1. -/
structure RisesToOne (g : K → K) : Prop where
  zero : g Scalar.zero = Scalar.zero
  one : g Scalar.one = Scalar.one
  le : ∀ x y, Scalar.le Scalar.zero x = true → Scalar.le x y = true → Scalar.le (g x) (g y) = true

namespace RisesToOne

variable {g : K → K} (h : RisesToOne g) {x y : K}

include h

theorem toReal_le (hx : 0 ≤ toReal x) (hxy : toReal x ≤ toReal y) : toReal (g x) ≤ toReal (g y) :=
  le_iff.1 (h.le x y (le_iff.2 (by rwa [toReal_zero])) (le_iff.2 hxy))

theorem toReal_nonneg (hx : 0 ≤ toReal x) : 0 ≤ toReal (g x) := by
  have hle := h.toReal_le (x := Scalar.zero) (y := x) (by rw [toReal_zero]) (by rwa [toReal_zero])
  rwa [h.zero, toReal_zero] at hle

theorem toReal_le_one (hx : 0 ≤ toReal x) (hx' : toReal x ≤ 1) : toReal (g x) ≤ 1 := by
  have hle := h.toReal_le hx (y := Scalar.one) (by rwa [toReal_one])
  rwa [h.one, toReal_one] at hle

end RisesToOne

namespace SCurve

theorem toReal_rise_half (m : Option (Entry K)) (x : K) :
    toReal ((half m).rise x) = if 1 < toReal x then 1 else toReal (power x) := by
  simp only [rise, lt_iff, toReal_one]
  split <;> simp

theorem toReal_rise_full (m : Option (Entry K)) {x : K} (hx : 0 ≤ toReal x) :
    toReal ((full m).rise x) =
      if 2 < toReal x then 1
      else if 1 < toReal x then 1 - toReal (power (Scalar.abs (Scalar.ofInt 2 - x))) / 2
      else toReal (power x) / 2 := by
  simp only [rise, abs_eq_self hx, lt_iff, toReal_one, toReal_ofInt, Int.cast_ofNat]
  split_ifs <;> simp <;> ring

theorem toReal_abs_two_sub {x : K} (hx : ¬2 < toReal x) :
    toReal (Scalar.abs (Scalar.ofInt 2 - x)) = 2 - toReal x := by
  rw [toReal_abs, toReal_sub, toReal_ofInt, Int.cast_ofNat, abs_of_nonneg (by linarith)]

section

variable (hpower : RisesToOne (power : K → K)) (c : SCurve K) {x y : K}

include hpower

theorem toReal_rise_zero : toReal (c.rise Scalar.zero) = 0 := by
  have hle : (0 : ℝ) ≤ toReal (Scalar.zero : K) := toReal_zero.ge
  cases c with
  | half m => rw [toReal_rise_half, hpower.zero, toReal_zero, if_neg (by norm_num)]
  | full m =>
    rw [toReal_rise_full m hle, hpower.zero, toReal_zero, if_neg (by norm_num),
      if_neg (by norm_num), zero_div]
  | custom law m => exact toReal_zero

theorem toReal_rise_reach (hc : c.kind ≠ .custom) (hx : c.reach ≤ toReal x) :
    toReal (c.rise x) = 1 := by
  cases c with
  | half m =>
    rw [toReal_rise_half]
    split_ifs with hlt
    · rfl
    · have hone : x = Scalar.one := by
        refine toReal_injective (le_antisymm ?_ ?_)
        · rw [toReal_one]
          exact not_lt.1 hlt
        · simpa [reach] using hx
      rw [hone, hpower.one, toReal_one]
  | full m =>
    have hx : 2 ≤ toReal x := by simpa [reach] using hx
    rw [toReal_rise_full m (by linarith)]
    split_ifs with h2 h1
    · rfl
    · have hzero : Scalar.abs (Scalar.ofInt 2 - x) = Scalar.zero := by
        refine toReal_injective ?_
        rw [toReal_abs_two_sub h2, toReal_zero]
        linarith
      rw [hzero, hpower.zero, toReal_zero, zero_div, sub_zero]
    · linarith
  | custom law m => exact absurd rfl hc

theorem toReal_rise_le_one (hx : 0 ≤ toReal x) : toReal (c.rise x) ≤ 1 := by
  cases c with
  | half m =>
    rw [toReal_rise_half]
    split_ifs with h1
    · exact le_rfl
    · exact hpower.toReal_le_one hx (not_lt.1 h1)
  | full m =>
    rw [toReal_rise_full m hx]
    split_ifs with h2 h1
    · exact le_rfl
    · have hpos := hpower.toReal_nonneg (x := Scalar.abs (Scalar.ofInt 2 - x)) (by simp)
      linarith
    · have hle := hpower.toReal_le_one hx (not_lt.1 h1)
      linarith
  | custom law m => simp [rise]

/-- Each piece of the curve rises, and the next one begins no lower than the last one ends. -/
theorem toReal_rise_le (hx : 0 ≤ toReal x) (hxy : toReal x ≤ toReal y) :
    toReal (c.rise x) ≤ toReal (c.rise y) := by
  cases c with
  | half m =>
    by_cases hy : 1 < toReal y
    · rw [toReal_rise_half m y, if_pos hy]
      exact toReal_rise_le_one hpower _ hx
    · rw [toReal_rise_half, toReal_rise_half, if_neg hy, if_neg (by linarith)]
      exact hpower.toReal_le hx hxy
  | full m =>
    by_cases hy2 : 2 < toReal y
    · rw [toReal_rise_full m (hx.trans hxy), if_pos hy2]
      exact toReal_rise_le_one hpower _ hx
    · have hx2 : ¬2 < toReal x := by linarith
      have hfallx := toReal_abs_two_sub hx2
      have hfally := toReal_abs_two_sub hy2
      rw [toReal_rise_full m hx, toReal_rise_full m (hx.trans hxy), if_neg hy2, if_neg hx2]
      split_ifs with hx1 hy1 hy1
      · have hle := hpower.toReal_le (x := Scalar.abs (Scalar.ofInt 2 - y))
          (y := Scalar.abs (Scalar.ofInt 2 - x)) (by linarith) (by linarith)
        linarith
      · linarith
      · have hlex := hpower.toReal_le_one hx (by linarith)
        have hley := hpower.toReal_le_one (x := Scalar.abs (Scalar.ofInt 2 - y)) (by linarith)
          (by linarith)
        linarith
      · have hle := hpower.toReal_le hx hxy
        linarith
  | custom law m => exact le_rfl

end

theorem halfPower_eq {x : K} (hx : 0 ≤ toReal x) : halfPower x = .ok (power x) := by
  have hneg : Scalar.lt x Scalar.zero = false := by
    rw [Bool.eq_false_iff, ne_eq, lt_iff, toReal_zero]
    exact not_lt.2 hx
  simp [halfPower, isFinite, isSome_truncate?, hneg, power]

theorem value_eq_rise {c : SCurve K} (hc : c.kind ≠ .custom) {t lag : K} (hlag : 0 < toReal lag)
    (ht : 0 ≤ toReal t) : c.value t lag = .ok (c.rise (t / lag)) := by
  have hx : 0 ≤ toReal (t / lag) := by
    rw [toReal_div]
    exact div_nonneg ht hlag.le
  have hquotient : quotient t lag = .ok (t / lag) := by
    have hne : Scalar.eq lag Scalar.zero ≠ true := by
      rw [ne_eq, eq_iff]
      rintro rfl
      exact hlag.ne' toReal_zero
    rw [quotient, if_neg hne]
  have hlt : Scalar.lt lag t = Scalar.lt Scalar.one (t / lag) := by
    rw [Bool.eq_iff_iff, lt_iff, lt_iff, toReal_one, toReal_div, one_lt_div hlag]
  have hlt2 : Scalar.lt (Scalar.ofInt 2 * lag) t = Scalar.lt (Scalar.ofInt 2) (t / lag) := by
    rw [Bool.eq_iff_iff, lt_iff, lt_iff, toReal_mul, toReal_div, lt_div_iff₀ hlag]
  cases c with
  | half m =>
    rw [value, rise, hlt, hquotient, ok_bind, halfPower_eq hx, apply_ite Except.ok]
  | full m =>
    have habs (y : K) : halfPower (Scalar.abs y) = .ok (power (Scalar.abs y)) :=
      halfPower_eq (by simp)
    simp only [value, rise, hlt, hlt2, hquotient, ok_bind, habs, pure_eq_ok, apply_ite Except.ok]
  | custom law m => exact absurd rfl hc

theorem steps_eq {c : SCurve K} (hc : c.kind ≠ .custom) (lag : K) :
    c.steps lag = .ok (c.reach * ⌈toReal lag⌉) := by
  cases c with
  | half m => simp [steps, reach, ceiling?_eq, Entry.wholeOf]
  | full m => simp [steps, reach, ceiling?_eq, Entry.wholeOf]
  | custom law m => exact absurd rfl hc

/-- The part of a pulse that has left after a number of time steps. -/
def departed (c : SCurve K) (lag : K) (k : Nat) : K := c.rise (Scalar.ofInt k / lag)

noncomputable def span (c : SCurve K) (lag : K) : Nat := c.reach * ⌈toReal lag⌉₊

theorem span_pos {c : SCurve K} (hc : c.kind ≠ .custom) {lag : K} (hlag : 0 < toReal lag) :
    0 < c.span lag := by
  have hreach : 0 < c.reach := by
    cases c with
    | half m => exact Nat.one_pos
    | full m => exact Nat.two_pos
    | custom law m => exact absurd rfl hc
  exact Nat.mul_pos hreach (Nat.ceil_pos.2 hlag)

theorem shares_eq {c : SCurve K} (hc : c.kind ≠ .custom) {lag : K} (hlag : 0 < toReal lag) :
    c.shares lag =
      .ok ((List.range (c.span lag)).map fun k => c.departed lag (k + 1) - c.departed lag k) := by
  have hspan : (max (c.reach * ⌈toReal lag⌉) 1).toNat = c.span lag := by
    have hcast : (c.span lag : Int) = c.reach * ⌈toReal lag⌉ := by
      rw [span, Nat.cast_mul, Int.natCast_ceil_eq_ceil hlag.le]
    have hpos := span_pos hc hlag
    omega
  have hvalues : (List.range (c.span lag + 1)).mapM (fun t : Nat => c.value (Scalar.ofInt t) lag) =
      .ok ((List.range (c.span lag + 1)).map (c.departed lag)) :=
    mapM_eq_ok_map.2 fun t _ => value_eq_rise hc hlag (by simp)
  simp only [shares, steps_eq hc, ok_bind, hspan, hvalues, increments_map_range, pure_eq_ok]

section

variable (hpower : RisesToOne (power : K → K)) {c : SCurve K} {lag : K}

include hpower

theorem toReal_departed_zero : toReal (c.departed lag 0) = 0 := by
  have hzero : (Scalar.ofInt (0 : Nat) / lag : K) = Scalar.zero := toReal_injective (by simp)
  rw [departed, hzero]
  exact toReal_rise_zero hpower c

theorem toReal_departed_le (hlag : 0 < toReal lag) {k l : Nat} (hkl : k ≤ l) :
    toReal (c.departed lag k) ≤ toReal (c.departed lag l) := by
  refine toReal_rise_le hpower c ?_ ?_
  · rw [toReal_div, toReal_ofInt]
    positivity
  · simp only [toReal_div, toReal_ofInt, Int.cast_natCast]
    gcongr

/-- At the last sample the curve has reached its end. -/
theorem toReal_departed_span (hc : c.kind ≠ .custom) (hlag : 0 < toReal lag) :
    toReal (c.departed lag (c.span lag)) = 1 := by
  refine toReal_rise_reach hpower c hc ?_
  rw [toReal_div, toReal_ofInt, Int.cast_natCast, le_div_iff₀ hlag, span, Nat.cast_mul]
  gcongr
  exact Nat.le_ceil _

end

/-- Whatever its samples are, the weights of a curve sum to one. -/
theorem sum_weights {c : SCurve K} {lag : K} {w : List K} (h : c.weights lag = .ok w) :
    Scalar.sum w = Scalar.one := by
  have hone : Scalar.sum [(Scalar.one : K)] = Scalar.one := Scalar.zero_add _
  cases hlag : Scalar.lt Scalar.zero lag with
  | false =>
    rw [weights, hlag] at h
    rwa [← Except.ok.inj h]
  | true =>
    rw [weights_of_pos c hlag] at h
    obtain ⟨shares, -, h⟩ := bind_eq_ok.1 h
    rw [← Except.ok.inj h]
    split_ifs with htotal
    · rw [lt_iff, toReal_zero, pairwiseSum_eq_sum] at htotal
      refine toReal_injective ?_
      rw [pairwiseSum_eq_sum, toReal_sum, List.map_map, toReal_one]
      simp only [Function.comp_def, toReal_div, div_eq_mul_inv, List.sum_map_mul_right]
      rw [← toReal_sum, mul_inv_cancel₀ htotal.ne']
    · exact hone

/-- A custom curve has weights where its length is a number and its law gives samples. -/
theorem exists_weights_custom {law : CurveLaw K} {m : Entry K} {x lag : K}
    (hm : m.toReal = .ok x) (hlaw : ∀ t : Nat, ∃ s, law.apply (Scalar.ofInt t) lag = .ok s) :
    ∃ w, (custom law m).weights lag = .ok w := by
  choose s hs using hlaw
  have hsteps : (custom law m).steps lag = .ok ⌈toReal (x * lag)⌉ := by
    simp only [steps, hm, ok_bind, ceiling?_eq, Entry.wholeOf]
  have hvalues (n : Nat) : (List.range n).mapM (fun t : Nat =>
      (custom law m).value (Scalar.ofInt t) lag) = .ok ((List.range n).map s) :=
    mapM_eq_ok_map.2 fun t _ => hs t
  rw [weights]
  split
  · exact ⟨_, rfl⟩
  · simp only [hsteps, ok_bind, hvalues]
    exact ⟨_, rfl⟩

/-- The weights of a curve distribute a pulse over a number of time steps. They are the shares of
its increments in a positive total, so the pulse is not passed on unchanged for want of one. -/
structure Distributes (c : SCurve K) (lag : K) (n : Nat) (w : List K) : Prop where
  weights_eq : c.weights lag = .ok w
  length_eq : w.length = n
  nonneg : ∀ x ∈ w, Scalar.le Scalar.zero x = true
  sum_eq : Scalar.sum w = Scalar.one
  shares_of_total : ∃ shares, c.shares lag = .ok shares ∧
    Scalar.lt Scalar.zero (pairwiseSum shares) = true ∧ w = shares.map (· / pairwiseSum shares)

theorem exists_distributes (hpower : RisesToOne (power : K → K)) {c : SCurve K}
    (hc : c.kind ≠ .custom) {lag : K} (hlag : 0 < toReal lag) :
    ∃ w, c.Distributes lag (c.span lag) w := by
  have hshares := shares_eq hc hlag
  set shares := (List.range (c.span lag)).map fun k => c.departed lag (k + 1) - c.departed lag k
    with hdef
  have htotal : toReal (pairwiseSum shares) = 1 := by
    rw [pairwiseSum_eq_sum, hdef, sum_increments, toReal_sub, toReal_departed_span hpower hc hlag,
      toReal_departed_zero hpower, sub_zero]
  have hpos : Scalar.lt Scalar.zero (pairwiseSum shares) = true := by
    rw [lt_iff, toReal_zero, htotal]
    exact one_pos
  have hweights : c.weights lag = .ok (shares.map (· / pairwiseSum shares)) := by
    rw [weights_of_pos c (lt_iff.2 (by rwa [toReal_zero])), hshares, ok_bind, if_pos hpos,
      pure_eq_ok]
  have hnonneg : ∀ x ∈ shares.map (· / pairwiseSum shares), Scalar.le Scalar.zero x = true := by
    intro x hx
    obtain ⟨share, hshare, rfl⟩ := List.mem_map.1 hx
    obtain ⟨k, -, rfl⟩ := List.mem_map.1 hshare
    rw [le_iff, toReal_zero, toReal_div, htotal, div_one, toReal_sub, sub_nonneg]
    exact toReal_departed_le hpower hlag k.le_succ
  exact ⟨_, hweights, by simp [hdef], hnonneg, sum_weights hweights, shares, hshares, hpos, rfl⟩

theorem toReal_power_real (x : ExactReal) : toReal (power x) = toReal x ^ (5 / 2 : ℝ) := by
  have hratio : toReal (Scalar.ratio 5 2 : ExactReal) = 5 / 2 := by
    rw [toReal_ratio, Int.cast_ofNat, Nat.cast_ofNat]
  exact congrArg (toReal x ^ ·) hratio

theorem risesToOne_power_real : RisesToOne (power : ExactReal → ExactReal) where
  zero := toReal_injective (by rw [toReal_power_real, toReal_zero, Real.zero_rpow (by norm_num)])
  one := toReal_injective (by rw [toReal_power_real, toReal_one, Real.one_rpow])
  le x y hx hxy := by
    rw [le_iff, toReal_zero] at hx
    rw [le_iff, toReal_power_real, toReal_power_real]
    exact Real.rpow_le_rpow hx (le_iff.1 hxy) (by norm_num)

/-- Whatever stands for the power 5/2, as long as it rises from 0 to 1: the weights of a built-in
curve with a positive lag distribute a pulse over the lag, or over twice the lag, in whole time
steps. The weights of any other curve sum to one as well, and it has some if its samples can be
taken. -/
theorem weights_are_distributions (lag : K) :
    (RisesToOne (power : K → K) → Scalar.lt Scalar.zero lag = true → ∀ m,
      (∃ w, (half m).Distributes lag ⌈toReal lag⌉₊ w) ∧
      (∃ w, (full m).Distributes lag (2 * ⌈toReal lag⌉₊) w)) ∧
    (∀ law m w, (custom law m).weights lag = .ok w → Scalar.sum w = Scalar.one) ∧
    (∀ (law : CurveLaw K) (m : Entry K) (x : K), m.toReal = .ok x →
      (∀ t : Nat, ∃ s, law.apply (Scalar.ofInt t) lag = .ok s) →
        ∃ w, (custom law m).weights lag = .ok w) := by
  refine ⟨fun hpower hlag m => ?_, fun law m w h => sum_weights h,
    fun law m x hm hlaw => exists_weights_custom hm hlaw⟩
  have hlag : 0 < toReal lag := by rwa [lt_iff, toReal_zero] at hlag
  have hhalf := exists_distributes hpower (c := half m) (by simp [kind]) hlag
  have hfull := exists_distributes hpower (c := full m) (by simp [kind]) hlag
  simp only [span, reach, one_mul] at hhalf hfull
  exact ⟨hhalf, hfull⟩

/-- The power 5/2 of real numbers with a lag of two and a half steps, and a custom curve that
falls. -/
theorem weights_are_distributions_fractional_lag :
    RisesToOne (power : ExactReal → ExactReal) ∧
    (∃ w, (half none : SCurve ExactReal).Distributes (Scalar.ratio 5 2) 3 w) ∧
    (∃ w, (full none : SCurve ExactReal).Distributes (Scalar.ratio 5 2) 6 w) ∧
    ∃ w, (custom CurveLaw.falling (.flag true) : SCurve ExactReal).weights (Scalar.ratio 5 2) =
      .ok w ∧ Scalar.sum w = Scalar.one := by
  have hpower : RisesToOne (power : ExactReal → ExactReal) := risesToOne_power_real
  have hceil : ⌈toReal (Scalar.ratio 5 2 : ExactReal)⌉₊ = 3 := by
    rw [toReal_ratio, Nat.ceil_eq_iff three_ne_zero]
    norm_num
  have hpos : Scalar.lt Scalar.zero (Scalar.ratio 5 2 : ExactReal) = true := by
    rw [lt_iff, toReal_zero, toReal_ratio]
    norm_num
  obtain ⟨hbuilt, hsum, hcustom⟩ := weights_are_distributions (Scalar.ratio 5 2 : ExactReal)
  obtain ⟨hhalf, hfull⟩ := hbuilt hpower hpos none
  rw [hceil] at hhalf hfull
  obtain ⟨w, hw⟩ := hcustom CurveLaw.falling (.flag true) _ rfl fun t => ⟨_, rfl⟩
  exact ⟨hpower, hhalf, hfull, w, hw, hsum _ _ w hw⟩

end SCurve

end Catchment
