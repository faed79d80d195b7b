import Catchment.Proofs.ExactNumbers
import Catchment.Proofs.NeutralZeros

/-!
# Exact sums

Numbers with the laws of addition that rounding breaks: the order of a sum does not matter, and
what is taken away comes back. The real numbers have them.
-/
namespace Catchment

open Scalar in
class ExactSums (K : Type) [Scalar K] : Prop where
  add_comm : ∀ x y : K, x + y = y + x
  add_assoc : ∀ x y z : K, x + y + z = x + (y + z)
  add_zero : ∀ x : K, x + zero = x
  add_sub_cancel : ∀ x y : K, x + (y - x) = y
  zero_mul : ∀ x : K, zero * x = zero

namespace Scalar

variable {K : Type} [Scalar K]

theorem same_iff_eq [ExactOrder K] {x y : K} : same x y = true ↔ x = y := by
  simp only [same, eq, isNaN_eq_false, Bool.and_false, Bool.false_or, Bool.and_eq_true]
  constructor
  · exact fun h => ExactOrder.le_antisymm x y h.1 h.2
  · rintro rfl
    exact ⟨or_self_iff.1 (ExactOrder.le_total x x), or_self_iff.1 (ExactOrder.le_total x x)⟩

variable [ExactSums K]

theorem zero_add (x : K) : zero + x = x :=
  (ExactSums.add_comm zero x).trans (ExactSums.add_zero x)

theorem sum_cons (x : K) (xs : List K) : sum (x :: xs) = x + sum xs := by
  have hstart (y : K) : xs.foldl (· + ·) (x + y) = x + xs.foldl (· + ·) y := by
    induction xs generalizing y with
    | nil => rfl
    | cons z xs ih => rw [List.foldl_cons, List.foldl_cons, ExactSums.add_assoc, ih]
  rw [sum, sum, List.foldl_cons, ← hstart, zero_add, ExactSums.add_zero]

theorem sum_replicate_zero (m : Nat) : sum (List.replicate m (zero : K)) = zero := by
  induction m with
  | zero => rfl
  | succ m ih => rw [List.replicate_succ, sum_cons, ih, zero_add]

end Scalar

namespace ExactSums

variable {K : Type} [Scalar K] [ExactSums K]

theorem zero_sub_add (x : K) : Scalar.zero - x + x = Scalar.zero :=
  (add_comm _ x).trans (add_sub_cancel x Scalar.zero)

theorem sub_eq_add_zero_sub (x y : K) : x - y = x + (Scalar.zero - y) := by
  have h : x - y + (y + (Scalar.zero - y)) = x + (Scalar.zero - y) := by
    rw [← add_assoc, add_comm (x - y) y, add_sub_cancel]
  rwa [add_sub_cancel y Scalar.zero, add_zero] at h

/-- Such numbers are a commutative group. -/
@[reducible] def addCommGroup (K : Type) [Scalar K] [ExactSums K] : AddCommGroup K where
  add_assoc := add_assoc
  zero := Scalar.zero
  zero_add := Scalar.zero_add
  add_zero := add_zero
  nsmul := @nsmulRec K ⟨Scalar.zero⟩ _
  neg x := Scalar.zero - x
  sub_eq_add_neg := sub_eq_add_zero_sub
  zsmul := @zsmulRec K ⟨Scalar.zero⟩ _ ⟨fun x => Scalar.zero - x⟩ (@nsmulRec K ⟨Scalar.zero⟩ _)
  neg_add_cancel := zero_sub_add
  add_comm := add_comm

end ExactSums

instance {K : Type} [Scalar K] [ExactOrder K] [ExactSums K] : NeutralZeros K where
  same_refl _ := Scalar.same_iff_eq.2 rfl
  same_symm h := Scalar.same_iff_eq.2 (Scalar.same_iff_eq.1 h).symm
  same_trans h h' := Scalar.same_iff_eq.2 ((Scalar.same_iff_eq.1 h).trans (Scalar.same_iff_eq.1 h'))
  same_add h h' := Scalar.same_iff_eq.2
    (congrArg₂ (· + ·) (Scalar.same_iff_eq.1 h) (Scalar.same_iff_eq.1 h'))
  same_sub h h' := Scalar.same_iff_eq.2
    (congrArg₂ (· - ·) (Scalar.same_iff_eq.1 h) (Scalar.same_iff_eq.1 h'))
  add_zero x := Scalar.same_iff_eq.2 (ExactSums.add_zero x)
  zero_sub_zero := by
    rw [Scalar.same_iff_eq, ← Scalar.zero_add (Scalar.zero - Scalar.zero : K)]
    exact ExactSums.add_sub_cancel _ _
  zero_mul _ := Scalar.same_iff_eq.2 (ExactSums.zero_mul _)

namespace Scalar

variable {K : Type} [Scalar K] [ExactSums K]

theorem sum_range_eq [ExactOrder K] {f : Nat → K} {count count' : Nat} (hle : count ≤ count')
    (hzero : ∀ k, count ≤ k → k < count' → f k = zero) :
    sum ((List.range count').map f) = sum ((List.range count).map f) :=
  same_iff_eq.1 (same_sum_range hle fun k hk hk' => same_iff_eq.2 (hzero k hk hk'))

theorem sum_range_head (f : Nat → K) (count : Nat) :
    sum ((List.range (count + 1)).map f) =
      f 0 + sum ((List.range count).map fun k => f (k + 1)) := by
  rw [List.range_succ_eq_map, List.map_cons, sum_cons, List.map_map]
  rfl

/-- The sum over all positions. -/
def total {n : Nat} (f : Fin n → K) : K := sum (List.ofFn f)

end Scalar

section

attribute [local instance] ExactSums.addCommGroup

variable {K : Type} [Scalar K] [ExactSums K]

theorem Scalar.sum_eq (xs : List K) : sum xs = xs.sum := by
  induction xs with
  | nil => rfl
  | cons x xs ih => rw [sum_cons, List.sum_cons, ih]

theorem Scalar.foldl_add_eq (xs : List K) (x : K) : xs.foldl (· + ·) x = x + xs.sum := by
  induction xs generalizing x with
  | nil => exact (add_zero x).symm
  | cons y xs ih => rw [List.foldl_cons, ih, List.sum_cons, add_assoc]

theorem Scalar.total_eq {n : Nat} (f : Fin n → K) : total f = ∑ i, f i := by
  rw [total, sum_eq, List.sum_ofFn]

theorem Scalar.total_single {n : Nat} {f : Fin n → K} (j : Fin n)
    (h : ∀ i, i ≠ j → f i = zero) : total f = f j := by
  rw [total_eq]
  exact Finset.sum_eq_single j (fun i _ hi => h i hi) fun hj => absurd (Finset.mem_univ j) hj

end

namespace ExactReal

instance : IsStrictOrderedRing ExactReal := inferInstanceAs (IsStrictOrderedRing ℝ)

theorem ratio_eq (p : Int) (q : Nat) : (Scalar.ratio p q : ExactReal) = (p : ExactReal) / q := rfl

theorem ofInt_eq (p : Int) : (Scalar.ofInt p : ExactReal) = p := by
  simp [Scalar.ofInt, ratio_eq]

theorem zero_eq : (Scalar.zero : ExactReal) = 0 := by
  simp [Scalar.zero, ofInt_eq]

theorem one_eq : (Scalar.one : ExactReal) = 1 := by
  simp [Scalar.one, ofInt_eq]

theorem le_iff {x y : ExactReal} : Scalar.le x y = true ↔ x ≤ y := decide_eq_true_iff

theorem lt_iff {x y : ExactReal} : Scalar.lt x y = true ↔ x < y := decide_eq_true_iff

theorem eq_iff {x y : ExactReal} : Scalar.eq x y = true ↔ x = y := by
  rw [Scalar.eq, Bool.and_eq_true, le_iff, le_iff, antisymm_iff]

instance : ExactSums ExactReal where
  add_comm := @add_comm ℝ _
  add_assoc := @add_assoc ℝ _
  add_zero x := by
    rw [zero_eq]
    exact @add_zero ℝ _ x
  add_sub_cancel := @add_sub_cancel ℝ _
  zero_mul x := by
    rw [zero_eq]
    exact @zero_mul ℝ _ x

theorem sum_replicate_one (m : Nat) :
    Scalar.sum (List.replicate m (Scalar.one : ExactReal)) = (m : ExactReal) := by
  induction m with
  | zero => exact zero_eq.trans Nat.cast_zero.symm
  | succ m ih =>
    rw [List.replicate_succ, Scalar.sum_cons, ih, one_eq, Nat.cast_succ]
    exact @add_comm ℝ _ _ _

instance : OrderedScalar ExactReal where
  lt_eq_false_of_le h := Bool.eq_false_iff.2 fun hlt => (lt_iff.1 hlt).not_ge (le_iff.1 h)
  le_eq_false_of_lt h := Bool.eq_false_iff.2 fun hle => (lt_iff.1 h).not_ge (le_iff.1 hle)
  le_of_lt h := le_iff.2 (lt_iff.1 h).le
  le_self_of_le _ := le_iff.2 le_rfl
  zero_lt_one := lt_iff.2 (by rw [zero_eq, one_eq]; exact zero_lt_one)
  le_self_of_isFinite _ := le_iff.2 le_rfl
  sub_pos {x y} _ _ h := by
    rw [lt_iff, zero_eq]
    exact (@sub_pos ℝ _ _ _ y x).2 (lt_iff.1 h)
  zero_div {x y} h _ := by
    rw [eq_iff, eq_iff.1 h, zero_eq]
    exact @zero_div ℝ _ y

end ExactReal

end Catchment
