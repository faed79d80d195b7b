import Catchment.Proofs.ExactSums

/-!
# Exact arithmetic

Numbers that stand for real numbers, with the operations of the real numbers: nothing is rounded and
nothing is missing. The elementary functions are left open, a power too.
-/
namespace Catchment

class ExactArithmetic (K : Type) [Scalar K] where
  toReal : K → ℝ
  toReal_injective : Function.Injective toReal
  toReal_add : ∀ x y, toReal (x + y) = toReal x + toReal y
  toReal_sub : ∀ x y, toReal (x - y) = toReal x - toReal y
  toReal_mul : ∀ x y, toReal (x * y) = toReal x * toReal y
  toReal_div : ∀ x y, toReal (x / y) = toReal x / toReal y
  toReal_ratio : ∀ (p : Int) (q : Nat), toReal (Scalar.ratio p q) = p / q
  toReal_abs : ∀ x, toReal (Scalar.abs x) = |toReal x|
  lt_iff : ∀ {x y}, Scalar.lt x y = true ↔ toReal x < toReal y
  le_iff : ∀ {x y}, Scalar.le x y = true ↔ toReal x ≤ toReal y
  isSome_truncate? : ∀ x : K, (Scalar.truncate? x).isSome
  ceiling?_eq : ∀ x : K, Scalar.ceiling? x = some ⌈toReal x⌉

namespace ExactArithmetic

attribute [simp] toReal_add toReal_sub toReal_mul toReal_div toReal_ratio toReal_abs

variable {K : Type} [Scalar K] [ExactArithmetic K]

@[simp] theorem toReal_ofInt (n : Int) : toReal (Scalar.ofInt n : K) = n := by
  simp [Scalar.ofInt]

@[simp] theorem toReal_zero : toReal (Scalar.zero : K) = 0 := by
  simp [Scalar.zero]

@[simp] theorem toReal_one : toReal (Scalar.one : K) = 1 := by
  simp [Scalar.one]

theorem eq_iff {x y : K} : Scalar.eq x y = true ↔ x = y := by
  rw [Scalar.eq, Bool.and_eq_true, le_iff, le_iff, ← le_antisymm_iff, toReal_injective.eq_iff]

theorem abs_eq_self {x : K} (hx : 0 ≤ toReal x) : Scalar.abs x = x :=
  toReal_injective (by rw [toReal_abs, abs_of_nonneg hx])

instance : ExactOrder K where
  le_total x y := by
    rw [le_iff, le_iff]
    exact le_total _ _
  le_antisymm x y hxy hyx := toReal_injective (le_antisymm (le_iff.1 hxy) (le_iff.1 hyx))
  lt_eq x y := by
    rw [Bool.eq_iff_iff, lt_iff, Bool.not_eq_true', Bool.eq_false_iff, ne_eq, le_iff, not_le]

instance : ExactSums K where
  add_comm x y := toReal_injective (by rw [toReal_add, toReal_add, add_comm])
  add_assoc x y z := toReal_injective (by simp only [toReal_add, add_assoc])
  add_zero x := toReal_injective (by rw [toReal_add, toReal_zero, add_zero])
  add_sub_cancel x y := toReal_injective (by rw [toReal_add, toReal_sub, add_sub_cancel])
  zero_mul x := toReal_injective (by rw [toReal_mul, toReal_zero, zero_mul])

instance : OrderedScalar K where
  lt_eq_false_of_le h := Bool.eq_false_iff.2 fun hlt => (lt_iff.1 hlt).not_ge (le_iff.1 h)
  le_eq_false_of_lt h := Bool.eq_false_iff.2 fun hle => (lt_iff.1 h).not_ge (le_iff.1 hle)
  le_of_lt h := le_iff.2 (lt_iff.1 h).le
  le_self_of_le _ := le_iff.2 le_rfl
  zero_lt_one := lt_iff.2 (by rw [toReal_zero, toReal_one]; exact one_pos)
  le_self_of_isFinite _ := le_iff.2 le_rfl
  sub_pos _ _ h := lt_iff.2 (by rw [toReal_zero, toReal_sub]; exact sub_pos.2 (lt_iff.1 h))
  zero_div h _ := by rw [eq_iff] at h ⊢; exact toReal_injective (by simp [h])

/-- Accepted times increase. -/
theorem strictTimes_of_unorderedTimes {times : List K} (h : unorderedTimes times = false) :
    StrictTimes times where
  finite x _ := by
    rw [Scalar.isFinite, eq_iff]
    exact toReal_injective (by simp)
  increasing := by
    have htrans : IsTrans K fun x y => Scalar.lt x y = true :=
      ⟨fun _ _ _ hxy hyz => lt_iff.2 ((lt_iff.1 hxy).trans (lt_iff.1 hyz))⟩
    rw [← List.isChain_iff_pairwise]
    induction times with
    | nil => exact .nil
    | cons x times ih => cases times with
      | nil => exact .singleton x
      | cons y times =>
        rw [unorderedTimes, Bool.or_eq_false_iff] at h
        obtain ⟨hle, hrest⟩ := h
        refine .cons_cons ?_ (ih hrest)
        rw [Bool.eq_false_iff, ne_eq, le_iff, toReal_sub, toReal_zero, sub_nonpos, not_le] at hle
        exact lt_iff.2 hle

theorem toReal_sum (xs : List K) : toReal (Scalar.sum xs) = (xs.map toReal).sum := by
  induction xs with
  | nil => exact toReal_zero
  | cons x xs ih => rw [Scalar.sum_cons, toReal_add, ih, List.map_cons, List.sum_cons]

end ExactArithmetic

noncomputable instance : ExactArithmetic ExactReal where
  toReal x := x
  toReal_injective _ _ h := h
  toReal_add _ _ := rfl
  toReal_sub _ _ := rfl
  toReal_mul _ _ := rfl
  toReal_div _ _ := rfl
  toReal_ratio _ _ := rfl
  toReal_abs _ := rfl
  lt_iff := ExactReal.lt_iff
  le_iff := ExactReal.le_iff
  isSome_truncate? _ := rfl
  ceiling?_eq _ := rfl

end Catchment
