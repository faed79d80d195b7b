import Mathlib
import Catchment.Scalar

/-!
# Exact numbers

Numbers of which any two compare and equal ones are the same: nothing is missing and zero has no
sign. The real numbers are such numbers. The two kinds of minimum, and of maximum, are the same
then, since they differ only in what they do with a missing operand and with equal ones.
-/
namespace Catchment

class ExactOrder (K : Type) [Scalar K] : Prop where
  le_total : ∀ x y : K, Scalar.le x y = true ∨ Scalar.le y x = true
  le_antisymm : ∀ x y : K, Scalar.le x y = true → Scalar.le y x = true → x = y
  lt_eq : ∀ x y : K, Scalar.lt x y = !Scalar.le y x

namespace Scalar

variable {K : Type} [Scalar K] [ExactOrder K]

theorem isNaN_eq_false (x : K) : isNaN x = false := by
  have h := ExactOrder.le_total x x
  simp [isNaN, or_self_iff.1 h]

theorem minimum_eq_leastOf (x y : K) : minimum x y = leastOf x y := by
  simp only [minimum, leastOf, isNaN_eq_false, ExactOrder.lt_eq x y, Bool.or_false, Bool.false_or]
  cases hyx : le y x with
  | false =>
    have hxy : le x y = true := (ExactOrder.le_total x y).resolve_right (by simp [hyx])
    simp [hxy]
  | true =>
    cases hxy : le x y with
    | false => simp
    | true => simp [ExactOrder.le_antisymm x y hxy hyx]

theorem maximum_eq_greatestOf (x y : K) : maximum x y = greatestOf x y := by
  simp only [maximum, greatestOf, isNaN_eq_false, ExactOrder.lt_eq y x, Bool.or_false,
    Bool.false_or]
  cases hxy : le x y with
  | false =>
    have hyx : le y x = true := (ExactOrder.le_total y x).resolve_right (by simp [hxy])
    simp [hyx]
  | true =>
    cases hyx : le y x with
    | false => simp
    | true => simp [ExactOrder.le_antisymm x y hxy hyx]

end Scalar

/-- The real numbers. What stands for a missing or an infinite number is zero. -/
def ExactReal : Type := ℝ

namespace ExactReal

noncomputable instance : Field ExactReal := inferInstanceAs (Field ℝ)

noncomputable instance : LinearOrder ExactReal := inferInstanceAs (LinearOrder ℝ)

noncomputable instance : FloorRing ExactReal := inferInstanceAs (FloorRing ℝ)

noncomputable instance : Scalar ExactReal where
  add x y := x + y
  sub x y := x - y
  mul x y := x * y
  div x y := x / y
  neg x := -x
  ratio n d := n / d
  lt x y := decide (x < y)
  le x y := decide (x ≤ y)
  abs x := max x (-x)
  exp := Real.exp
  log := Real.log
  sqrt := Real.sqrt
  sin := Real.sin
  cos := Real.cos
  tanh := Real.tanh
  pow := Real.rpow
  nan := 0
  infinity := 0
  narrow x := x
  gap _ _ := 0
  truncate? x := some (if 0 ≤ x then ⌊x⌋ else ⌈x⌉)
  ceiling? x := some ⌈x⌉
  text _ := "real"

instance : ExactOrder ExactReal where
  le_total x y := by
    have h := le_total x y
    simpa [Scalar.le] using h
  le_antisymm x y hxy hyx := by
    simp only [Scalar.le, decide_eq_true_eq] at hxy hyx
    exact le_antisymm hxy hyx
  lt_eq x y := by
    simp only [Scalar.lt, Scalar.le, ← decide_not, not_le]

end ExactReal

end Catchment
