import Catchment.Proofs.DoubleOrder

/-!
# Neutral zeros

Two numbers are the same if they are equal or both missing, so that a zero is the same with either
sign. Sums and differences of the same numbers are the same, a zero adds nothing, and zero times a
number is zero unless the number is infinite or missing. This is so for doubles, and for exact
numbers, where the same numbers are equal.
-/
namespace Catchment

namespace Scalar

/-- Equal, or both missing. -/
def same {K : Type} [Scalar K] (x y : K) : Bool := (isNaN x && isNaN y) || eq x y

end Scalar

open Scalar in
class NeutralZeros (K : Type) [Scalar K] : Prop where
  same_refl : ∀ x : K, same x x = true
  same_symm : ∀ {x y : K}, same x y = true → same y x = true
  same_trans : ∀ {x y z : K}, same x y = true → same y z = true → same x z = true
  same_add : ∀ {x x' y y' : K}, same x x' = true → same y y' = true → same (x + y) (x' + y') = true
  same_sub : ∀ {x x' y y' : K}, same x x' = true → same y y' = true → same (x - y) (x' - y') = true
  add_zero : ∀ x : K, same (x + zero) x = true
  zero_sub_zero : same (zero - zero : K) zero = true
  zero_mul : ∀ {x : K}, isFinite x = true → same (zero * x) zero = true

namespace Scalar

variable {K : Type} [Scalar K]

theorem sum_range_succ (f : Nat → K) (count : Nat) :
    sum ((List.range (count + 1)).map f) = sum ((List.range count).map f) + f count := by
  rw [List.range_succ, List.map_append, sum, List.foldl_append]
  rfl

variable [NeutralZeros K]

open NeutralZeros

theorem same_add_of_same_zero (x : K) {y : K} (h : same y zero = true) : same (x + y) x = true :=
  same_trans (same_add (same_refl x) h) (add_zero x)

/-- Terms that are zero at the end of a sum add nothing. -/
theorem same_sum_range {f : Nat → K} {count count' : Nat} (hle : count ≤ count')
    (hzero : ∀ k, count ≤ k → k < count' → same (f k) zero = true) :
    same (sum ((List.range count').map f)) (sum ((List.range count).map f)) = true := by
  induction count', hle using Nat.le_induction with
  | base => exact same_refl _
  | succ count' hle ih =>
    rw [sum_range_succ]
    exact same_trans (same_add_of_same_zero _ (hzero count' hle (Nat.lt_succ_self _)))
      (ih fun k hk hk' => hzero k hk (Nat.lt_succ_of_lt hk'))

end Scalar

namespace Double

open Float.Model Float.Model.UnpackedFloat

/-- The same apart from the sign of a zero. -/
def Alike (x y : UnpackedFloat) : Prop := x = y ∨ ∃ s s', x = .zero s ∧ y = .zero s'

theorem Alike.symm {x y : UnpackedFloat} (h : Alike x y) : Alike y x := by
  rcases h with rfl | ⟨s, s', rfl, rfl⟩
  · exact .inl rfl
  · exact .inr ⟨s', s, rfl, rfl⟩

theorem Alike.trans {x y z : UnpackedFloat} (h : Alike x y) (h' : Alike y z) : Alike x z := by
  rcases h with rfl | ⟨s, s', rfl, rfl⟩
  · exact h'
  · rcases h' with rfl | ⟨_, s'', -, rfl⟩
    · exact .inr ⟨s, s', rfl, rfl⟩
    · exact .inr ⟨s, s'', rfl, rfl⟩

theorem compare_eq_iff {x y : UnpackedFloat} :
    x.compare y = some .eq ↔ x ≠ .notANumber ∧ Alike x y := by
  rcases x with (_ | _) | _ | (_ | _) | ⟨_ | _, m, e, h⟩ <;>
    rcases y with (_ | _) | _ | (_ | _) | ⟨_ | _, m', e', h'⟩ <;>
    simp [Alike, UnpackedFloat.compare, and_comm] <;> rfl

theorem le_self_iff {x : Float} : Scalar.le x x = true ↔ x.toModel.unpack ≠ .notANumber := by
  rw [le_iff]
  constructor
  · intro h hx
    simp [hx, UnpackedFloat.compare] at h
  · exact fun hx => .inr (compare_self hx)

theorem same_iff {x y : Float} :
    Scalar.same x y = true ↔ Alike x.toModel.unpack y.toModel.unpack := by
  simp only [Scalar.same, Scalar.eq, Scalar.isNaN, Bool.or_eq_true, Bool.and_eq_true,
    Bool.not_eq_true', ← Bool.not_eq_true, le_self_iff, not_not]
  constructor
  · rintro (⟨hx, hy⟩ | ⟨hle, hge⟩)
    · exact .inl (hx.trans hy.symm)
    · rw [le_iff] at hle hge
      rw [compare_swap] at hge
      rcases hle with hlt | heq
      · simp [hlt] at hge
      · exact (compare_eq_iff.1 heq).2
  · intro h
    by_cases hx : x.toModel.unpack = .notANumber
    · refine .inl ⟨hx, ?_⟩
      rcases h with h | ⟨s, s', h, -⟩
      · exact h.symm.trans hx
      · simp [hx] at h
    · refine .inr ⟨le_iff.2 (.inr (compare_eq_iff.2 ⟨hx, h⟩)), le_iff.2 (.inr ?_)⟩
      rw [compare_swap, compare_eq_iff.2 ⟨hx, h⟩]
      rfl

theorem unpack_pack_unpack (x : Float) :
    (Float.Model.pack x.toModel.unpack).unpack = x.toModel.unpack :=
  congrArg (UnpackedFloat.unpack Format.binary64) (pack_unpack_of_valid x.toModel.valid)

theorem Alike.unpack_pack {x y : UnpackedFloat} (h : Alike x y) :
    Alike (Float.Model.pack x).unpack (Float.Model.pack y).unpack := by
  rcases h with rfl | ⟨s, s', rfl, rfl⟩
  · exact .inl rfl
  · rw [unpack_pack_zero, unpack_pack_zero]
    exact .inr ⟨s, s', rfl, rfl⟩

/-- An operation to which the sign of a zero makes no other difference takes alike operands to alike
results. -/
theorem Alike.congr₂ {op : UnpackedFloat → UnpackedFloat → UnpackedFloat}
    (hleft : ∀ s s' y, Alike (op (.zero s) y) (op (.zero s') y))
    (hright : ∀ x s s', Alike (op x (.zero s)) (op x (.zero s'))) {x x' y y' : UnpackedFloat}
    (h : Alike x x') (h' : Alike y y') : Alike (op x y) (op x' y') := by
  have hx : Alike (op x y) (op x' y) := by
    rcases h with rfl | ⟨s, s', rfl, rfl⟩
    · exact .inl rfl
    · exact hleft s s' y
  have hy : Alike (op x' y) (op x' y') := by
    rcases h' with rfl | ⟨s, s', rfl, rfl⟩
    · exact .inl rfl
    · exact hright x' s s'
  exact hx.trans hy

theorem Alike.add {x x' y y' : UnpackedFloat} (h : Alike x x') (h' : Alike y y') :
    Alike (UnpackedFloat.add Format.binary64 x y) (UnpackedFloat.add Format.binary64 x' y') := by
  refine h.congr₂ (fun s s' y => ?_) (fun x s s' => ?_) h'
  · rcases y with a | _ | a | ⟨a, m, e, hm⟩
    case zero => cases a <;> cases s <;> cases s' <;> exact .inr ⟨_, _, rfl, rfl⟩
    all_goals exact .inl rfl
  · rcases x with a | _ | a | ⟨a, m, e, hm⟩
    case zero => cases a <;> cases s <;> cases s' <;> exact .inr ⟨_, _, rfl, rfl⟩
    all_goals exact .inl rfl

theorem Alike.sub {x x' y y' : UnpackedFloat} (h : Alike x x') (h' : Alike y y') :
    Alike (UnpackedFloat.sub Format.binary64 x y) (UnpackedFloat.sub Format.binary64 x' y') := by
  refine h.congr₂ (fun s s' y => ?_) (fun x s s' => ?_) h'
  · rcases y with a | _ | a | ⟨a, m, e, hm⟩
    case zero => cases a <;> cases s <;> cases s' <;> exact .inr ⟨_, _, rfl, rfl⟩
    all_goals exact .inl rfl
  · rcases x with a | _ | a | ⟨a, m, e, hm⟩
    case zero => cases a <;> cases s <;> cases s' <;> exact .inr ⟨_, _, rfl, rfl⟩
    all_goals exact .inl rfl

theorem add_zero_alike (x : UnpackedFloat) :
    Alike (UnpackedFloat.add Format.binary64 x (.zero .positive)) x := by
  rcases x with a | _ | a | ⟨a, m, e, hm⟩
  case zero => cases a <;> exact .inr ⟨_, _, rfl, rfl⟩
  all_goals exact .inl rfl

theorem zero_mul_alike {x : UnpackedFloat} (hx : x.isFinite = true) :
    Alike (UnpackedFloat.mul Format.binary64 (.zero .positive) x) (.zero .positive) := by
  rcases x with a | _ | a | ⟨a, m, e, hm⟩
  · simp [UnpackedFloat.isFinite] at hx
  · simp [UnpackedFloat.isFinite] at hx
  · exact .inr ⟨_, _, rfl, rfl⟩
  · exact .inr ⟨_, _, rfl, rfl⟩

instance : NeutralZeros Float where
  same_refl x := same_iff.2 (.inl rfl)
  same_symm h := same_iff.2 (same_iff.1 h).symm
  same_trans h h' := same_iff.2 ((same_iff.1 h).trans (same_iff.1 h'))
  same_add h h' := same_iff.2 ((same_iff.1 h).add (same_iff.1 h')).unpack_pack
  same_sub h h' := same_iff.2 ((same_iff.1 h).sub (same_iff.1 h')).unpack_pack
  add_zero x := by
    have h := (add_zero_alike x.toModel.unpack).unpack_pack
    rw [unpack_pack_unpack] at h
    exact same_iff.2 h
  zero_sub_zero := by decide
  zero_mul h := same_iff.2 (zero_mul_alike (isFinite_unpack h)).unpack_pack

end Double

end Catchment
