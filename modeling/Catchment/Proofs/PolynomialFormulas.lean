import Catchment.Proofs.ExactArithmetic
import Catchment.Proofs.SymbolicColumns

/-!
# Polynomial formulas

A formula of sums, differences, products and negation depends on its parameters like a polynomial.
Going some distance in a direction from where the parameters are changes its number by the slopes in
that direction, times the distance, up to a polynomial multiple of the squared distance. Every
operation keeps this, and so do formulas that are computed one after the other.
-/
namespace Catchment

open ExactArithmetic

class ExactNegation (K : Type) [Scalar K] [ExactArithmetic K] : Prop where
  toReal_neg : ∀ x : K, toReal (-x) = -toReal x

instance : ExactNegation ExactReal where
  toReal_neg _ := rfl

attribute [simp] ExactNegation.toReal_neg

/-- Nothing but numbers, names, negation, sums, differences and products. -/
def Expr.isPolynomial {K : Type} : Expr K → Bool
  | var _ | par _ | const _ => true
  | unary .neg a => a.isPolynomial
  | binary .add a b | binary .sub a b | binary .mul a b => a.isPolynomial && b.isPolynomial
  | _ => false

namespace Dual

section

variable {K : Type} [Scalar K]

/-- An operation on numbers with slopes. -/
def unary (op : Unary) (a : Dual K) : Dual K := ⟨op.symbolic a.value, op.slope a⟩

def binary (op : Binary) (a b : Dual K) : Dual K := ⟨op.symbolic a.value b.value, op.slope a b⟩

end

variable {K : Type} [Scalar K] [ExactArithmetic K] {a b : Dual K}

/-- The slope as a real number; no slope counts as a slope of zero. -/
def rate (a : Dual K) : ℝ := toReal (a.slope.getD Scalar.zero)

theorem toReal_total (x y : Option K) : toReal ((total x y).getD Scalar.zero) =
    toReal (x.getD Scalar.zero) + toReal (y.getD Scalar.zero) := by
  cases x <;> cases y <;> simp [total]

@[simp] theorem rate_constant (c : K) : (constant c).rate = 0 := toReal_zero

@[simp] theorem rate_neg [ExactNegation K] : (unary .neg a).rate = -a.rate := by
  rcases a with ⟨x, _ | d⟩ <;> simp [rate, unary, Unary.slope]

@[simp] theorem rate_add : (binary .add a b).rate = a.rate + b.rate := toReal_total _ _

@[simp] theorem rate_sub [ExactNegation K] : (binary .sub a b).rate = a.rate - b.rate := by
  refine (toReal_total _ _).trans ?_
  rcases b with ⟨y, _ | d⟩ <;> simp [rate, sub_eq_add_neg]

@[simp] theorem rate_mul :
    (binary .mul a b).rate = a.rate * toReal b.value + toReal a.value * b.rate := by
  refine (toReal_total _ _).trans ?_
  rcases a with ⟨x, _ | d⟩ <;> rcases b with ⟨y, _ | d'⟩ <;> simp [rate]

end Dual

variable {K : Type} [Scalar K] [ExactArithmetic K] {count : Nat} {h : Fin count → ℝ}

noncomputable def changeAlong (h : Fin count → ℝ) (a : Fin count → Dual K) : ℝ :=
  ∑ j, (a j).rate * h j

/-- A number that depends on the distance gone in a direction has a value and slopes: it starts at
the value, and the slopes tell its change up to a polynomial multiple of the squared distance. -/
structure Expands (h : Fin count → ℝ) (f : K → K) (a : Fin count → Dual K) : Prop where
  value : ∀ j, (a j).value = f Scalar.zero
  change : ∃ r : Polynomial ℝ, ∀ e, toReal (f e) =
    toReal (f Scalar.zero) + toReal e * changeAlong h a + toReal e ^ 2 * r.eval (toReal e)

namespace Expands

variable {f g : K → K} {a b : Fin count → Dual K}

theorem constant (c : K) : Expands h (fun _ => c) fun _ => .constant c where
  value _ := rfl
  change := ⟨0, fun e => by simp [changeAlong]⟩

theorem neg [ExactNegation K] (hf : Expands h f a) :
    Expands h (fun e => -f e) fun j => (a j).unary .neg := by
  obtain ⟨r, hr⟩ := hf.change
  have hchange : changeAlong h (fun j => (a j).unary .neg) = -changeAlong h a := by
    simp only [changeAlong, Dual.rate_neg, neg_mul, Finset.sum_neg_distrib]
  refine ⟨fun j => congrArg _ (hf.value j), -r, fun e => ?_⟩
  rw [hchange, ExactNegation.toReal_neg, ExactNegation.toReal_neg, hr e, Polynomial.eval_neg]
  ring

theorem add (hf : Expands h f a) (hg : Expands h g b) :
    Expands h (fun e => f e + g e) fun j => (a j).binary .add (b j) := by
  obtain ⟨r, hr⟩ := hf.change
  obtain ⟨r', hr'⟩ := hg.change
  have hchange : changeAlong h (fun j => (a j).binary .add (b j)) =
      changeAlong h a + changeAlong h b := by
    simp only [changeAlong, Dual.rate_add, add_mul, Finset.sum_add_distrib]
  refine ⟨fun j => congrArg₂ _ (hf.value j) (hg.value j), r + r', fun e => ?_⟩
  rw [hchange, toReal_add, toReal_add, hr e, hr' e, Polynomial.eval_add]
  ring

theorem sub [ExactNegation K] (hf : Expands h f a) (hg : Expands h g b) :
    Expands h (fun e => f e - g e) fun j => (a j).binary .sub (b j) := by
  obtain ⟨r, hr⟩ := hf.change
  obtain ⟨r', hr'⟩ := hg.change
  have hchange : changeAlong h (fun j => (a j).binary .sub (b j)) =
      changeAlong h a - changeAlong h b := by
    simp only [changeAlong, Dual.rate_sub, sub_mul, Finset.sum_sub_distrib]
  refine ⟨fun j => congrArg₂ _ (hf.value j) (hg.value j), r - r', fun e => ?_⟩
  rw [hchange, toReal_sub, toReal_sub, hr e, hr' e, Polynomial.eval_sub]
  ring

/-- The change of a product is the sum of the changes of its factors, each times the other one. What
remains holds the product of the two changes. -/
theorem mul (hf : Expands h f a) (hg : Expands h g b) :
    Expands h (fun e => f e * g e) fun j => (a j).binary .mul (b j) := by
  obtain ⟨r, hr⟩ := hf.change
  obtain ⟨r', hr'⟩ := hg.change
  let y := toReal (f Scalar.zero)
  let y' := toReal (g Scalar.zero)
  let d := changeAlong h a
  let d' := changeAlong h b
  have hchange : changeAlong h (fun j => (a j).binary .mul (b j)) = d * y' + y * d' := by
    simp only [d, d', changeAlong, Dual.rate_mul, hf.value, hg.value, Finset.sum_mul,
      Finset.mul_sum, ← Finset.sum_add_distrib]
    exact Finset.sum_congr rfl fun j _ => by ring
  refine ⟨fun j => congrArg₂ _ (hf.value j) (hg.value j),
    .C (d * d') + .C y * r' + .C y' * r + .X * (.C d * r' + .C d' * r) + .X ^ 2 * (r * r'),
    fun e => ?_⟩
  rw [hchange, toReal_mul, toReal_mul, hr e, hr' e]
  simp only [Polynomial.eval_add, Polynomial.eval_mul, Polynomial.eval_pow, Polynomial.eval_C,
    Polynomial.eval_X]
  ring

/-- A parameter changes by its part of the direction. -/
theorem param {slopes : Fin count → Option K} {j : Fin count} {y d : K}
    (hslope : ∀ i, slopes i = if i = j then some Scalar.one else none) (hd : toReal d = h j) :
    Expands h (fun e => y + e * d) fun i => ⟨y, slopes i⟩ := by
  have hchange : changeAlong h (fun i => (⟨y, slopes i⟩ : Dual K)) = h j := by
    rw [changeAlong, Finset.sum_eq_single j]
    · simp [Dual.rate, hslope]
    · intro i _ hi
      simp [Dual.rate, hslope, hi]
    · simp
  have hstart : y + Scalar.zero * d = y := toReal_injective (by simp)
  refine ⟨fun i => hstart.symm, 0, fun e => ?_⟩
  rw [hchange, hstart, toReal_add, toReal_mul, hd, Polynomial.eval_zero]
  ring

end Expands

theorem Expr.expands [ExactNegation K] {e : Expr K} (he : e.isPolynomial = true)
    {x p : K → String → K} {dx dp : Fin count → String → Dual K}
    (hx : ∀ v ∈ e.reads, Expands h (x · v) (dx · v))
    (hp : ∀ k ∈ e.readsParams, Expands h (p · k) (dp · k)) :
    Expands h (fun s => e.symbolic (x s) (p s)) fun j => e.dual (dx j) (dp j) := by
  induction e with
  | var name => exact hx name (List.mem_singleton_self name)
  | par name => exact hp name (List.mem_singleton_self name)
  | const value => exact Expands.constant value
  | unary op a iha =>
    cases op with
    | neg => exact (iha he hx hp).neg
    | _ => simp [isPolynomial] at he
  | binary op a b iha ihb =>
    simp only [reads, readsParams, List.mem_append] at hx hp
    have hboth (hab : (a.isPolynomial && b.isPolynomial) = true) :
        Expands h (fun s => a.symbolic (x s) (p s)) (fun j => a.dual (dx j) (dp j)) ∧
          Expands h (fun s => b.symbolic (x s) (p s)) fun j => b.dual (dx j) (dp j) := by
      obtain ⟨ha, hb⟩ := Bool.and_eq_true_iff.1 hab
      exact ⟨iha ha (fun v hv => hx v (.inl hv)) fun k hk => hp k (.inl hk),
        ihb hb (fun v hv => hx v (.inr hv)) fun k hk => hp k (.inr hk)⟩
    cases op with
    | add => exact (hboth he).1.add (hboth he).2
    | sub => exact (hboth he).1.sub (hboth he).2
    | mul => exact (hboth he).1.mul (hboth he).2
    | _ => simp [isPolynomial] at he
  | choose c a b ihc iha ihb => simp [isPolynomial] at he

def computedDuals (p : String → Dual K) :
    List (String × Expr K) → (String → Dual K) → String → Dual K
  | [], x => x
  | f :: rest, x => computedDuals p rest (Function.update x f.1 (f.2.dual x p))

/-- Formulas that read what others compute have their slopes through those as well. -/
theorem computed_expands [ExactNegation K] {fs : List (String × Expr K)}
    (hpoly : ∀ f ∈ fs, f.2.isPolynomial = true) {x p : K → String → K}
    {dx dp : Fin count → String → Dual K} (hx : ∀ v, Expands h (x · v) (dx · v))
    (hp : ∀ f ∈ fs, ∀ k ∈ f.2.readsParams, Expands h (p · k) (dp · k)) (v : String) :
    Expands h (fun s => computed (p s) fs (x s) v) fun j => computedDuals (dp j) fs (dx j) v := by
  induction fs generalizing x dx with
  | nil => exact hx v
  | cons f fs ih =>
    have hf := Expr.expands (hpoly f List.mem_cons_self) (fun v _ => hx v)
      (hp f List.mem_cons_self)
    refine ih (fun g hg => hpoly g (List.mem_cons_of_mem f hg)) (fun w => ?_)
      fun g hg => hp g (List.mem_cons_of_mem f hg)
    by_cases hw : w = f.1
    · subst hw
      simpa only [Function.update_self] using hf
    · simpa only [Function.update_of_ne hw] using hx w

end Catchment
