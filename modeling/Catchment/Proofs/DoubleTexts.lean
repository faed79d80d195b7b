import Catchment.Proofs.DecimalTexts
import Catchment.Proofs.NeutralZeros
import Mathlib

/-!
# Texts of doubles

The decimals that are nearer to a double than to its neighbours form an interval, and the shortest
decimal of a double lies in its own. Intervals of different doubles meet at most where one of the
two has an odd significand and keeps its ends out. So the text of a double, read as a decimal, tells
the double.
-/
namespace Catchment.BinaryParts

theorem cast_twoTo (k : Nat) : (twoTo k : ℚ) = 2 ^ k := by
  rw [twoTo, Nat.pow_eq]
  push_cast
  rfl

theorem cast_tenTo (k : Nat) : (tenTo k : ℚ) = 10 ^ k := by
  rw [tenTo, Nat.pow_eq]
  push_cast
  rfl

theorem cast_fiveTo (k : Nat) : (fiveTo k : ℚ) = 5 ^ k := by
  rw [fiveTo, Nat.pow_eq]
  push_cast
  rfl

theorem pow_toNat_eq {b : ℚ} (hb : b ≠ 0) (i : ℤ) : b ^ i.toNat = b ^ i * b ^ (-i).toNat := by
  rw [← zpow_natCast, ← zpow_natCast, ← zpow_add₀ hb]
  congr 1
  omega

theorem scaled_snd_pos (num : Nat) (i e : ℤ) : 0 < (scaled num i e).2 :=
  Nat.mul_pos (Nat.pow_pos Nat.zero_lt_two) (Nat.pow_pos (by decide))

/-- A scaled number stands for the number over the unit. -/
theorem scaled_fst (num : Nat) (i e : ℤ) :
    ((scaled num i e).1 : ℚ) * 10 ^ e = num * 2 ^ i * (scaled num i e).2 := by
  have htwo := pow_toNat_eq (b := 2) (by norm_num) i
  have hten := pow_toNat_eq (b := 10) (by norm_num) (-e)
  rw [neg_neg] at hten
  have hcancel : (10 : ℚ) ^ (-e) * 10 ^ e = 1 := by
    rw [← zpow_add₀ (by norm_num), neg_add_cancel, zpow_zero]
  simp only [scaled]
  push_cast [cast_twoTo, cast_tenTo]
  rw [htwo, hten]
  linear_combination (num * (2 ^ i * 2 ^ (-i).toNat) * 10 ^ e.toNat : ℚ) * hcancel

/-- What the search on a grid chooses has passed its test. -/
theorem reads_of_choice {reads : Nat → Bool} {below c : Nat} {o : Ordering}
    (h : (match reads below, reads (below + 1) with
      | false, false => none
      | true, false => some below
      | false, true => some (below + 1)
      | true, true =>
        match o with
        | .lt => some below
        | .gt => some (below + 1)
        | .eq => some (if below % 2 = 0 then below else below + 1)) = some c) : reads c = true := by
  split at h
  · simp at h
  · grind
  · grind
  · grind

/-- The test of a multiple of `10 ^ e`. -/
def reads (p : BinaryParts) (e : Int) (c : Nat) : Bool :=
  let (value, unit) := scaled (4 * p.significand) (p.exponent - 2) e
  let (step, _) := scaled 1 (p.exponent - 2) e
  let low := value - (if p.atPowerOfTwo then step else 2 * step)
  let high := value + 2 * step
  if p.significand % 2 = 0 then low ≤ c * unit && c * unit ≤ high
  else low < c * unit && c * unit < high

theorem onGrid?_reads {p : BinaryParts} {e : Int} {c : Nat} (h : p.onGrid? e = some c) :
    p.reads e c = true :=
  reads_of_choice h

def lower (p : BinaryParts) : ℚ :=
  (4 * p.significand - if p.atPowerOfTwo then 1 else 2) * 2 ^ (p.exponent - 2)

def upper (p : BinaryParts) : ℚ := (4 * p.significand + 2) * 2 ^ (p.exponent - 2)

/-- A number reads back between the ends of an interval, and at the ends if the significand is
even. -/
structure ReadsBack (p : BinaryParts) (q : ℚ) : Prop where
  lower_le : p.lower ≤ q
  le_upper : q ≤ p.upper
  even_of_end : q = p.lower ∨ q = p.upper → p.significand % 2 = 0

/-- Rational numbers compare as their numerators over a common denominator. -/
theorem le_iff_of_scaled {x y unit ten : ℚ} {m n : Nat} (hunit : 0 < unit) (hten : 0 < ten)
    (hx : x * unit = m * ten) (hy : y * unit = n * ten) : x ≤ y ↔ m ≤ n := by
  rw [← mul_le_mul_iff_left₀ hunit, hx, hy, mul_le_mul_iff_left₀ hten, Nat.cast_le]

/-- The lower end of the search, which is not cut off at zero. -/
theorem cast_low {p : BinaryParts} (hpos : 0 < p.significand) (step : Nat) :
    ((4 * p.significand * step - (if p.atPowerOfTwo then step else 2 * step) : ℕ) : ℚ) =
      (4 * p.significand - if p.atPowerOfTwo then 1 else 2) * step := by
  have hle : (if p.atPowerOfTwo = true then step else 2 * step) ≤ 4 * p.significand * step := by
    split_ifs <;> nlinarith
  rw [Nat.cast_sub hle]
  split_ifs <;> push_cast <;> ring

theorem readsBack_of_reads {p : BinaryParts} {e : Int} {c : Nat} (hpos : 0 < p.significand)
    (h : p.reads e c = true) : p.ReadsBack (c * 10 ^ e) := by
  have hten : (0 : ℚ) < 10 ^ e := by positivity
  set i := p.exponent - 2 with hi
  have hstep := scaled_fst 1 i e
  have hunit : (0 : ℚ) < (scaled 1 i e).2 := by exact_mod_cast scaled_snd_pos 1 i e
  have hvalue : (scaled (4 * p.significand) i e).1 = 4 * p.significand * (scaled 1 i e).1 := by
    simp only [scaled]
    ring
  have hsame : (scaled (4 * p.significand) i e).2 = (scaled 1 i e).2 := rfl
  unfold reads at h
  simp only [← hi, hvalue, hsame] at h
  generalize (scaled 1 i e).1 = step at hstep h
  generalize (scaled 1 i e).2 = unit at hstep h hunit
  have hlow := cast_low hpos step
  generalize 4 * p.significand * step - (if p.atPowerOfTwo then step else 2 * step) = low at hlow h
  have hl : p.lower * unit = low * 10 ^ e := by
    rw [lower, ← hi, hlow]
    linear_combination -(4 * p.significand - if p.atPowerOfTwo then 1 else 2 : ℚ) * hstep
  have hu : p.upper * unit = (4 * p.significand * step + 2 * step : ℕ) * 10 ^ e := by
    rw [upper, ← hi]
    push_cast
    linear_combination -(4 * p.significand + 2 : ℚ) * hstep
  have hc : (c * 10 ^ e : ℚ) * unit = (c * unit : ℕ) * 10 ^ e := by
    push_cast
    ring
  by_cases heven : p.significand % 2 = 0
  · rw [if_pos heven, Bool.and_eq_true, decide_eq_true_iff, decide_eq_true_iff] at h
    exact ⟨(le_iff_of_scaled hunit hten hl hc).2 h.1, (le_iff_of_scaled hunit hten hc hu).2 h.2,
      fun _ => heven⟩
  · rw [if_neg heven, Bool.and_eq_true, decide_eq_true_iff, decide_eq_true_iff] at h
    refine ⟨(le_iff_of_scaled hunit hten hl hc).2 h.1.le,
      (le_iff_of_scaled hunit hten hc hu).2 h.2.le, ?_⟩
    rintro (hend | hend)
    · exact absurd ((le_iff_of_scaled hunit hten hc hl).1 hend.le) (not_le.2 h.1)
    · exact absurd ((le_iff_of_scaled hunit hten hu hc).1 hend.ge) (not_le.2 h.2)

theorem readsBack_value {p : BinaryParts} {q : ℚ} (hq : q = p.significand * 2 ^ p.exponent) :
    p.ReadsBack q := by
  have hpow : (0 : ℚ) < 2 ^ (p.exponent - 2) := by positivity
  have hvalue : q = 4 * p.significand * 2 ^ (p.exponent - 2) := by
    rw [hq, zpow_sub₀ (by norm_num)]
    ring
  have hlower : p.lower < q := by
    rw [lower, hvalue, mul_lt_mul_iff_left₀ hpow]
    split_ifs <;> linarith
  have hupper : q < p.upper := by
    rw [upper, hvalue, mul_lt_mul_iff_left₀ hpow]
    linarith
  refine ⟨hlower.le, hupper.le, ?_⟩
  rintro (hend | hend)
  · exact absurd hend hlower.ne'
  · exact absurd hend hupper.ne

/-- The exact value of a double, as a decimal. -/
theorem value_exact (m : Nat) (e : Int) :
    (⟨m * twoTo e.toNat * fiveTo (-e).toNat, min e 0⟩ : Decimal).value = m * 2 ^ e := by
  rw [Decimal.value]
  push_cast [cast_twoTo, cast_fiveTo]
  rcases le_or_gt 0 e with he | he
  · have hneg : (-e).toNat = 0 := by omega
    rw [min_eq_right he, hneg, ← zpow_natCast 2, Int.toNat_of_nonneg he]
    simp
  · have hpos : e.toNat = 0 := by omega
    have hten : (10 : ℚ) ^ e = 2 ^ e * 5 ^ e := by
      rw [← mul_zpow]
      norm_num
    have hfive : (5 : ℚ) ^ (-e) * 5 ^ e = 1 := by
      rw [← zpow_add₀ (by norm_num), neg_add_cancel, zpow_zero]
    rw [min_eq_left he.le, hpos, pow_zero, mul_one, ← zpow_natCast 5,
      Int.toNat_of_nonneg (by omega), hten]
    linear_combination (m * 2 ^ e : ℚ) * hfive

/-- The shortest decimal reads back. Where the search finds none, the exact value stands for it. -/
theorem readsBack_shortest {p : BinaryParts} (hpos : 0 < p.significand) :
    p.ReadsBack p.shortest.value := by
  unfold shortest
  cases hfound : (List.range 40).findSome? fun (k : Nat) =>
      let e := p.decimalBound - (k : Int)
      (p.onGrid? e).map fun c => (⟨c, e⟩ : Decimal) with
  | some d =>
    obtain ⟨k, -, hk⟩ := List.exists_of_findSome?_eq_some hfound
    obtain ⟨c, hc, rfl⟩ := Option.map_eq_some_iff.1 hk
    exact readsBack_of_reads hpos (onGrid?_reads hc)
  | none => exact readsBack_value (value_exact p.significand p.exponent)

def ofMagnitude (n : Nat) : BinaryParts :=
  if n / 2 ^ 52 = 0 then ⟨n, -1074, false⟩
  else ⟨2 ^ 52 + n % 2 ^ 52, (n / 2 ^ 52 : ℕ) - 1075,
    decide (n % 2 ^ 52 = 0) && decide (1 < n / 2 ^ 52)⟩

theorem ofMagnitude_small {n : Nat} (h : n / 2 ^ 52 = 0) : ofMagnitude n = ⟨n, -1074, false⟩ :=
  if_pos h

theorem ofMagnitude_large {n : Nat} (h : n / 2 ^ 52 ≠ 0) :
    ofMagnitude n = ⟨2 ^ 52 + n % 2 ^ 52, (n / 2 ^ 52 : ℕ) - 1075,
      decide (n % 2 ^ 52 = 0) && decide (1 < n / 2 ^ 52)⟩ :=
  if_neg h

theorem significand_ofMagnitude_mod (n : Nat) : (ofMagnitude n).significand % 2 = n % 2 := by
  by_cases h : n / 2 ^ 52 = 0
  · rw [ofMagnitude_small h]
  · rw [ofMagnitude_large h]
    show (2 ^ 52 + n % 2 ^ 52) % 2 = n % 2
    omega

theorem significand_ofMagnitude_pos {n : Nat} (hn : 0 < n) : 0 < (ofMagnitude n).significand := by
  by_cases h : n / 2 ^ 52 = 0
  · rwa [ofMagnitude_small h]
  · rw [ofMagnitude_large h]
    exact Nat.add_pos_left (by decide) _

theorem lower_lt_upper (p : BinaryParts) : p.lower < p.upper := by
  rw [lower, upper, mul_lt_mul_iff_left₀ (by positivity)]
  split_ifs <;> linarith

/-- Below the normal doubles, every step is the same. -/
theorem lower_succ_of_small {n : Nat} (hn : (n + 1) / 2 ^ 52 = 0) :
    (ofMagnitude (n + 1)).lower = (ofMagnitude n).upper := by
  rw [ofMagnitude_small hn, ofMagnitude_small (by omega), lower, upper]
  generalize (2 : ℚ) ^ ((-1074 : ℤ) - 2) = step
  simp only [Bool.false_eq_true, if_false]
  push_cast
  ring

/-- The first normal double is a step of the same size above the last one below it. -/
theorem lower_succ_of_first {n : Nat} (hn : n + 1 = 2 ^ 52) :
    (ofMagnitude (n + 1)).lower = (ofMagnitude n).upper := by
  have hq : (n + 1) / 2 ^ 52 = 1 := by omega
  have hr : (n + 1) % 2 ^ 52 = 0 := by omega
  have hexp : ((1 : ℕ) : ℤ) - 1075 = -1074 := rfl
  have hlast : (n : ℚ) = 2 ^ 52 - 1 := by
    rw [eq_sub_iff_add_eq]
    exact_mod_cast hn
  rw [ofMagnitude_large (by omega), ofMagnitude_small (by omega), lower, upper, hq, hr, hlast, hexp]
  generalize (2 : ℚ) ^ ((-1074 : ℤ) - 2) = step
  simp only [lt_irrefl, decide_false, Bool.and_false, Bool.false_eq_true, if_false]
  push_cast
  ring

/-- At a power of two the step doubles, and half of the old one is a quarter of the new one. -/
theorem lower_succ_of_power {n : Nat} (hn : n / 2 ^ 52 ≠ 0) (hr : (n + 1) % 2 ^ 52 = 0) :
    (ofMagnitude (n + 1)).lower = (ofMagnitude n).upper := by
  have hq : (n + 1) / 2 ^ 52 = n / 2 ^ 52 + 1 := by omega
  have hr' : n % 2 ^ 52 = 2 ^ 52 - 1 := by omega
  have hlt : 1 < n / 2 ^ 52 + 1 := by omega
  have hdouble (k : ℤ) : (2 : ℚ) ^ (k + 1 - 1075 - 2) = 2 * 2 ^ (k - 1075 - 2) := by
    rw [← zpow_one_add₀ (by norm_num)]
    congr 1
    ring
  rw [ofMagnitude_large hn, ofMagnitude_large (by omega), lower, upper]
  simp only [hq, hr, hr', hlt, decide_true, Bool.and_self, if_true]
  push_cast
  rw [hdouble]
  norm_num
  ring

/-- Between two powers of two, every step is the same. -/
theorem lower_succ_of_inside {n : Nat} (hn : n / 2 ^ 52 ≠ 0) (hr : (n + 1) % 2 ^ 52 ≠ 0) :
    (ofMagnitude (n + 1)).lower = (ofMagnitude n).upper := by
  have hq : (n + 1) / 2 ^ 52 = n / 2 ^ 52 := by omega
  have hr' : (n + 1) % 2 ^ 52 = n % 2 ^ 52 + 1 := by omega
  rw [ofMagnitude_large hn, ofMagnitude_large (by omega), lower, upper]
  simp only [hq, hr, decide_false, Bool.false_and, Bool.false_eq_true, if_false]
  rw [hr']
  push_cast
  ring

/-- What reads back as a double ends where what reads back as the next one begins. -/
theorem lower_ofMagnitude_succ (n : Nat) :
    (ofMagnitude (n + 1)).lower = (ofMagnitude n).upper := by
  by_cases hn : n / 2 ^ 52 = 0
  · by_cases hn' : (n + 1) / 2 ^ 52 = 0
    · exact lower_succ_of_small hn'
    · exact lower_succ_of_first (by omega)
  · by_cases hr : (n + 1) % 2 ^ 52 = 0
    · exact lower_succ_of_power hn hr
    · exact lower_succ_of_inside hn hr

theorem strictMono_lower : StrictMono fun n => (ofMagnitude n).lower :=
  strictMono_nat_of_lt_succ fun n => by
    rw [lower_ofMagnitude_succ]
    exact lower_lt_upper _

/-- A number does not read back as a double and as a greater one: where the intervals of neighbours
meet, one of the two significands is odd. -/
theorem ofMagnitude_le {m n : Nat} {q : ℚ} (hm : (ofMagnitude m).ReadsBack q)
    (hn : (ofMagnitude n).ReadsBack q) : n ≤ m := by
  by_contra hlt
  rw [not_le] at hlt
  have hmeet : (ofMagnitude (m + 1)).lower ≤ (ofMagnitude n).lower := strictMono_lower.monotone hlt
  rw [lower_ofMagnitude_succ] at hmeet
  have hupper : q = (ofMagnitude m).upper := le_antisymm hm.le_upper (hmeet.trans hn.lower_le)
  have hlower : q = (ofMagnitude n).lower := le_antisymm (hm.le_upper.trans hmeet) hn.lower_le
  have hsucc : m + 1 = n := by
    apply strictMono_lower.injective
    show (ofMagnitude (m + 1)).lower = (ofMagnitude n).lower
    rw [lower_ofMagnitude_succ, ← hupper, ← hlower]
  have heven := hm.even_of_end (.inr hupper)
  have heven' := hn.even_of_end (.inl hlower)
  rw [significand_ofMagnitude_mod] at heven heven'
  omega

/-- No number reads back as two doubles. -/
theorem ofMagnitude_unique {m n : Nat} {q : ℚ} (hm : (ofMagnitude m).ReadsBack q)
    (hn : (ofMagnitude n).ReadsBack q) : m = n :=
  le_antisymm (ofMagnitude_le hn hm) (ofMagnitude_le hm hn)

end Catchment.BinaryParts

namespace Catchment.Double

open Float.Model Float.Model.UnpackedFloat

/-- A double without its sign, as a count of the doubles from zero to it. -/
def magnitude (x : Float) : Nat := x.toBits.toNat % 2 ^ 63

theorem ofFloat_eq (x : Float) : BinaryParts.ofFloat x = BinaryParts.ofMagnitude (magnitude x) := by
  have hbits : x.toBits.toNat < 2 ^ 64 := x.toBits.toNat_lt
  have htwo : ∀ k, twoTo k = 2 ^ k := fun _ => rfl
  have hexp : x.toBits.toNat / 2 ^ 52 % 2 ^ 11 = magnitude x / 2 ^ 52 := by
    unfold magnitude
    omega
  have hfrac : x.toBits.toNat % 2 ^ 52 = magnitude x % 2 ^ 52 := by
    unfold magnitude
    omega
  simp only [BinaryParts.ofFloat, htwo, hexp, hfrac]
  unfold BinaryParts.ofMagnitude
  split_ifs with h
  · rw [Nat.mod_eq_of_lt (by omega)]
  · rfl

theorem magnitude_eq (x : Float) :
    magnitude x = (UnpackedFloat.pack Format.binary64 x.toModel.unpack).toNat % 2 ^ 63 := by
  have hpack := pack_unpack_of_valid x.toModel.valid
  rw [Float.Model.unpack, hpack]
  rfl

theorem magnitude_of_zero {x : Float} {s : Sign} (hx : x.toModel.unpack = .zero s) :
    magnitude x = 0 := by
  rw [magnitude_eq, hx]
  cases s <;> rfl

theorem magnitude_of_infinity {x : Float} {s : Sign} (hx : x.toModel.unpack = .infinity s) :
    magnitude x = 2047 * 2 ^ 52 := by
  rw [magnitude_eq, hx]
  cases s <;> rfl

theorem zero_of_magnitude {x : Float} (hx : magnitude x = 0) : ∃ s, x.toModel.unpack = .zero s := by
  have hbits : x.toBits.toNat < 2 ^ 64 := x.toBits.toNat_lt
  have hcases : x.toBits = 0 ∨ x.toBits = 0x8000000000000000 := by
    unfold magnitude at hx
    rw [← UInt64.toNat_inj, ← UInt64.toNat_inj]
    show x.toBits.toNat = 0 ∨ x.toBits.toNat = 2 ^ 63
    omega
  have hunpack : x.toModel.unpack = UnpackedFloat.unpack Format.binary64 x.toBits.toBitVec := rfl
  rw [hunpack]
  rcases hcases with h | h <;> rw [h]
  · exact ⟨.positive, rfl⟩
  · exact ⟨.negative, rfl⟩

theorem eq_of_toBits {x y : Float} (h : x.toBits = y.toBits) : x = y := by
  obtain ⟨⟨b, hb⟩⟩ := x
  obtain ⟨⟨c, hc⟩⟩ := y
  obtain rfl : b = c := h
  rfl

/-- A double is its sign and its magnitude. -/
theorem eq_of_magnitude {x y : Float} (hsign : x.toBits.toNat / 2 ^ 63 = y.toBits.toNat / 2 ^ 63)
    (h : magnitude x = magnitude y) : x = y := by
  apply eq_of_toBits
  unfold magnitude at h
  rw [← UInt64.toNat_inj]
  omega

theorem isNaN_iff {x : Float} : Scalar.isNaN x = true ↔ x.toModel.unpack = .notANumber := by
  rw [Scalar.isNaN, Bool.not_eq_true', ← Bool.not_eq_true, le_self_iff, not_not]

theorem isNaN_eq (x : Float) : Scalar.isNaN x = x.isNaN := by
  have hnan : x.isNaN = x.toModel.unpack.isNaN := rfl
  rw [Bool.eq_iff_iff, isNaN_iff, hnan]
  cases x.toModel.unpack <;> simp [UnpackedFloat.isNaN]

def unsignedText (x : Float) : String :=
  if x.isInf then "inf" else if x == 0 then "0.0" else (BinaryParts.ofFloat x).shortest.layout

def signMark (x : Float) : String := if x.toBits.toNat / 2 ^ 63 = 1 then "-" else ""

theorem doubleText_eq {x : Float} (hx : x.isNaN = false) :
    doubleText x = signMark x ++ unsignedText x := by
  have hsign : (if x.toBits.toNat / twoTo 63 = 1 then "-" else "") = signMark x := rfl
  unfold doubleText unsignedText
  simp only [hx, hsign, Bool.false_eq_true, if_false]
  split_ifs <;> rfl

theorem isInf_eq (x : Float) : x.isInf = x.toModel.unpack.isInf := rfl

theorem beq_zero_iff {x : Float} : (x == 0) = true ↔ ∃ s, x.toModel.unpack = .zero s := by
  have hzero : (0 : Float).toModel.unpack = .zero .positive := rfl
  have hbeq : (x == 0) = (x.toModel.unpack.compare (0 : Float).toModel.unpack == some .eq) := rfl
  rw [hbeq, hzero, beq_iff_eq]
  rcases x.toModel.unpack with (_ | _) | _ | s | ⟨_ | _, m, e, h⟩ <;> simp [UnpackedFloat.compare]

theorem layout_zero : (⟨0, 0⟩ : Decimal).layout = "0.0" := rfl

/-- The text of a double that is not infinite is the layout of a decimal that reads back. -/
theorem unsignedText_eq_layout {x : Float} (hinf : x.isInf = false) :
    ∃ d : Decimal, unsignedText x = d.layout ∧
      (BinaryParts.ofMagnitude (magnitude x)).ReadsBack d.value := by
  unfold unsignedText
  rw [hinf, if_neg Bool.false_ne_true]
  by_cases hzero : (x == 0) = true
  · obtain ⟨s, hs⟩ := beq_zero_iff.1 hzero
    refine ⟨⟨0, 0⟩, by rw [if_pos hzero, layout_zero], ?_⟩
    rw [magnitude_of_zero hs]
    apply BinaryParts.readsBack_value
    simp [BinaryParts.ofMagnitude, Decimal.value]
  · have hpos : 0 < magnitude x := by
      rw [Nat.pos_iff_ne_zero]
      exact fun h => hzero (beq_zero_iff.2 (zero_of_magnitude h))
    refine ⟨_, if_neg hzero, ?_⟩
    rw [ofFloat_eq]
    exact BinaryParts.readsBack_shortest (BinaryParts.significand_ofMagnitude_pos hpos)

theorem unsignedText_of_isInf {x : Float} (hinf : x.isInf = true) : unsignedText x = "inf" := by
  rw [unsignedText, if_pos hinf]

theorem magnitude_of_isInf {x : Float} (hinf : x.isInf = true) : magnitude x = 2047 * 2 ^ 52 := by
  rw [isInf_eq] at hinf
  cases hx : x.toModel.unpack with
  | infinity s => exact magnitude_of_infinity hx
  | _ => simp [hx, UnpackedFloat.isInf] at hinf

theorem layout_ne_inf (d : Decimal) : d.layout ≠ "inf" := by
  intro h
  obtain ⟨c, hc, hdigit⟩ := d.laid_layout.start
  rw [h] at hc
  obtain rfl : 'i' = c := by simpa using hc
  exact absurd hdigit (by decide)

/-- Doubles of one text after the sign have one magnitude. -/
theorem magnitude_of_unsignedText {x y : Float} (h : unsignedText x = unsignedText y) :
    magnitude x = magnitude y := by
  by_cases hx : x.isInf = true
  · by_cases hy : y.isInf = true
    · rw [magnitude_of_isInf hx, magnitude_of_isInf hy]
    · obtain ⟨d, hd, -⟩ := unsignedText_eq_layout (Bool.not_eq_true _ ▸ hy)
      rw [unsignedText_of_isInf hx, hd] at h
      exact absurd h.symm (layout_ne_inf d)
  · obtain ⟨d, hd, hreads⟩ := unsignedText_eq_layout (Bool.not_eq_true _ ▸ hx)
    by_cases hy : y.isInf = true
    · rw [unsignedText_of_isInf hy, hd] at h
      exact absurd h (layout_ne_inf d)
    · obtain ⟨d', hd', hreads'⟩ := unsignedText_eq_layout (Bool.not_eq_true _ ▸ hy)
      have hvalue : d.value = d'.value := by
        rw [← d.readDecimal_layout, ← d'.readDecimal_layout, ← hd, ← hd', h]
      rw [← hvalue] at hreads'
      exact BinaryParts.ofMagnitude_unique hreads hreads'

/-- A text after the sign is that of infinity, or it starts with a digit and has characters of
numbers only. -/
theorem unsignedText_cases (x : Float) : unsignedText x = "inf" ∨
    Numeric (unsignedText x).toList ∧ ∃ c ∈ (unsignedText x).toList.head?, c.isDigit = true := by
  by_cases hx : x.isInf = true
  · exact .inl (unsignedText_of_isInf hx)
  · obtain ⟨d, hd, -⟩ := unsignedText_eq_layout (Bool.not_eq_true _ ▸ hx)
    rw [hd]
    exact .inr ⟨d.laid_layout.numeric, d.laid_layout.start⟩

theorem unsignedText_ne_minus (x : Float) : (unsignedText x).toList.head? ≠ some '-' := by
  rcases unsignedText_cases x with htext | ⟨-, c, hc, hdigit⟩
  · simp [htext]
  · intro h
    obtain rfl : '-' = c := by simpa [h] using hc
    exact absurd hdigit (by decide)

theorem signMark_cases (x : Float) : signMark x = "-" ∨ signMark x = "" := by
  unfold signMark
  split_ifs <;> simp

/-- A minus before texts that have none is read back. -/
theorem minus_append_inj {s t u v : String} (hs : s = "-" ∨ s = "") (ht : t = "-" ∨ t = "")
    (hu : u.toList.head? ≠ some '-') (hv : v.toList.head? ≠ some '-') (h : s ++ u = t ++ v) :
    s = t ∧ u = v := by
  have hlist := congrArg String.toList h
  simp only [String.toList_append] at hlist
  rcases hs with rfl | rfl <;> rcases ht with rfl | rfl
  · exact ⟨rfl, String.toList_inj.1 (List.append_cancel_left hlist)⟩
  · exact absurd (congrArg List.head? hlist).symm hv
  · exact absurd (congrArg List.head? hlist) hu
  · exact ⟨rfl, String.toList_inj.1 (List.append_cancel_left hlist)⟩

theorem signMark_inj {x y : Float} (h : signMark x = signMark y) :
    x.toBits.toNat / 2 ^ 63 = y.toBits.toNat / 2 ^ 63 := by
  have hx : x.toBits.toNat < 2 ^ 64 := x.toBits.toNat_lt
  have hy : y.toBits.toNat < 2 ^ 64 := y.toBits.toNat_lt
  unfold signMark at h
  split_ifs at h
  · omega
  · simp at h
  · simp at h
  · omega

/-- The text of a double that is not missing tells the double. -/
theorem doubleText_inj {x y : Float} (hx : x.isNaN = false) (hy : y.isNaN = false)
    (h : doubleText x = doubleText y) : x = y := by
  rw [doubleText_eq hx, doubleText_eq hy] at h
  obtain ⟨hsign, htext⟩ := minus_append_inj (signMark_cases x) (signMark_cases y)
    (unsignedText_ne_minus x) (unsignedText_ne_minus y) h
  exact eq_of_magnitude (signMark_inj hsign) (magnitude_of_unsignedText htext)

end Catchment.Double
