import Catchment.DoubleScalar
import Catchment.Proofs.SampleTimes

/-!
# The order of doubles

Doubles are ordered scalars. Doubles of one sign compare by exponent and then by mantissa. A
difference is computed exactly and then rounded, and rounding keeps it positive, because the least
exponent is the least that a double has.
-/
namespace Catchment.Double

open Float.Model Float.Model.UnpackedFloat

theorem compare_then_swap (m m' : Nat) (e e' : Int) :
    (compare e' e).then (compare m' m) = ((compare e e').then (compare m m')).swap := by
  rw [Ordering.swap_then, ← Std.OrientedOrd.eq_swap, ← Std.OrientedOrd.eq_swap]

theorem compare_swap (x y : UnpackedFloat) : y.compare x = (x.compare y).map Ordering.swap := by
  rcases x with (_ | _) | _ | _ | ⟨_ | _, m, e, h⟩ <;>
    rcases y with (_ | _) | _ | _ | ⟨_ | _, m', e', h'⟩ <;>
    first
    | rfl
    | exact congrArg some (compare_then_swap ..)
    | exact congrArg (fun o => some (Ordering.swap o)) (compare_then_swap ..)

theorem compare_self {x : UnpackedFloat} (h : x ≠ .notANumber) : x.compare x = some .eq := by
  rcases x with (_ | _) | _ | _ | ⟨_ | _, m, e, h⟩ <;>
    simp [UnpackedFloat.compare] at h ⊢ <;> rfl

theorem lt_iff {x y : Float} :
    Scalar.lt x y = true ↔ x.toModel.unpack.compare y.toModel.unpack = some .lt := by
  have h : x < y ↔ decide ((x.toModel.unpack.compare y.toModel.unpack == some .lt) = true) = true :=
    Iff.rfl
  rw [decide_eq_true_iff, beq_iff_eq] at h
  exact decide_eq_true_iff.trans h

theorem le_iff {x y : Float} :
    Scalar.le x y = true ↔ x.toModel.unpack.compare y.toModel.unpack = some .lt ∨
      x.toModel.unpack.compare y.toModel.unpack = some .eq := by
  have h : x ≤ y ↔
      decide ((x.toModel.unpack.compare y.toModel.unpack).any (·.isLE) = true) = true := Iff.rfl
  rw [decide_eq_true_iff] at h
  refine decide_eq_true_iff.trans (h.trans ?_)
  rcases x.toModel.unpack.compare y.toModel.unpack with _ | (_ | _ | _) <;> simp

theorem unpack_pack_zero (s : Sign) : (Float.Model.pack (.zero s)).unpack = .zero s := by
  cases s <;> rfl

theorem unpack_pack_notANumber : (Float.Model.pack .notANumber).unpack = .notANumber := rfl

theorem unpackSign_packComponents {spec : Float.Model.Format} {s : Sign}
    {e : BitVec spec.exponentBits} {m : BitVec spec.mantissaBitsWithoutImplicit} :
    unpackSign (packComponents spec s e m) = s.toBitVec := by
  ext i hi
  obtain rfl : i = 0 := by omega
  have h : ¬ spec.mantissaBitsWithoutImplicit + spec.exponentBits <
      spec.mantissaBitsWithoutImplicit := by omega
  simp [unpackSign, packComponents, BitVec.getLsbD_append, BitVec.getElem_append, h]

theorem compare_zero_packComponents (s : Sign) {e : BitVec 11} {m : BitVec 52}
    (hmissing : e = -1#11 → m = 0#52) (hzero : e = 0#11 → m ≠ 0#52) :
    (UnpackedFloat.zero s).compare
      (UnpackedFloat.unpack Format.binary64 (packComponents Format.binary64 .positive e m)) =
        some .lt := by
  have hsign : Sign.ofBitVec (Sign.toBitVec .positive) = .positive := rfl
  simp only [UnpackedFloat.unpack, unpackMantissa_packComponents, unpackExponent_packComponents,
    unpackSign_packComponents, hsign]
  by_cases h : e = -1#11
  · rw [if_pos h, if_pos (hmissing h)]
    rfl
  · rw [if_neg h]
    by_cases h₀ : e = 0#11
    · rw [if_pos h₀, dif_neg (hzero h₀)]
      rfl
    · rw [if_neg h₀]
      rfl

structure Encodable (m : Nat) (e : Int) : Prop where
  pos : 0 < m
  lt : m < 2 ^ 53
  least : -1074 ≤ e

theorem compare_zero_pack (s : Sign) {m : Nat} {e : Int} (h : Encodable m e) :
    (UnpackedFloat.zero s).compare (Float.Model.pack (.finite .positive m e h.pos)).unpack =
      some .lt := by
  obtain ⟨hpos, hlt, hleast⟩ := h
  show (UnpackedFloat.zero s).compare (UnpackedFloat.unpack Format.binary64
    (UnpackedFloat.pack Format.binary64 (.finite .positive m e hpos))) = _
  have hbias : e + (Format.binary64.exponentBias : Int) +
      (Format.binary64.mantissaBitsWithoutImplicit : Int) = e + 1075 := by
    show e + 1023 + 52 = e + 1075
    omega
  have hbits : Format.binary64.mantissaBits = 53 := rfl
  simp only [UnpackedFloat.pack, hbias, hbits]
  by_cases hbig : 2 ^ 11 ≤ (e + 1075).toNat + 1
  · rw [if_pos hbig]
    exact compare_zero_packComponents s (fun _ => rfl) (fun h => absurd h (by decide))
  · rw [if_neg hbig]
    by_cases hnormal : m.log2 + 1 = 53
    · -- the exponent is stored as it is, and it is neither all ones nor zero
      rw [if_pos hnormal]
      have hval : (BitVec.ofNat 11 (e + 1075).toNat).toNat = (e + 1075).toNat := by
        rw [BitVec.toNat_ofNat]
        exact Nat.mod_eq_of_lt (by omega)
      refine compare_zero_packComponents s (fun h => ?_) fun h => ?_
      · rw [h] at hval
        simp at hval
        omega
      · rw [h] at hval
        simp at hval
        omega
    · rw [if_neg hnormal]
      have hpos' : m ≠ 0 := Nat.ne_of_gt hpos
      have hsmall : m < 2 ^ 52 := by
        have hlog : m.log2 < 53 := (Nat.log2_lt hpos').2 hlt
        exact (Nat.log2_lt hpos').1 (by omega)
      refine compare_zero_packComponents s (fun h => absurd h (by decide)) fun _ h => ?_
      have hval := congrArg BitVec.toNat h
      simp only [BitVec.toNat_ofNat] at hval
      rw [Nat.mod_eq_of_lt hsmall] at hval
      omega

/-- A finite double as it is stored: the mantissa has 53 bits unless the exponent is the least. -/
theorem encodable_unpack {b : BitVec Float.Model.Format.binary64.numBits} {s : Sign} {m : Nat}
    {e : Int} {h : 0 < m} (hx : UnpackedFloat.unpack Format.binary64 b = .finite s m e h) :
    Encodable m e ∧ (e = -1074 ∨ 2 ^ 52 ≤ m) := by
  have hbias : ((Format.binary64.exponentBias : Int) +
      (Format.binary64.mantissaBitsWithoutImplicit : Int)) = 1075 := rfl
  simp only [UnpackedFloat.unpack, hbias] at hx
  have hmv : (unpackMantissa b).toNat < 2 ^ 52 :=
    (unpackMantissa b).isLt
  split at hx
  · split at hx <;> simp at hx
  · split at hx
    · rename_i h₀
      split at hx
      · simp at hx
      · obtain ⟨-, rfl, rfl⟩ := UnpackedFloat.finite.inj hx
        refine ⟨⟨h, by omega, ?_⟩, .inl ?_⟩ <;> simp [h₀]
    · rename_i h₀
      obtain ⟨-, rfl, rfl⟩ := UnpackedFloat.finite.inj hx
      have hne : 0 < (unpackExponent b).toNat := by
        rw [Nat.pos_iff_ne_zero]
        intro h
        exact h₀ (BitVec.eq_of_toNat_eq h)
      have hval : (1#1 ++ unpackMantissa b).toNat =
          2 ^ 52 + (unpackMantissa b).toNat := by
        rw [BitVec.toNat_append, ← Nat.shiftLeft_add_eq_or_of_lt hmv]
        rfl
      exact ⟨⟨h, by omega, by omega⟩, .inr (by omega)⟩

theorem mantissa_shiftRight (em : ExtendedMantissa) (k : Nat) :
    (em >>> k).mantissa = em.mantissa / 2 ^ k := by
  induction k with
  | zero => exact (Nat.div_one _).symm
  | succ k ih =>
    show (em >>> k).mantissa / 2 = _
    rw [ih, Nat.div_div_eq_div_mul, Nat.pow_succ]

theorem mantissa_ofMantissaAndAccuracy (m : Nat) (a : Accuracy) :
    (ExtendedMantissa.ofMantissaAndAccuracy m a).mantissa = m := by
  rcases a with _ | _ | _ | _ <;> rfl

theorem le_roundedMantissa (em : ExtendedMantissa) : em.mantissa ≤ em.roundedMantissa := by
  obtain ⟨m, r, s⟩ := em
  cases r <;> cases s <;>
    simp [ExtendedMantissa.roundedMantissa, ExtendedMantissa.accuracy, Accuracy.roundToNearestEven]

/-- A shift to the target exponent keeps the highest bits, 53 of them at most. -/
theorem encodable_shiftToTargetExponent {m : Nat} {e : Int} (hm : 0 < m) (he : -1074 ≤ e)
    (a : Accuracy) :
    Encodable (shiftToTargetExponent Format.binary64 m e a).1.mantissa
      (shiftToTargetExponent Format.binary64 m e a).2 := by
  have htarget : Format.binary64.targetExponent (totalExponent m e) =
      max (m.log2 + 1 + e - 53) (-1074) := rfl
  have hk : (Format.binary64.targetExponent (totalExponent m e) - e).toNat = m.log2 - 52 := by
    rw [htarget]
    omega
  simp only [shiftToTargetExponent, shiftToExponent, mantissa_shiftRight,
    mantissa_ofMantissaAndAccuracy, hk]
  have hlow : 2 ^ m.log2 ≤ m := Nat.log2_self_le (Nat.ne_of_gt hm)
  have hhigh : m < 2 ^ (m.log2 + 1) := Nat.lt_log2_self
  refine ⟨Nat.div_pos ?_ (Nat.two_pow_pos _), ?_, by omega⟩
  · exact Nat.le_trans (Nat.pow_le_pow_right Nat.zero_lt_two (Nat.sub_le _ _)) hlow
  · rw [Nat.div_lt_iff_lt_mul (Nat.two_pow_pos _), ← Nat.pow_add]
    exact Nat.lt_of_lt_of_le hhigh (Nat.pow_le_pow_right Nat.zero_lt_two (by omega))

theorem roundWithAccuracy_encodable (s : Sign) {m : Nat} {e : Int} (hm : 0 < m) (he : -1074 ≤ e)
    (a : Accuracy) :
    ∃ m' e', ∃ h : Encodable m' e',
      roundWithAccuracy Format.binary64 s m e a = .finite s m' e' h.pos := by
  have h₁ := encodable_shiftToTargetExponent hm he a
  have hpos := Nat.lt_of_lt_of_le h₁.pos (le_roundedMantissa _)
  -- the second shift takes up a carry of the rounding
  have h₂ := encodable_shiftToTargetExponent hpos h₁.least .exact
  refine ⟨_, _, h₂, ?_⟩
  unfold roundWithAccuracy
  exact dif_neg (Nat.ne_of_gt h₂.pos)

theorem round_encodable (s : Sign) {m : Nat} {e : Int} (hm : 0 < m) (he : -1074 ≤ e) :
    ∃ m' e', ∃ h : Encodable m' e', round Format.binary64 s m e = .finite s m' e' h.pos := by
  have htarget : -1074 ≤ Format.binary64.targetExponent (totalExponent m e) := by
    show -1074 ≤ max _ (-1074)
    omega
  refine roundWithAccuracy_encodable s ?_ ?_ .exact
  · rw [Nat.shiftLeft_eq]
    exact Nat.mul_pos hm (Nat.two_pow_pos _)
  · omega

/-- Mantissas at a common exponent compare as the numbers do. -/
theorem decreaseExponent_lt {m m' : Nat} {e e' t : Int} (hm : Encodable m e)
    (hm' : e' = -1074 ∨ 2 ^ 52 ≤ m') (h : (compare e e').then (compare m m') = .lt)
    (ht : t = min e e') : (decreaseExponent m e t).1 < (decreaseExponent m' e' t).1 := by
  subst ht
  have hlt₅₃ := hm.lt
  have hleast := hm.least
  simp only [decreaseExponent, Nat.shiftLeft_eq]
  rcases Ordering.then_eq_lt.1 h with h | ⟨h, h'⟩
  · have hlt : e < e' := Int.compare_eq_lt.1 h
    have hk : (e - min e e').toNat = 0 := by omega
    obtain ⟨k, hk'⟩ : ∃ k, (e' - min e e').toNat = k + 1 :=
      ⟨(e' - e).toNat - 1, by omega⟩
    have hm' : 2 ^ 52 ≤ m' := hm'.resolve_left (by omega)
    rw [hk, hk', Nat.pow_zero, Nat.mul_one]
    calc m < 2 ^ 52 * 2 ^ 1 := hlt₅₃
      _ ≤ m' * 2 ^ (k + 1) := Nat.mul_le_mul hm' (Nat.pow_le_pow_right Nat.zero_lt_two (by omega))
  · obtain rfl : e = e' := Int.compare_eq_eq.1 h
    have hlt : m < m' := Nat.compare_eq_lt.1 h'
    exact Nat.mul_lt_mul_of_pos_right hlt (Nat.two_pow_pos _)

/-- Signed mantissas at a common exponent compare as the numbers do. -/
theorem apply_lt_apply {s s' : Sign} {m m' : Nat} {e e' t : Int} {h : 0 < m} {h' : 0 < m'}
    (hm : Encodable m e) (hm' : Encodable m' e') (hfull : e = -1074 ∨ 2 ^ 52 ≤ m)
    (hfull' : e' = -1074 ∨ 2 ^ 52 ≤ m')
    (hlt : (UnpackedFloat.finite s m e h).compare (.finite s' m' e' h') = some .lt)
    (ht : t = min e e') :
    s.apply (decreaseExponent m e t).1 < s'.apply (decreaseExponent m' e' t).1 := by
  have hpos (m : Nat) (e : Int) (hm : 0 < m) : 0 < (decreaseExponent m e t).1 := by
    simp only [decreaseExponent, Nat.shiftLeft_eq]
    exact Nat.mul_pos hm (Nat.two_pow_pos _)
  cases s with
  | negative => cases s' with
    | negative =>
      have hlt : (compare e' e).then (compare m' m) = .lt := by
        rw [compare_then_swap]
        exact Option.some.inj hlt
      have hlt := decreaseExponent_lt hm' hfull hlt (ht.trans (Int.min_comm e e'))
      simp only [Sign.apply]
      omega
    | positive =>
      have hm := hpos m e h
      have hm' := hpos m' e' h'
      simp only [Sign.apply]
      omega
  | positive => cases s' with
    | negative => simp [UnpackedFloat.compare] at hlt
    | positive =>
      have hlt := decreaseExponent_lt hm hfull' (Option.some.inj hlt) ht
      simp only [Sign.apply]
      omega

/-- The difference of a finite number and a smaller one is positive. -/
theorem sub_encodable {x y : Float.Model} (hx : x.unpack.isFinite = true)
    (hy : y.unpack.isFinite = true) (h : x.unpack.compare y.unpack = some .lt) :
    ∃ m e, ∃ he : Encodable m e,
      UnpackedFloat.sub Format.binary64 y.unpack x.unpack = .finite .positive m e he.pos := by
  have hround {a b : Int} (e : Int) (hlt : a < b) (he : -1074 ≤ e) : ∃ m' e', ∃ h : Encodable m' e',
      UnpackedFloat.normalize Format.binary64 (b - a) e .positive =
        .finite .positive m' e' h.pos := by
    have hgt : compare (b - a) 0 = .gt := Int.compare_eq_gt.2 (by omega)
    simp only [UnpackedFloat.normalize, hgt]
    exact round_encodable .positive (by omega) he
  rcases hX : x.unpack with s | _ | s | ⟨s, m, e, hm⟩
  · simp [hX, UnpackedFloat.isFinite] at hx
  · simp [hX, UnpackedFloat.isFinite] at hx
  · rcases hY : y.unpack with s' | _ | s' | ⟨_ | _, m', e', hm'⟩
    · simp [hY, UnpackedFloat.isFinite] at hy
    · simp [hY, UnpackedFloat.isFinite] at hy
    · simp [hX, hY, UnpackedFloat.compare] at h
    · simp [hX, hY, UnpackedFloat.compare] at h
    · exact ⟨m', e', (encodable_unpack hY).1, rfl⟩
  · obtain ⟨hE, hE'⟩ := encodable_unpack hX
    rcases hY : y.unpack with s' | _ | s' | ⟨s', m', e', hm'⟩
    · simp [hY, UnpackedFloat.isFinite] at hy
    · simp [hY, UnpackedFloat.isFinite] at hy
    · cases s with
      | negative => exact ⟨m, e, hE, rfl⟩
      | positive => simp [hX, hY, UnpackedFloat.compare] at h
    · obtain ⟨hF, hF'⟩ := encodable_unpack hY
      rw [hX, hY] at h
      have hlt := apply_lt_apply hE hF hE' hF' h (Int.min_comm e' e)
      have hE := hE.least
      have hF := hF.least
      exact hround _ hlt (by omega)

theorem isFinite_unpack {x : Float} (h : Scalar.isFinite x = true) :
    x.toModel.unpack.isFinite = true := by
  have hsub : (x - x).toModel =
      Float.Model.pack (UnpackedFloat.sub Format.binary64 x.toModel.unpack x.toModel.unpack) := rfl
  obtain ⟨hle, -⟩ := Bool.and_eq_true_iff.1 h
  rw [le_iff, hsub] at hle
  rcases hx : x.toModel.unpack with s | _ | s | ⟨s, m, e, hm⟩
  · have hnan : UnpackedFloat.sub Format.binary64 (.infinity s) (.infinity s) = .notANumber := by
      cases s <;> rfl
    rw [hx, hnan, unpack_pack_notANumber] at hle
    simp [UnpackedFloat.compare] at hle
  · rw [hx] at hle
    have hnan : UnpackedFloat.sub Format.binary64 .notANumber .notANumber = .notANumber := rfl
    rw [hnan, unpack_pack_notANumber] at hle
    simp [UnpackedFloat.compare] at hle
  · rfl
  · rfl

theorem unpack_zero : (Scalar.zero : Float).toModel.unpack = .zero .positive := rfl

theorem eq_zero_iff {x : Float} :
    Scalar.eq x Scalar.zero = true ↔ ∃ s, x.toModel.unpack = .zero s := by
  rw [Scalar.eq, Bool.and_eq_true, le_iff, le_iff, unpack_zero]
  rcases x.toModel.unpack with (_ | _) | _ | s | ⟨_ | _, m, e, h⟩ <;>
    simp [UnpackedFloat.compare]

instance : OrderedScalar Float where
  lt_eq_false_of_le {x y} h := by
    rw [← Bool.not_eq_true, lt_iff, compare_swap]
    rcases le_iff.1 h with h | h <;> simp [h]
  le_eq_false_of_lt {x y} h := by
    rw [← Bool.not_eq_true, le_iff, compare_swap, lt_iff.1 h]
    simp
  le_of_lt h := le_iff.2 (.inl (lt_iff.1 h))
  le_self_of_le {x y} h := by
    refine le_iff.2 (.inr (compare_self fun hx => ?_))
    rcases le_iff.1 h with h | h <;> simp [hx, UnpackedFloat.compare] at h
  zero_lt_one := by decide
  le_self_of_isFinite {x} h := by
    refine le_iff.2 (.inr (compare_self fun hx => ?_))
    simpa [hx, UnpackedFloat.isFinite] using isFinite_unpack h
  sub_pos {x y} hx hy h := by
    obtain ⟨m, e, he, hsub⟩ :=
      sub_encodable (isFinite_unpack hx) (isFinite_unpack hy) (lt_iff.1 h)
    rw [lt_iff, unpack_zero]
    have hdiff : (y - x).toModel = Float.Model.pack (.finite .positive m e he.pos) :=
      congrArg Float.Model.pack hsub
    rw [hdiff]
    exact compare_zero_pack .positive he
  zero_div {x y} hx hy := by
    obtain ⟨s, hx⟩ := eq_zero_iff.1 hx
    rw [lt_iff, unpack_zero] at hy
    have hdiv : ∃ s', UnpackedFloat.div Format.binary64 (.zero s) y.toModel.unpack = .zero s' := by
      rcases hY : y.toModel.unpack with s' | _ | s' | ⟨s', m, e, h⟩
      · exact ⟨s / s', rfl⟩
      · simp [hY, UnpackedFloat.compare] at hy
      · simp [hY, UnpackedFloat.compare] at hy
      · exact ⟨s / s', rfl⟩
    obtain ⟨s', hdiv⟩ := hdiv
    refine eq_zero_iff.2 ⟨s', ?_⟩
    show (Float.Model.pack (UnpackedFloat.div _ x.toModel.unpack y.toModel.unpack)).unpack = _
    rw [hx, hdiv, unpack_pack_zero]

end Catchment.Double
