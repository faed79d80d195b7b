import Catchment.Proofs.DoubleOrder

/-!
# Whole doubles

Doubles hold the whole numbers below `2 ^ 53` exactly, and a product or quotient with one is the
number itself. So a time axis that counts its columns is finite and increases, for all columns that
a double can count.
-/
namespace Catchment.Double

open Float.Model Float.Model.UnpackedFloat

structure Full (m : Nat) (e : Int) : Prop where
  ge : 2 ^ 52 ≤ m
  lt : m < 2 ^ 53
  least : -1074 ≤ e

theorem Full.pos {m : Nat} {e : Int} (h : Full m e) : 0 < m :=
  Nat.lt_of_lt_of_le (Nat.two_pow_pos 52) h.ge

theorem Full.log2_mul {m : Nat} {e : Int} (h : Full m e) (k : Nat) :
    (m * 2 ^ k).log2 = 52 + k := by
  have hne : m * 2 ^ k ≠ 0 := Nat.mul_ne_zero (Nat.ne_of_gt h.pos) (Nat.ne_of_gt (Nat.two_pow_pos k))
  rw [Nat.log2_eq_iff hne]
  constructor
  · rw [Nat.pow_add]
    exact Nat.mul_le_mul_right _ h.ge
  · rw [Nat.add_right_comm, Nat.pow_add]
    exact Nat.mul_lt_mul_of_pos_right h.lt (Nat.two_pow_pos k)

/-- A shift that drops zeros only leaves no residue. -/
theorem shiftRight_mul_two_pow (m k : Nat) :
    (⟨m * 2 ^ k, false, false⟩ : ExtendedMantissa) >>> k = ⟨m, false, false⟩ := by
  induction k generalizing m with
  | zero => rw [Nat.pow_zero, Nat.mul_one]; rfl
  | succ k ih =>
    have hsplit : m * 2 ^ (k + 1) = 2 * m * 2 ^ k := by ring
    show ((⟨m * 2 ^ (k + 1), false, false⟩ : ExtendedMantissa) >>> k).shiftRightOne = _
    rw [hsplit, ih]
    simp [ExtendedMantissa.shiftRightOne]

theorem shiftToTargetExponent_full {m k : Nat} {e : Int} (h : Full m (e + k)) :
    shiftToTargetExponent Format.binary64 (m * 2 ^ k) e .exact = (⟨m, false, false⟩, e + k) := by
  have htarget : Format.binary64.targetExponent (totalExponent (m * 2 ^ k) e) =
      max ((m * 2 ^ k).log2 + 1 + e - 53) (-1074) := rfl
  have hleast := h.least
  have hk : (Format.binary64.targetExponent (totalExponent (m * 2 ^ k) e) - e).toNat = k := by
    rw [htarget, h.log2_mul]
    omega
  simp only [shiftToTargetExponent, shiftToExponent, hk]
  exact Prod.ext (shiftRight_mul_two_pow m k) rfl

/-- Rounding a full mantissa, with zeros appended, takes the zeros away. -/
theorem roundWithAccuracy_full (s : Sign) {m k : Nat} {e : Int} (h : Full m (e + k)) :
    roundWithAccuracy Format.binary64 s (m * 2 ^ k) e .exact = .finite s m (e + k) h.pos := by
  have hagain : shiftToTargetExponent Format.binary64 m (e + k) .exact =
      (⟨m, false, false⟩, e + k) := by
    have h₀ := shiftToTargetExponent_full (m := m) (k := 0) (e := e + k)
      (by rwa [Nat.cast_zero, add_zero])
    rwa [Nat.pow_zero, Nat.mul_one, Nat.cast_zero, add_zero] at h₀
  have hrounded : (⟨m, false, false⟩ : ExtendedMantissa).roundedMantissa = m := rfl
  simp only [roundWithAccuracy, shiftToTargetExponent_full h, hrounded, hagain]
  exact dif_neg (Nat.ne_of_gt h.pos)

/-- A full mantissa is stored as it is. -/
theorem unpack_pack_full {m : Nat} {e : Int} (h : Full m e) (hmost : e < 971) :
    (Float.Model.pack (.finite .positive m e h.pos)).unpack = .finite .positive m e h.pos := by
  have hge := h.ge
  have hlt := h.lt
  have hleast := h.least
  have hbias : e + (Format.binary64.exponentBias : Int) +
      (Format.binary64.mantissaBitsWithoutImplicit : Int) = e + 1075 := by
    show e + 1023 + 52 = e + 1075
    omega
  have hbits : Format.binary64.mantissaBits = 53 := rfl
  have hlog : m.log2 + 1 = 53 := by simpa using h.log2_mul 0
  have hsmall : ¬ 2 ^ 11 ≤ (e + 1075).toNat + 1 := by omega
  show UnpackedFloat.unpack Format.binary64
    (UnpackedFloat.pack Format.binary64 (.finite .positive m e h.pos)) = _
  simp only [UnpackedFloat.pack, hbias, hbits]
  rw [if_neg hsmall, if_pos hlog]
  have hsign : Sign.ofBitVec (Sign.toBitVec .positive) = .positive := rfl
  simp only [UnpackedFloat.unpack, unpackMantissa_packComponents, unpackExponent_packComponents,
    unpackSign_packComponents, hsign]
  have hexponent : (BitVec.ofNat 11 (e + 1075).toNat).toNat = (e + 1075).toNat := by
    rw [BitVec.toNat_ofNat]
    exact Nat.mod_eq_of_lt (by omega)
  have hmantissa : (1#1 ++ BitVec.ofNat 52 m).toNat = m := by
    have hrest : (BitVec.ofNat 52 m).toNat = m - 2 ^ 52 := by
      rw [BitVec.toNat_ofNat]
      omega
    rw [BitVec.toNat_append, ← Nat.shiftLeft_add_eq_or_of_lt (by rw [hrest]; omega), hrest]
    show 1 <<< 52 + (m - 2 ^ 52) = m
    omega
  have hbias' : ((Format.binary64.exponentBias : Int) +
      (Format.binary64.mantissaBitsWithoutImplicit : Int)) = 1075 := rfl
  rw [if_neg, if_neg]
  · simp only [finite.injEq, true_and]
    refine ⟨hmantissa, ?_⟩
    rw [hbias']
    show ((BitVec.ofNat 11 (e + 1075).toNat).toNat : Int) - 1075 = e
    rw [hexponent]
    omega
  · intro hzero
    have := congrArg BitVec.toNat hzero
    rw [show (BitVec.ofNat _ (e + 1075).toNat).toNat = (e + 1075).toNat from hexponent] at this
    simp at this
    omega
  · intro hones
    have := congrArg BitVec.toNat hones
    rw [show (BitVec.ofNat _ (e + 1075).toNat).toNat = (e + 1075).toNat from hexponent] at this
    simp at this
    omega

def Stores (x : Float) (m : Nat) (e : Int) : Prop :=
  ∃ h : Full m e, x.toModel.unpack = .finite .positive m e h.pos

theorem stores_of_pack {x : Float} {m : Nat} {e : Int} (h : Full m e) (hmost : e < 971)
    (hx : x.toModel = Float.Model.pack (.finite .positive m e h.pos)) : Stores x m e :=
  ⟨h, by rw [hx, unpack_pack_full h hmost]⟩

theorem stores_one : Stores (Float.ofBits 4607182418800017408) (2 ^ 52) (-52) :=
  ⟨⟨Nat.le_refl _, by decide, by decide⟩, rfl⟩

theorem Stores.mul_one {x one : Float} {m : Nat} {e : Int} (h : Stores x m e) (hmost : e < 971)
    (hone : Stores one (2 ^ 52) (-52)) : Stores (x * one) m e := by
  obtain ⟨hfull, hx⟩ := h
  obtain ⟨hfull', hone⟩ := hone
  refine stores_of_pack hfull hmost ?_
  have hround := roundWithAccuracy_full .positive (m := m) (k := 52) (e := e - 52)
    (by rwa [show e - 52 + ((52 : Nat) : Int) = e by omega])
  have hmul : (x * one).toModel = Float.Model.pack (UnpackedFloat.mul Format.binary64
    x.toModel.unpack one.toModel.unpack) := rfl
  rw [hmul, hx, hone]
  show Float.Model.pack (roundWithAccuracy Format.binary64 .positive (m * 2 ^ 52) (e + -52) .exact) = _
  rw [← Int.sub_eq_add_neg, hround]
  congr 2
  omega

theorem Stores.div_one {x one : Float} {m : Nat} {e : Int} (h : Stores x m e) (hmost : e < 971)
    (hleast : -1074 < e) (hone : Stores one (2 ^ 52) (-52)) : Stores (x / one) m e := by
  obtain ⟨hfull, hx⟩ := h
  obtain ⟨hfull', hone⟩ := hone
  refine stores_of_pack hfull hmost ?_
  have hdiv : (x / one).toModel = Float.Model.pack (UnpackedFloat.div Format.binary64
    x.toModel.unpack one.toModel.unpack) := rfl
  rw [hdiv, hx, hone]
  have hcore : divCore Format.binary64 m e (2 ^ 52) (-52) = (m * 2 ^ 1, e - 1, .exact) := by
    have hlog : m.log2 = 52 := by simpa using hfull.log2_mul 0
    have htotal : totalExponent m e - totalExponent (2 ^ 52) (-52) = e + 52 := by
      show ((m.log2 : Int) + 1 + e) - (((2 ^ 52 : Nat).log2 : Int) + 1 + -52) = e + 52
      rw [hlog, Nat.log2_two_pow]
      omega
    have htarget : min (e - -52) (Format.binary64.targetExponent (e + 52)) = e - 1 := by
      show min (e - -52) (max (e + 52 - 53) (-1074)) = e - 1
      omega
    have hshift : (e - -52 - (e - 1)).toNat = 53 := by omega
    have hvalue : m <<< 53 = m * 2 ^ 1 * 2 ^ 52 := by
      rw [Nat.shiftLeft_eq]
      ring
    simp only [divCore, htotal, htarget, hshift, hvalue,
      Nat.mul_div_cancel _ (Nat.two_pow_pos 52), Nat.mul_mod_left]
    rfl
  have hround := roundWithAccuracy_full .positive (m := m) (k := 1) (e := e - 1)
    (by rwa [show e - 1 + ((1 : Nat) : Int) = e by omega])
  show Float.Model.pack (match divCore Format.binary64 m e (2 ^ 52) (-52) with
    | (m, e, acc) => roundWithAccuracy Format.binary64 .positive m e acc) = _
  rw [hcore]
  dsimp only
  rw [hround]
  congr 2
  omega

def wholeMantissa (n : Nat) : Nat := n * 2 ^ (52 - n.log2)

def wholeExponent (n : Nat) : Int := n.log2 - 52

theorem log2_le_of_lt {n : Nat} (hpos : 0 < n) (hlt : n < 2 ^ 53) : n.log2 ≤ 52 :=
  Nat.le_of_lt_succ ((Nat.log2_lt (Nat.ne_of_gt hpos)).2 hlt)

theorem full_whole {n : Nat} (hpos : 0 < n) (hlt : n < 2 ^ 53) :
    Full (wholeMantissa n) (wholeExponent n) := by
  have hlog := log2_le_of_lt hpos hlt
  refine ⟨?_, ?_, by rw [wholeExponent]; omega⟩
  · calc 2 ^ 52 = 2 ^ n.log2 * 2 ^ (52 - n.log2) := by rw [← Nat.pow_add, Nat.add_sub_cancel' hlog]
      _ ≤ wholeMantissa n := Nat.mul_le_mul_right _ (Nat.log2_self_le (Nat.ne_of_gt hpos))
  · calc wholeMantissa n < 2 ^ (n.log2 + 1) * 2 ^ (52 - n.log2) :=
          Nat.mul_lt_mul_of_pos_right Nat.lt_log2_self (Nat.two_pow_pos _)
      _ = 2 ^ 53 := by rw [← Nat.pow_add]; congr 1; omega

theorem stores_ofUInt64 {n : Nat} (hpos : 0 < n) (hlt : n < 2 ^ 53) :
    Stores n.toUInt64.toFloat (wholeMantissa n) (wholeExponent n) := by
  have hfull := full_whole hpos hlt
  have hlog := log2_le_of_lt hpos hlt
  refine stores_of_pack hfull (by rw [wholeExponent]; omega) ?_
  have hn : n.toUInt64.toNat = n := by
    rw [UInt64.toNat_ofNat']
    exact Nat.mod_eq_of_lt (by omega)
  have hgt : compare (n : Int) 0 = .gt := Int.compare_eq_gt.2 (by omega)
  have htarget : Format.binary64.targetExponent (totalExponent n 0) = wholeExponent n := by
    show max ((n.log2 : Int) + 1 + 0 - 53) (-1074) = (n.log2 : Int) - 52
    omega
  have hround := roundWithAccuracy_full .positive (m := wholeMantissa n) (k := 0)
    (e := wholeExponent n) (by rwa [Nat.cast_zero, add_zero])
  show Float.Model.pack (UnpackedFloat.ofNat Format.binary64 n.toUInt64.toNat) = _
  rw [hn]
  simp only [UnpackedFloat.ofNat, UnpackedFloat.ofInt, UnpackedFloat.normalize, hgt,
    UnpackedFloat.round, Int.toNat_natCast, htarget, decreaseExponent]
  have hshift : (0 - wholeExponent n).toNat = 52 - n.log2 := by rw [wholeExponent]; omega
  have hexponent : 0 - ((52 - n.log2 : Nat) : Int) = wholeExponent n := by rw [wholeExponent]; omega
  rw [hshift, hexponent, Nat.shiftLeft_eq]
  rw [Nat.pow_zero, Nat.mul_one] at hround
  refine congrArg Float.Model.pack (hround.trans ?_)
  congr 1
  exact add_zero _

/-- A whole number below `2 ^ 53` is stored exactly. -/
theorem stores_ofInt {n : Nat} (hpos : 0 < n) (hlt : n < 2 ^ 53) :
    Stores (Scalar.ofInt n) (wholeMantissa n) (wholeExponent n) := by
  have hlog := log2_le_of_lt hpos hlt
  have hmost : wholeExponent n < 971 := by rw [wholeExponent]; omega
  have hleast : -1074 < wholeExponent n := by rw [wholeExponent]; omega
  have hone : Stores (Float.ofNat 1) (2 ^ 52) (-52) := ⟨⟨Nat.le_refl _, by decide, by decide⟩, rfl⟩
  have hvalue : (Scalar.ofInt n : Float) =
      n.toUInt64.toFloat * Float.ofBits 4607182418800017408 / Float.ofNat 1 := by
    have hof : Float.ofNat n = n.toUInt64.toFloat * Float.ofBits 4607182418800017408 :=
      dif_pos ⟨hlt, by decide⟩
    show Float.ofNat n / Float.ofNat 1 = _
    rw [hof]
  rw [hvalue]
  exact ((stores_ofUInt64 hpos hlt).mul_one hmost stores_one).div_one hmost hleast hone

theorem isFinite_of_stores {x : Float} {m : Nat} {e : Int} (h : Stores x m e) :
    Scalar.isFinite x = true := by
  obtain ⟨hfull, hx⟩ := h
  have hsub : (x - x).toModel = Float.Model.pack
    (UnpackedFloat.sub Format.binary64 x.toModel.unpack x.toModel.unpack) := rfl
  have hzero : UnpackedFloat.sub Format.binary64 (.finite .positive m e hfull.pos)
      (.finite .positive m e hfull.pos) = .zero .positive := by
    simp only [UnpackedFloat.sub, Int.sub_self, UnpackedFloat.normalize]
    rfl
  refine eq_zero_iff.2 ⟨.positive, ?_⟩
  rw [hsub, hx, hzero, unpack_pack_zero]

theorem isFinite_ofInt {n : Nat} (hlt : n < 2 ^ 53) :
    Scalar.isFinite (Scalar.ofInt n : Float) = true := by
  rcases Nat.eq_zero_or_pos n with rfl | hpos
  · decide +kernel
  · exact isFinite_of_stores (stores_ofInt hpos hlt)

theorem compare_whole {n n' : Nat} (hpos : 0 < n) (h : n < n') :
    (compare (wholeExponent n) (wholeExponent n')).then
      (compare (wholeMantissa n) (wholeMantissa n')) = .lt := by
  have hlog : n.log2 ≤ n'.log2 := by
    refine (Nat.le_log2 (by omega)).2 ?_
    exact (Nat.log2_self_le (Nat.ne_of_gt hpos)).trans h.le
  rw [Ordering.then_eq_lt]
  rcases hlog.lt_or_eq with hlog | hlog
  · exact .inl (Int.compare_eq_lt.2 (by simp only [wholeExponent]; omega))
  · refine .inr ⟨Int.compare_eq_eq.2 (by rw [wholeExponent, wholeExponent, hlog]), ?_⟩
    rw [Nat.compare_eq_lt, wholeMantissa, wholeMantissa, hlog]
    exact Nat.mul_lt_mul_of_pos_right h (Nat.two_pow_pos _)

theorem lt_ofInt {n n' : Nat} (h : n < n') (hlt : n' < 2 ^ 53) :
    Scalar.lt (Scalar.ofInt n : Float) (Scalar.ofInt n') = true := by
  obtain ⟨hfull', hn'⟩ := stores_ofInt (Nat.zero_lt_of_lt h) hlt
  rw [lt_iff, hn']
  rcases Nat.eq_zero_or_pos n with rfl | hpos
  · rfl
  · obtain ⟨hfull, hn⟩ := stores_ofInt hpos (h.trans hlt)
    rw [hn]
    exact congrArg some (compare_whole hpos h)

/-- Counted times are finite and increase. -/
theorem strictTimes_counted {t : Nat} (ht : t ≤ 2 ^ 53) :
    StrictTimes ((List.range t).map fun (i : Nat) => (Scalar.ofInt i : Float)) where
  finite x hx := by
    obtain ⟨i, hi, rfl⟩ := List.mem_map.1 hx
    exact isFinite_ofInt (Nat.lt_of_lt_of_le (List.mem_range.1 hi) ht)
  increasing := by
    refine List.pairwise_map.2 (List.pairwise_lt_range.imp_of_mem fun _ hj h => ?_)
    exact lt_ofInt h (Nat.lt_of_lt_of_le (List.mem_range.1 hj) ht)

end Catchment.Double
