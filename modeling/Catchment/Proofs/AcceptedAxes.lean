import Catchment.Proofs.DoubleTexts
import Catchment.Proofs.LateFaults
import Catchment.Proofs.NamedRoutes
import Catchment.Proofs.NodewiseRuns
import Mathlib

/-!
# Accepted axes

Times are refused if the difference of two neighbours is not positive. A difference of doubles is
not positive if and only if there is one and the second number is not above the first. So accepted
times increase, except where a time is missing or an infinity stands twice in a row.
-/
namespace Catchment

namespace Double

open Float.Model Float.Model.UnpackedFloat

inductive Signed (s : Sign) : UnpackedFloat → Prop
  | infinity : Signed s (.infinity s)
  | zero : Signed s (.zero s)
  | finite (m : Nat) (e : Int) (h : 0 < m) : Signed s (.finite s m e h)

theorem Signed.ne_notANumber {s : Sign} {u : UnpackedFloat} (h : Signed s u) : u ≠ .notANumber := by
  cases h <;> exact nofun

theorem signed_packComponents (s : Sign) {e : BitVec 11} {m : BitVec 52}
    (hmissing : e = -1#11 → m = 0#52) :
    Signed s (UnpackedFloat.unpack Format.binary64 (packComponents Format.binary64 s e m)) := by
  have hsign : Sign.ofBitVec s.toBitVec = s := by cases s <;> rfl
  simp only [UnpackedFloat.unpack, unpackMantissa_packComponents, unpackExponent_packComponents,
    unpackSign_packComponents, hsign]
  split_ifs with h h' h'' h'''
  · exact .infinity
  · exact absurd (hmissing h) h'
  · exact .zero
  · exact .finite _ _ _
  · exact .finite _ _ _

/-- A finite number is packed with its sign, and as a number. -/
theorem signed_pack_finite (s : Sign) (m : Nat) (e : Int) (h : 0 < m) :
    Signed s (Float.Model.pack (.finite s m e h)).unpack := by
  show Signed s (UnpackedFloat.unpack Format.binary64
    (UnpackedFloat.pack Format.binary64 (.finite s m e h)))
  simp only [UnpackedFloat.pack]
  split_ifs with hbig hnormal
  · exact signed_packComponents s fun _ => rfl
  · refine signed_packComponents s fun hones => ?_
    have hval := congrArg BitVec.toNat hones
    have hones : (-1#11).toNat = 2 ^ 11 - 1 := by decide
    change ¬ 2 ^ 11 ≤ _ + 1 at hbig
    rw [BitVec.toNat_ofNat, hones] at hval
    have hmod := Nat.mod_le (e + (Format.binary64.exponentBias : Int) +
      (Format.binary64.mantissaBitsWithoutImplicit : Int)).toNat (2 ^ 11)
    omega
  · exact signed_packComponents s fun hones => absurd hones (by decide)

theorem signed_pack {s : Sign} {u : UnpackedFloat} (h : Signed s u) :
    Signed s (Float.Model.pack u).unpack := by
  cases h with
  | infinity => cases s <;> exact .infinity
  | zero =>
    rw [unpack_pack_zero]
    exact .zero
  | finite m e h => exact signed_pack_finite s m e h

theorem signed_or_notANumber (u : UnpackedFloat) : u = .notANumber ∨ ∃ s, Signed s u := by
  cases u with
  | notANumber => exact .inl rfl
  | infinity s => exact .inr ⟨s, .infinity⟩
  | zero s => exact .inr ⟨s, .zero⟩
  | finite s m e h => exact .inr ⟨s, .finite m e h⟩

theorem unpack_pack_eq_notANumber {u : UnpackedFloat} :
    (Float.Model.pack u).unpack = .notANumber ↔ u = .notANumber := by
  rcases signed_or_notANumber u with rfl | ⟨s, h⟩
  · exact iff_of_true rfl rfl
  · exact iff_of_false (signed_pack h).ne_notANumber h.ne_notANumber

def NotPositive (u : UnpackedFloat) : Prop :=
  u = .notANumber ∨ (∃ s, u = .zero s) ∨ Signed .negative u

theorem signed_round (s : Sign) (m : Nat) (e : Int) :
    Signed s (UnpackedFloat.round Format.binary64 s m e) := by
  unfold UnpackedFloat.round roundWithAccuracy
  dsimp only
  split_ifs
  · exact .zero
  · exact .finite _ _ _

theorem notPositive_normalize {a : Int} (ha : a ≤ 0) (e : Int) :
    NotPositive (UnpackedFloat.normalize Format.binary64 a e .positive) := by
  unfold UnpackedFloat.normalize
  rcases Int.lt_or_eq_of_le ha with hlt | rfl
  · rw [Int.compare_eq_lt.2 hlt]
    exact .inr (.inr (signed_round .negative _ _))
  · exact .inr (.inl ⟨_, rfl⟩)

theorem normalize_ne_notANumber (a e : Int) :
    UnpackedFloat.normalize Format.binary64 a e .positive ≠ .notANumber := by
  unfold UnpackedFloat.normalize
  split
  · exact (signed_round .negative _ _).ne_notANumber
  · exact nofun
  · exact (signed_round .positive _ _).ne_notANumber

/-- The difference of finite numbers of which the first is not above the second is not positive. -/
theorem notPositive_sub_finite {s s' : Sign} {m m' : Nat} {e e' : Int} {hm : 0 < m} {hm' : 0 < m'}
    (hE : Encodable m e ∧ (e = -1074 ∨ 2 ^ 52 ≤ m))
    (hE' : Encodable m' e' ∧ (e' = -1074 ∨ 2 ^ 52 ≤ m'))
    (h : (UnpackedFloat.finite s m e hm).compare (.finite s' m' e' hm') = some .lt ∨
      (UnpackedFloat.finite s m e hm).compare (.finite s' m' e' hm') = some .eq) :
    NotPositive (UnpackedFloat.sub Format.binary64 (.finite s m e hm) (.finite s' m' e' hm')) := by
  have hle : s.apply (decreaseExponent m e (min e e')).1 -
      s'.apply (decreaseExponent m' e' (min e e')).1 ≤ 0 := by
    rcases h with hlt | heq
    · have hlt := apply_lt_apply hE.1 hE'.1 hE.2 hE'.2 hlt rfl
      omega
    · rcases (compare_eq_iff.1 heq).2 with hsame | ⟨_, _, hzero, -⟩
      · obtain ⟨rfl, rfl, rfl⟩ := UnpackedFloat.finite.inj hsame
        omega
      · exact absurd hzero nofun
  exact notPositive_normalize hle _

/-- The difference of a number and one that is not below it is not positive. -/
theorem notPositive_sub {x y : Float.Model}
    (h : y.unpack.compare x.unpack = some .lt ∨ y.unpack.compare x.unpack = some .eq) :
    NotPositive (UnpackedFloat.sub Format.binary64 y.unpack x.unpack) := by
  have hmissing : NotPositive .notANumber := .inl rfl
  have hzero (s : Sign) : NotPositive (.zero s) := .inr (.inl ⟨s, rfl⟩)
  have hinfinity : NotPositive (.infinity .negative) := .inr (.inr .infinity)
  have hfinite (m : Nat) (e : Int) (hm : 0 < m) : NotPositive (.finite .negative m e hm) :=
    .inr (.inr (.finite m e hm))
  rcases hX : x.unpack with (_ | _) | _ | (_ | _) | ⟨_ | _, m, e, hm⟩ <;>
    rcases hY : y.unpack with (_ | _) | _ | (_ | _) | ⟨_ | _, m', e', hm'⟩ <;>
    rw [hX, hY] at h <;>
    first
    | exact notPositive_sub_finite (encodable_unpack hY) (encodable_unpack hX) h
    | exact hmissing
    | exact hzero _
    | exact hinfinity
    | exact hfinite _ _ _
    | simp [UnpackedFloat.compare] at h

/-- A difference is missing where a number is, or where both are the same infinity. -/
theorem sub_eq_notANumber_iff {x y : UnpackedFloat} :
    UnpackedFloat.sub Format.binary64 y x = .notANumber ↔
      x = .notANumber ∨ y = .notANumber ∨ ∃ s, x = .infinity s ∧ y = .infinity s := by
  have hnegative : -Sign.negative = .positive := rfl
  have hpositive : -Sign.positive = .negative := rfl
  rcases x with (_ | _) | _ | (_ | _) | ⟨_ | _, m, e, hm⟩ <;>
    rcases y with (_ | _) | _ | (_ | _) | ⟨_ | _, m', e', hm'⟩ <;>
    simp [UnpackedFloat.sub, normalize_ne_notANumber, hnegative, hpositive]

theorem unpack_inj {x y : Float} (h : x.toModel.unpack = y.toModel.unpack) : x = y := by
  have hx := pack_unpack_of_valid x.toModel.valid
  have hy := pack_unpack_of_valid y.toModel.valid
  have hbits : x.toModel.toBits.toBitVec = y.toModel.toBits.toBitVec := by
    rw [← hx, ← hy]
    exact congrArg (UnpackedFloat.pack Format.binary64) h
  exact eq_of_toBits (UInt64.toBitVec_inj.1 hbits)

theorem isInf_iff {x : Float} : x.isInf = true ↔ ∃ s, x.toModel.unpack = .infinity s := by
  rw [isInf_eq]
  cases x.toModel.unpack <;> simp [UnpackedFloat.isInf]

theorem unpack_sub (x y : Float) : (y - x).toModel.unpack = (Float.Model.pack
    (UnpackedFloat.sub Format.binary64 y.toModel.unpack x.toModel.unpack)).unpack :=
  rfl

/-- There is no difference of doubles where one is missing, or where both are the same infinity. -/
theorem isNaN_sub_iff {x y : Float} : Scalar.isNaN (y - x) = true ↔
    Scalar.isNaN x = true ∨ Scalar.isNaN y = true ∨ x.isInf = true ∧ x = y := by
  have hsame : (∃ s, x.toModel.unpack = .infinity s ∧ y.toModel.unpack = .infinity s) ↔
      x.isInf = true ∧ x = y := by
    rw [isInf_iff]
    constructor
    · rintro ⟨s, hx, hy⟩
      exact ⟨⟨s, hx⟩, unpack_inj (hx.trans hy.symm)⟩
    · rintro ⟨⟨s, hx⟩, rfl⟩
      exact ⟨s, hx, hx⟩
  rw [isNaN_iff, isNaN_iff, isNaN_iff, unpack_sub, unpack_pack_eq_notANumber,
    sub_eq_notANumber_iff, hsame]

theorem NotPositive.pack {u : UnpackedFloat} (h : NotPositive u) :
    NotPositive (Float.Model.pack u).unpack := by
  rcases h with rfl | ⟨s, rfl⟩ | h
  · exact .inl rfl
  · exact .inr (.inl ⟨s, unpack_pack_zero s⟩)
  · exact .inr (.inr (signed_pack h))

theorem NotPositive.compare_zero {u : UnpackedFloat} (h : NotPositive u) (hu : u ≠ .notANumber) :
    u.compare (.zero .positive) = some .lt ∨ u.compare (.zero .positive) = some .eq := by
  rcases h with h | ⟨s, rfl⟩ | h
  · exact absurd h hu
  · exact .inr (by cases s <;> rfl)
  · cases h with
    | zero => exact .inr rfl
    | _ => exact .inl rfl

/-- A difference of doubles is positive if the first is above the second, infinite ones included. -/
theorem zero_lt_sub {x y : Float} (h : Scalar.lt x y = true) :
    Scalar.lt Scalar.zero (y - x) = true := by
  rw [lt_iff] at h ⊢
  rw [unpack_zero, unpack_sub]
  by_cases hfinite : x.toModel.unpack.isFinite = true ∧ y.toModel.unpack.isFinite = true
  · obtain ⟨m, e, he, hsub⟩ := sub_encodable hfinite.1 hfinite.2 h
    rw [hsub]
    exact compare_zero_pack .positive he
  · have hsub : UnpackedFloat.sub Format.binary64 y.toModel.unpack x.toModel.unpack =
        .infinity .positive := by
      rcases hX : x.toModel.unpack with (_ | _) | _ | (_ | _) | ⟨_ | _, m, e, hm⟩ <;>
        rcases hY : y.toModel.unpack with (_ | _) | _ | (_ | _) | ⟨_ | _, m', e', hm'⟩ <;>
        rw [hX, hY] at h hfinite <;>
        first
        | rfl
        | exact absurd ⟨rfl, rfl⟩ hfinite
        | simp [UnpackedFloat.compare] at h
    rw [hsub]
    rfl

/-- Numbers that are not missing are in order. -/
theorem le_or_lt {x y : Float} (hx : Scalar.isNaN x = false) (hy : Scalar.isNaN y = false) :
    Scalar.le y x = true ∨ Scalar.lt x y = true := by
  rw [← Bool.not_eq_true, isNaN_iff] at hx hy
  rw [le_iff, lt_iff, compare_swap]
  rcases hcompare : x.toModel.unpack.compare y.toModel.unpack with _ | (_ | _ | _)
  · rcases hX : x.toModel.unpack with (_ | _) | _ | (_ | _) | ⟨_ | _, m, e, hm⟩ <;>
      rcases hY : y.toModel.unpack with (_ | _) | _ | (_ | _) | ⟨_ | _, m', e', hm'⟩ <;>
      simp [hX, hY, UnpackedFloat.compare] at hx hy hcompare
  · exact .inr rfl
  · exact .inl (.inr rfl)
  · exact .inl (.inl rfl)

/-- A difference of doubles is not positive if and only if there is one and the first is not above
the second. -/
theorem sub_le_zero_iff {x y : Float} : Scalar.le (y - x) Scalar.zero = true ↔
    Scalar.le y x = true ∧ Scalar.isNaN (y - x) = false := by
  constructor
  · intro h
    have hdefined : Scalar.isNaN (y - x) = false := by
      simp [Scalar.isNaN, OrderedScalar.le_self_of_le h]
    have hnumbers := hdefined
    rw [← Bool.not_eq_true, isNaN_sub_iff, not_or, not_or, Bool.not_eq_true, Bool.not_eq_true]
      at hnumbers
    refine ⟨(le_or_lt hnumbers.1 hnumbers.2.1).resolve_right fun hlt => ?_, hdefined⟩
    rw [OrderedScalar.le_eq_false_of_lt (zero_lt_sub hlt)] at h
    exact Bool.false_ne_true h
  · rintro ⟨hle, hdefined⟩
    rw [← Bool.not_eq_true, isNaN_iff, unpack_sub] at hdefined
    rw [le_iff, unpack_zero, unpack_sub]
    exact (notPositive_sub (le_iff.1 hle)).pack.compare_zero hdefined

end Double

/-- Neighbours that an axis may have: the second is above the first, or one of the two is missing,
or they are the same infinity. -/
def AcceptedPair (x y : Float) : Prop :=
  Scalar.lt x y = true ∨ Scalar.isNaN x = true ∨ Scalar.isNaN y = true ∨ x.isInf = true ∧ x = y

theorem acceptedPair_iff {x y : Float} :
    AcceptedPair x y ↔ Scalar.le (y - x) Scalar.zero = false := by
  rw [AcceptedPair, ← Double.isNaN_sub_iff, ← Bool.not_eq_true (Scalar.le _ _),
    Double.sub_le_zero_iff, not_and_or, Bool.not_eq_false]
  constructor
  · rintro (hlt | hmissing)
    · rw [OrderedScalar.le_eq_false_of_lt hlt]
      exact .inl Bool.false_ne_true
    · exact .inr hmissing
  · rintro (hle | hmissing)
    · by_cases hdefined : Scalar.isNaN (y - x) = true
      · exact .inr hdefined
      · rw [Double.isNaN_sub_iff, not_or, not_or, Bool.not_eq_true, Bool.not_eq_true] at hdefined
        exact .inl ((Double.le_or_lt hdefined.1 hdefined.2.1).resolve_left hle)
    · exact .inr hmissing

theorem unorderedTimes_eq_false_iff {times : List Float} :
    unorderedTimes times = false ↔ times.IsChain AcceptedPair := by
  induction times with
  | nil => simp [unorderedTimes]
  | cons x times ih =>
    cases times with
    | nil => simp [unorderedTimes]
    | cons y times =>
      rw [unorderedTimes, Bool.or_eq_false_iff, ih, List.isChain_cons_cons, acceptedPair_iff]

namespace Forcing

variable {s : Shape} {times : List Float} {columns : List (Grid s Float)}

/-- Columns are accepted with as many times, at least one, of which all neighbours are accepted;
otherwise the shapes are at fault. -/
theorem make_accepts :
    ((∃ f, make times columns = .ok f) ↔
      columns.length = times.length ∧ 0 < times.length ∧ times.IsChain AcceptedPair) ∧
    ∀ f, make times columns = .error f → ∃ cause, f = .shape cause := by
  refine ⟨by rw [make_eq_ok_iff, unorderedTimes_eq_false_iff], fun f h => ?_⟩
  unfold make at h
  split_ifs at h <;> exact ⟨_, (Except.error.inj h).symm⟩

/-- Times of which none is missing and no infinity stands twice in a row are accepted if and only if
each is before the next. -/
theorem make_accepts_increasing (hmissing : ∀ x ∈ times, Scalar.isNaN x = false)
    (hinfinite : times.IsChain fun x y => ¬(x.isInf = true ∧ x = y)) :
    (∃ f, make times columns = .ok f) ↔ columns.length = times.length ∧ 0 < times.length ∧
      times.IsChain fun x y => Scalar.lt x y = true := by
  have hchain : times.IsChain AcceptedPair ↔ times.IsChain fun x y => Scalar.lt x y = true := by
    simp only [List.isChain_iff_getElem] at hinfinite ⊢
    refine forall_congr' fun i => forall_congr' fun hi => ⟨fun h => ?_, .inl⟩
    rcases h with hlt | hx | hy | hsame
    · exact hlt
    · simp [hmissing _ (List.getElem_mem _)] at hx
    · simp [hmissing _ (List.getElem_mem _)] at hy
    · exact absurd hsame (hinfinite i hi)
  rw [make_accepts.1, hchain]

/-- Times that go back over a missing one are accepted. -/
theorem turned_times_accepted :
    (∃ f, make [(3 : Float), Scalar.nan, 1]
      [Grid.replicate (s := [1]) 1, .replicate 2, .replicate 3] = .ok f) ∧
      Scalar.lt (1 : Float) 3 = true := by
  refine ⟨make_accepts.1.2 ⟨rfl, by decide, ?_⟩, by decide +kernel⟩
  have hmissing : Scalar.isNaN (Scalar.nan : Float) = true := by decide +kernel
  exact .cons_cons (.inr (.inr (.inl hmissing))) (.cons_cons (.inr (.inl hmissing)) (.singleton _))

end Forcing

/-- An interpolation of values along their last axis is made if and only if its times are accepted
for as many columns. -/
theorem forcingOf_accepts {values times : Nested Float} {v axis : Tensor Float} {s : Shape}
    {columns : List (Grid s Float)} (hvalues : values.toTensor = .ok v)
    (hcolumns : v.columns? = some ⟨s, columns⟩) (htimes : times.toTensor = .ok axis)
    (hrank : axis.shape.length = 1) :
    ((∃ f, forcingOf values times = .ok f) ↔ columns.length = axis.toList.length ∧
      0 < axis.toList.length ∧ axis.toList.IsChain AcceptedPair) ∧
    ∀ f, forcingOf values times = .error f → ∃ cause, f = .shape cause := by
  have hmake : forcingOf values times =
      (Forcing.make axis.toList columns).bind fun f => .ok ⟨s, f⟩ := by
    rw [forcingOf, hvalues, ok_bind, htimes, ok_bind, hcolumns]
    simp only [hrank, bne_self_eq_false, Bool.false_eq_true, if_false]
    rfl
  obtain ⟨haccepts, hfaults⟩ := @Forcing.make_accepts s axis.toList columns
  rw [hmake, ← haccepts]
  cases hforcing : Forcing.make axis.toList columns with
  | ok f => exact ⟨iff_of_true ⟨_, rfl⟩ ⟨f, rfl⟩, fun _ h => nomatch h⟩
  | error f =>
    refine ⟨iff_of_false (fun ⟨_, h⟩ => nomatch h) (fun ⟨_, h⟩ => nomatch h), fun g h => ?_⟩
    obtain rfl : f = g := Except.error.inj h
    exact hfaults f hforcing

/-- A bucket with states that returns something has accepted its times. -/
theorem Bucket.ordered_of_run {K : Type} [Scalar K] {n t : Nat} {b : Bucket K} {d : RunData n t K}
    (hne : b.states ≠ []) {rows : List (Grid [n, t] K)} {out : Outcome n t K}
    (h : b.run d rows = .ok out) : unorderedTimes d.times = false := by
  have hstates : b.states.isEmpty = false := by simpa using hne
  rw [run, hstates] at h
  obtain ⟨p, -, h⟩ := bind_eq_ok.1 h
  obtain ⟨q, -, h⟩ := bind_eq_ok.1 h
  obtain ⟨f, hf, -⟩ := bind_eq_ok.1 h
  exact (Forcing.make_eq_ok_iff.1 ⟨f, hf⟩).2.2

namespace Component

variable {n t : Nat} {args : RunArguments Float} {s : Settings Float} {c : Component Float}

/-- A bucket with states and a route return something only over accepted times. -/
theorem accepted_times {rows : List (Grid [n, t] Float)} {out : Outcome n t Float}
    (hstateful : (∃ b : Bucket Float, c = .bucket b ∧ b.states ≠ []) ∨ ∃ r, c = .route r)
    (h : c.compute args s rows = .ok out) :
    ∃ times, s.timesFor t = .ok times ∧ times.val.IsChain AcceptedPair := by
  rcases hstateful with ⟨b, rfl, hne⟩ | ⟨r, rfl⟩
  · obtain ⟨d, hd, hrun⟩ := bind_eq_ok.1 h
    refine ⟨_, (RunData.prepare_eq_ok_iff.1 hd).1, unorderedTimes_eq_false_iff.1 ?_⟩
    exact b.ordered_of_run hne hrun
  · obtain ⟨d, hd, hrun⟩ := bind_eq_ok.1 h
    obtain ⟨hsize, hprepare⟩ := prepareFor_route hd
    refine ⟨_, (RunData.prepare_eq_ok_iff.1 hprepare).1, unorderedTimes_eq_false_iff.1 ?_⟩
    exact (r.accepted_of_run hsize hrun).2.2

end Component

end Catchment
