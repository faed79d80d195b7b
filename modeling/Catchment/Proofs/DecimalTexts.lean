import Catchment.DecimalText
import Mathlib

/-!
# Reading decimal texts

A text of digits, with a point and with a signed exponent or without, is read as a rational number.
The layout of a decimal is read as its value, so decimals with one layout have one value.
-/
namespace Catchment

def readPointed (cs : List Char) : ℚ :=
  let whole := cs.takeWhile (· != '.')
  let fraction := (cs.dropWhile (· != '.')).drop 1
  Nat.ofDigitChars 10 (whole ++ fraction) 0 / 10 ^ fraction.length

def readSigned : List Char → ℤ
  | '-' :: ds => -(Nat.ofDigitChars 10 ds 0 : ℤ)
  | '+' :: ds => Nat.ofDigitChars 10 ds 0
  | _ => 0

/-- A number of digits around a point, with what follows an `e` as its exponent of ten. -/
def readDecimal (cs : List Char) : ℚ :=
  readPointed (cs.takeWhile (· != 'e')) * 10 ^ readSigned ((cs.dropWhile (· != 'e')).drop 1)

theorem takeWhile_ne_append {c : Char} {u : List Char} (hu : c ∉ u) (v : List Char) :
    (u ++ c :: v).takeWhile (· != c) = u := by
  rw [List.takeWhile_append_of_pos (by grind)]
  simp

theorem dropWhile_ne_append {c : Char} {u : List Char} (hu : c ∉ u) (v : List Char) :
    (u ++ c :: v).dropWhile (· != c) = c :: v := by
  rw [List.dropWhile_append_of_pos (by grind)]
  simp

theorem takeWhile_ne_self {c : Char} {u : List Char} (hu : c ∉ u) :
    u.takeWhile (· != c) = u :=
  List.takeWhile_eq_self_iff.2 (by grind)

theorem dropWhile_ne_self {c : Char} {u : List Char} (hu : c ∉ u) :
    u.dropWhile (· != c) = [] :=
  List.dropWhile_eq_nil_iff.2 (by grind)

variable {whole fraction mantissa exponent : List Char}

theorem readPointed_point (hw : '.' ∉ whole) :
    readPointed (whole ++ '.' :: fraction) =
      Nat.ofDigitChars 10 (whole ++ fraction) 0 / 10 ^ fraction.length := by
  simp [readPointed, takeWhile_ne_append hw, dropWhile_ne_append hw]

theorem readPointed_whole (hw : '.' ∉ whole) :
    readPointed whole = Nat.ofDigitChars 10 whole 0 := by
  simp [readPointed, takeWhile_ne_self hw, dropWhile_ne_self hw]

theorem readDecimal_scientific (hm : 'e' ∉ mantissa) :
    readDecimal (mantissa ++ 'e' :: exponent) =
      readPointed mantissa * 10 ^ readSigned exponent := by
  simp [readDecimal, takeWhile_ne_append hm, dropWhile_ne_append hm]

theorem readDecimal_positional (hm : 'e' ∉ mantissa) :
    readDecimal mantissa = readPointed mantissa := by
  simp [readDecimal, takeWhile_ne_self hm, dropWhile_ne_self hm, readSigned]

def isNumeric (c : Char) : Bool := c.isDigit || c = '.' || c = 'e' || c = '+' || c = '-'

def Numeric (cs : List Char) : Prop := ∀ c ∈ cs, isNumeric c = true

theorem Numeric.append {u v : List Char} (hu : Numeric u) (hv : Numeric v) : Numeric (u ++ v) :=
  List.forall_mem_append.2 ⟨hu, hv⟩

theorem Numeric.cons {c : Char} {u : List Char} (hu : Numeric u) (hc : isNumeric c = true) :
    Numeric (c :: u) :=
  List.forall_mem_cons.2 ⟨hc, hu⟩

theorem numeric_zeros (n : Nat) : Numeric (List.replicate n '0') := by
  intro c hc
  rw [List.eq_of_mem_replicate hc]
  rfl

theorem isDigit_of_mem_toDigits {n : Nat} {c : Char} (hc : c ∈ Nat.toDigits 10 n) :
    c.isDigit = true :=
  Nat.isDigit_of_mem_toDigits (by decide) (by decide) hc

theorem numeric_toDigits (n : Nat) : Numeric (Nat.toDigits 10 n) := by
  intro c hc
  simp [isNumeric, isDigit_of_mem_toDigits hc]

namespace Decimal

/-- The value of a decimal. -/
def value (d : Decimal) : ℚ := d.digits * 10 ^ d.exponent

/-- The digits of a decimal. -/
def text (d : Decimal) : List Char := Nat.toDigits 10 d.digits

/-- The number of digits before the point. -/
def size (d : Decimal) : ℤ := d.text.length + d.exponent

theorem length_text_pos (d : Decimal) : 0 < d.text.length := Nat.length_toDigits_pos

theorem isDigit_of_mem_text (d : Decimal) {c : Char} (hc : c ∈ d.text) : c.isDigit = true :=
  isDigit_of_mem_toDigits hc

theorem numeric_text (d : Decimal) : Numeric d.text := numeric_toDigits d.digits

theorem notMem_text {d : Decimal} {c : Char} (hc : c.isDigit = false) : c ∉ d.text := by
  intro h
  simp [d.isDigit_of_mem_text h] at hc

theorem ofDigitChars_text (d : Decimal) : Nat.ofDigitChars 10 d.text 0 = d.digits :=
  Nat.ofDigitChars_ten_toDigits

theorem toList_padded (width : Nat) (s : String) :
    (padded width s).toList = List.replicate (width - s.length) '0' ++ s.toList := by
  simp [padded]

def signedText (e : ℤ) : List Char :=
  (if e < 0 then '-' else '+') :: (padded 2 (toString e.natAbs)).toList

theorem readSigned_signedText (e : ℤ) : readSigned (signedText e) = e := by
  have hdigits : Nat.ofDigitChars 10 (padded 2 (toString e.natAbs)).toList 0 = e.natAbs := by
    rw [toList_padded, Nat.ofDigitChars_append, Nat.ofDigitChars_replicate_zero,
      Nat.toString_eq_ofList_toDigits, String.toList_ofList, Nat.mul_zero,
      Nat.ofDigitChars_ten_toDigits]
  by_cases he : e < 0
  · simp only [signedText, if_pos he, readSigned, hdigits]
    omega
  · simp only [signedText, if_neg he, readSigned, hdigits]
    omega

theorem numeric_signedText (e : ℤ) : Numeric (signedText e) := by
  have hdigits : Numeric (padded 2 (toString e.natAbs)).toList := by
    rw [toList_padded, Nat.toString_eq_ofList_toDigits, String.toList_ofList]
    exact (numeric_zeros _).append (numeric_toDigits _)
  refine hdigits.cons ?_
  split_ifs <;> rfl

def mantissaText (d : Decimal) : List Char :=
  d.text.take 1 ++ ((if (d.text.drop 1).isEmpty then [] else ['.']) ++ d.text.drop 1)

inductive Laid (d : Decimal) : List Char → Prop
  | scientific : Laid d (d.mantissaText ++ 'e' :: signedText (d.size - 1))
  | small (h : d.size ≤ 0) :
      Laid d (['0'] ++ '.' :: (List.replicate d.size.natAbs '0' ++ d.text))
  | whole (he : 0 ≤ d.exponent) :
      Laid d ((d.text ++ List.replicate d.exponent.toNat '0') ++ '.' :: ['0'])
  | inside (h : 0 < d.size) (he : d.exponent < 0) :
      Laid d (d.text.take d.size.toNat ++ '.' :: d.text.drop d.size.toNat)

theorem laid_layout (d : Decimal) : Laid d d.layout.toList := by
  have hsize : (d.text.length : ℤ) + d.exponent = d.size := rfl
  have htext : Nat.toDigits 10 d.digits = d.text := rfl
  unfold layout
  simp only [htext, hsize]
  by_cases hout : (decide (d.size < -3) || decide (16 < d.size)) = true
  · have hlist : (String.ofList (d.text.take 1) ++
        (if (d.text.drop 1).isEmpty then "" else ".") ++ String.ofList (d.text.drop 1) ++ "e" ++
        (if d.size - 1 < 0 then "-" else "+") ++ padded 2 (toString (d.size - 1).natAbs)).toList =
          d.mantissaText ++ 'e' :: signedText (d.size - 1) := by
      unfold mantissaText signedText
      split_ifs <;> simp
    rw [if_pos hout, hlist]
    exact .scientific
  · rw [if_neg hout]
    by_cases hsmall : d.size ≤ 0
    · rw [if_pos hsmall]
      simpa using Laid.small hsmall
    · rw [if_neg hsmall]
      by_cases hwhole : d.exponent ≥ 0
      · rw [if_pos hwhole]
        simpa using Laid.whole hwhole
      · rw [if_neg hwhole]
        simpa using Laid.inside (not_le.1 hsmall) (not_le.1 hwhole)

theorem readPointed_mantissaText (d : Decimal) :
    readPointed d.mantissaText = d.digits / 10 ^ (d.text.length - 1) := by
  have hpoint : '.' ∉ d.text.take 1 := fun h => notMem_text rfl (List.mem_of_mem_take h)
  rw [mantissaText]
  by_cases hlast : (d.text.drop 1).isEmpty = true
  · have hdrop := List.isEmpty_iff.1 hlast
    have hone : d.text.take 1 = d.text := by
      rw [← List.append_nil (d.text.take 1), ← hdrop, List.take_append_drop]
    have hlen : d.text.length - 1 = 0 := by
      rw [← List.length_drop, hdrop, List.length_nil]
    rw [if_pos hlast, hdrop, hone, List.append_nil, List.append_nil,
      readPointed_whole (notMem_text rfl), ofDigitChars_text, hlen, pow_zero, div_one]
  · rw [if_neg hlast, List.singleton_append, readPointed_point hpoint, List.take_append_drop,
      ofDigitChars_text, List.length_drop]

namespace Laid

variable {d : Decimal} {cs : List Char}

theorem readDecimal_eq (h : Laid d cs) : readDecimal cs = d.value := by
  have hten : (10 : ℚ) ≠ 0 := by norm_num
  have hlen := d.length_text_pos
  have hsize : d.size = d.text.length + d.exponent := rfl
  have hmark : 'e' ∉ d.text := notMem_text rfl
  have hpoint : '.' ∉ d.text := notMem_text rfl
  rw [value]
  cases h with
  | scientific =>
    have hmantissa : 'e' ∉ d.mantissaText := by
      have htake : 'e' ∉ d.text.take 1 := fun h => hmark (List.mem_of_mem_take h)
      have hdrop : 'e' ∉ d.text.drop 1 := fun h => hmark (List.mem_of_mem_drop h)
      simp only [mantissaText, List.mem_append, htake, hdrop]
      split_ifs <;> simp
    rw [readDecimal_scientific hmantissa, readPointed_mantissaText, readSigned_signedText,
      div_mul_eq_mul_div, mul_div_assoc, ← zpow_natCast, ← zpow_sub₀ hten]
    congr 2
    omega
  | small h =>
    have hmantissa : 'e' ∉ ['0'] ++ '.' :: (List.replicate d.size.natAbs '0' ++ d.text) := by
      simp [hmark]
    have hdigits : Nat.ofDigitChars 10 (['0'] ++ (List.replicate d.size.natAbs '0' ++ d.text)) 0 =
        d.digits := by
      rw [Nat.ofDigitChars_append, Nat.ofDigitChars_append, Nat.ofDigitChars_replicate_zero]
      simp [Nat.ofDigitChars_cons, ofDigitChars_text]
    rw [readDecimal_positional hmantissa, readPointed_point (by simp), hdigits, div_eq_mul_inv,
      ← zpow_natCast, ← zpow_neg, List.length_append, List.length_replicate]
    congr 2
    omega
  | whole he =>
    have hmantissa : 'e' ∉ (d.text ++ List.replicate d.exponent.toNat '0') ++ '.' :: ['0'] := by
      simp [hmark]
    have hwhole : '.' ∉ d.text ++ List.replicate d.exponent.toNat '0' := by simp [hpoint]
    have hdigits : Nat.ofDigitChars 10
        ((d.text ++ List.replicate d.exponent.toNat '0') ++ ['0']) 0 =
          10 * (10 ^ d.exponent.toNat * d.digits) := by
      rw [Nat.ofDigitChars_append, Nat.ofDigitChars_append, ofDigitChars_text,
        Nat.ofDigitChars_replicate_zero]
      simp [Nat.ofDigitChars_cons]
    have hpow : (10 : ℚ) ^ d.exponent = 10 ^ d.exponent.toNat := by
      rw [← zpow_natCast, Int.toNat_of_nonneg he]
    rw [readDecimal_positional hmantissa, readPointed_point hwhole, hdigits, hpow,
      List.length_singleton, pow_one]
    push_cast
    ring
  | inside h he =>
    have hmantissa : 'e' ∉ d.text.take d.size.toNat ++ '.' :: d.text.drop d.size.toNat := by
      have htake : 'e' ∉ d.text.take d.size.toNat := fun h => hmark (List.mem_of_mem_take h)
      have hdrop : 'e' ∉ d.text.drop d.size.toNat := fun h => hmark (List.mem_of_mem_drop h)
      simp [htake, hdrop]
    rw [readDecimal_positional hmantissa,
      readPointed_point (fun h => hpoint (List.mem_of_mem_take h)), List.take_append_drop,
      ofDigitChars_text, div_eq_mul_inv, ← zpow_natCast, ← zpow_neg, List.length_drop]
    congr 2
    omega

theorem numeric (h : Laid d cs) : Numeric cs := by
  have htake (n : Nat) : Numeric (d.text.take n) := fun c hc =>
    d.numeric_text c (List.mem_of_mem_take hc)
  have hdrop (n : Nat) : Numeric (d.text.drop n) := fun c hc =>
    d.numeric_text c (List.mem_of_mem_drop hc)
  cases h with
  | scientific =>
    have hmantissa : Numeric d.mantissaText := by
      rw [mantissaText]
      split_ifs
      · exact (htake 1).append (hdrop 1)
      · exact (htake 1).append ((hdrop 1).cons rfl)
    exact hmantissa.append ((numeric_signedText _).cons rfl)
  | small h => exact (((numeric_zeros _).append d.numeric_text).cons rfl).cons rfl
  | whole he => exact (d.numeric_text.append (numeric_zeros _)).append ((numeric_zeros 1).cons rfl)
  | inside h he => exact (htake _).append ((hdrop _).cons rfl)

theorem start (h : Laid d cs) : ∃ c ∈ cs.head?, c.isDigit = true := by
  obtain ⟨c, rest, htext⟩ := List.exists_cons_of_length_pos d.length_text_pos
  have hc : c.isDigit = true := d.isDigit_of_mem_text (htext ▸ List.mem_cons_self)
  cases h with
  | scientific => exact ⟨c, by simp [mantissaText, htext], hc⟩
  | small h => exact ⟨'0', rfl, rfl⟩
  | whole he => exact ⟨c, by simp [htext], hc⟩
  | inside h he =>
    obtain ⟨n, hn⟩ : ∃ n, d.size.toNat = n + 1 := ⟨d.size.toNat - 1, by omega⟩
    exact ⟨c, by simp [htext, hn], hc⟩

end Laid

/-- The layout of a decimal is read as its value. -/
theorem readDecimal_layout (d : Decimal) : readDecimal d.layout.toList = d.value :=
  d.laid_layout.readDecimal_eq

end Decimal

end Catchment
