import Catchment.Proofs.DoubleTexts
import Catchment.Proofs.FormulaTexts
import Mathlib

/-!
# Printed formulas

A formula over doubles is told by its text, if its names are identifiers, none of them names both a
variable and a parameter or is the word for an infinite number, and no constant is missing.
-/
namespace Catchment

def isNameChar (c : Char) : Bool := c.isAlphanum || c = '_' || 128 ≤ c.toNat

/-- Letters, digits and underscores, at least one, of which the first is no digit; beyond ASCII every
character counts as a letter. -/
def isIdentifier (v : String) : Bool :=
  v.toList.all isNameChar && v.toList.head?.any fun c => !c.isDigit

/-- An identifier that is not the word for an infinite or for a missing number. -/
def isFormulaName (v : String) : Bool := isIdentifier v && v ≠ "inf" && v ≠ "nan"

/-- Characters among which there is no break. -/
theorem isBreak_eq_false {p : Char → Bool}
    (hp : ∀ c ∈ [' ', ',', '(', ')', ']'], p c = false) {c : Char} (hc : p c = true) :
    isBreak c = false := by
  rw [← Bool.not_eq_true]
  intro hbreak
  simp only [isBreak, Bool.or_eq_true, decide_eq_true_eq] at hbreak
  have hmem : c ∈ [' ', ',', '(', ')', ']'] := by simpa [or_assoc] using hbreak
  simp [hp c hmem] at hc

theorem isIdentifier_iff {v : String} : isIdentifier v = true ↔
    (∀ c ∈ v.toList, isNameChar c = true) ∧ ∃ c ∈ v.toList.head?, c.isDigit = false := by
  simp [isIdentifier, List.all_eq_true, Option.any_eq_true]

theorem isFormulaName_iff {v : String} :
    isFormulaName v = true ↔ isIdentifier v = true ∧ v ≠ "inf" ∧ v ≠ "nan" := by
  simp [isFormulaName, and_assoc]

theorem token_of_isIdentifier {v : String} (hv : isIdentifier v = true) : Token v.toList :=
  fun c hc => isBreak_eq_false (by simp [isNameChar]) ((isIdentifier_iff.1 hv).1 c hc)

theorem ne_nil_of_isIdentifier {v : String} (hv : isIdentifier v = true) : v.toList ≠ [] := by
  obtain ⟨c, hc, -⟩ := (isIdentifier_iff.1 hv).2
  intro hnil
  simp [hnil] at hc

namespace Double

theorem token_doubleText {x : Float} (hx : x.isNaN = false) : Token (doubleText x).toList := by
  have hunsigned : Token (unsignedText x).toList := by
    rcases unsignedText_cases x with htext | ⟨hnumeric, -⟩
    · rw [htext]
      simp [Token, isBreak]
    · exact fun c hc => isBreak_eq_false (by simp [isNumeric]) (hnumeric c hc)
  rw [doubleText_eq hx, String.toList_append]
  rcases signMark_cases x with hsign | hsign
  · rw [hsign]
    exact hunsigned.cons rfl
  · rw [hsign]
    exact hunsigned

theorem doubleText_ne_nil {x : Float} (hx : x.isNaN = false) : (doubleText x).toList ≠ [] := by
  rw [doubleText_eq hx, String.toList_append]
  rcases unsignedText_cases x with htext | ⟨-, c, hc, -⟩
  · simp [htext]
  · intro hnil
    simp [(List.append_eq_nil_iff.1 hnil).2] at hc

theorem not_isFormulaName_doubleText {x : Float} (hx : x.isNaN = false) :
    ¬ isFormulaName (doubleText x) = true := by
  rw [doubleText_eq hx, isFormulaName_iff, isIdentifier_iff]
  rintro ⟨⟨hchars, c, hc, hstart⟩, hinf, -⟩
  rcases signMark_cases x with hsign | hsign
  · have hminus : isNameChar '-' = true := hchars '-' (by simp [hsign])
    exact absurd hminus (by decide)
  · rw [hsign, String.empty_append] at hc hinf
    rcases unsignedText_cases x with htext | ⟨-, d, hd, hdigit⟩
    · exact hinf htext
    · obtain rfl : c = d := Option.mem_unique hc hd
      simp [hdigit] at hstart

end Double

open Double in
theorem apart_doubles :
    Apart (fun v => isFormulaName v = true) fun x : Float => Scalar.isNaN x = false where
  name_token _ hv := token_of_isIdentifier (isFormulaName_iff.1 hv).1
  name_ne_nil _ hv := ne_nil_of_isIdentifier (isFormulaName_iff.1 hv).1
  token x hx := token_doubleText (isNaN_eq x ▸ hx)
  ne_nil x hx := doubleText_ne_nil (isNaN_eq x ▸ hx)
  not_name x hx := not_isFormulaName_doubleText (isNaN_eq x ▸ hx)
  inj x y hx hy h := doubleText_inj (isNaN_eq x ▸ hx) (isNaN_eq y ▸ hy) h

namespace Expr

variable {K : Type}

theorem same_self [Scalar K] {e : Expr K} (h : ∀ x ∈ e.constants, Scalar.isNaN x = false) :
    e.same e = true := by
  induction e with
  | var v => simp [same]
  | par k => simp [same]
  | const x =>
    have hle : Scalar.le x x = true := by simpa [Scalar.isNaN] using h x List.mem_cons_self
    simp [same, Scalar.eq, hle]
  | unary op a ih => simpa [same] using ih h
  | binary op a b iha ihb =>
    simp only [constants, List.forall_mem_append] at h
    simp [same, iha h.1, ihb h.2]
  | choose c a b ihc iha ihb =>
    simp only [constants, List.forall_mem_append] at h
    simp [same, ihc h.1.1, iha h.1.2, ihb h.2]

/-- Formulas of one text are the same, if all their names are identifiers apart from the words for
numbers, none is the name of a variable and of a parameter in the two together, and no constant is
missing. -/
theorem eq_of_printed {e f : Expr Float}
    (hnames : ∀ v ∈ e.reads ++ e.readsParams ++ (f.reads ++ f.readsParams), isFormulaName v = true)
    (hapart : ∀ v ∈ e.reads ++ f.reads, v ∉ e.readsParams ++ f.readsParams)
    (hconstants : ∀ x ∈ e.constants ++ f.constants, Scalar.isNaN x = false)
    (htext : e.text = f.text) : e = f ∧ e.same f = true := by
  simp only [List.forall_mem_append] at hnames hapart hconstants
  set params := e.readsParams ++ f.readsParams with hparams
  have hleaves : Legible (ApartLeaf (fun v => isFormulaName v = true)
      (fun x : Float => Scalar.isNaN x = false) params) := apartLeaf_legible apart_doubles
  have he : e.Over (ApartLeaf (fun v => isFormulaName v = true)
      (fun x : Float => Scalar.isNaN x = false) params) :=
    over_apartLeaf (fun v hv => ⟨hnames.1.1 v hv, hapart.1 v hv⟩)
      (fun k hk => ⟨hnames.1.2 k hk, List.mem_append_left _ hk⟩) hconstants.1
  have hf : f.Over (ApartLeaf (fun v => isFormulaName v = true)
      (fun x : Float => Scalar.isNaN x = false) params) :=
    over_apartLeaf (fun v hv => ⟨hnames.2.1 v hv, hapart.2 v hv⟩)
      (fun k hk => ⟨hnames.2.2 k hk, List.mem_append_right _ hk⟩) hconstants.2
  have hend : Follows [] := by simp [Follows]
  obtain ⟨rfl, -⟩ := text_inj hleaves he hf hend hend (by rw [htext])
  exact ⟨rfl, same_self hconstants.1⟩

def thresholdRate (threshold share : Float) : Expr Float :=
  .choose (.binary .gt (.var "if") (.const threshold)) (.unary .neg (.var "min"))
    (.binary .min (.par "and") (.const share))

theorem thresholdRate_printed :
    let e := thresholdRate (0.5 - 1) 0.1
    let f := thresholdRate (-0.5) (1 / 10)
    e.text = "(if (if > -0.5) then (-min) else min(and, 0.1))" ∧ e.text = f.text ∧
      (∀ v ∈ e.reads ++ e.readsParams ++ (f.reads ++ f.readsParams), isFormulaName v = true) ∧
      (∀ v ∈ e.reads ++ f.reads, v ∉ e.readsParams ++ f.readsParams) ∧
      (∀ x ∈ e.constants ++ f.constants, Scalar.isNaN x = false) ∧ e = f ∧ e.same f = true := by
  intro e f
  have htext : e.text = "(if (if > -0.5) then (-min) else min(and, 0.1))" := by decide +kernel
  have htext' : f.text = "(if (if > -0.5) then (-min) else min(and, 0.1))" := by decide +kernel
  have hnames : ∀ v ∈ e.reads ++ e.readsParams ++ (f.reads ++ f.readsParams),
      isFormulaName v = true := by decide +kernel
  have hapart : ∀ v ∈ e.reads ++ f.reads, v ∉ e.readsParams ++ f.readsParams := by decide
  have hconstants : ∀ x ∈ e.constants ++ f.constants, Scalar.isNaN x = false := by decide +kernel
  have hsame := htext.trans htext'.symm
  exact ⟨htext, hsame, hnames, hapart, hconstants, eq_of_printed hnames hapart hconstants hsame⟩

/-- A variable and a parameter of one name are not told apart. -/
example : (var "x" : Expr Float).text = (par "x" : Expr Float).text := rfl

end Expr

end Catchment
