import Catchment.QuotedText
import Mathlib

/-!
# Quoted texts

Every escape stands for one character, and a quoted text ends at the first quote that is not
escaped. So a quoted text at the front of a longer text can be read in one way only.
-/
namespace Catchment

/-- Texts that tell where they end, whatever follows them. -/
def SelfDelimiting {α : Type} (f : α → List Char) : Prop :=
  ∀ a b r s, f a ++ r = f b ++ s → a = b ∧ r = s

def hexDigit (c : Char) : Nat := if c.toNat < 58 then c.toNat - 48 else c.toNat - 87

def hexValue (ds : List Char) : Nat := ds.foldl (fun v c => 16 * v + hexDigit c) 0

theorem hexDigit_digitChar : ∀ d < 16, hexDigit (Nat.digitChar d) = d := by decide

theorem hexValue_toDigits (n : Nat) : hexValue (Nat.toDigits 16 n) = n := by
  induction n using Nat.strong_induction_on with
  | _ n ih =>
    by_cases hn : n < 16
    · rw [Nat.toDigits_of_lt_base hn]
      simp [hexValue, hexDigit_digitChar n hn]
    · have hlast := hexDigit_digitChar (n % 16) (Nat.mod_lt n (by decide))
      have hinit : hexValue (Nat.toDigits 16 (n / 16)) = n / 16 := ih _ (by omega)
      rw [Nat.toDigits_of_base_le (by decide) (by omega), hexValue, List.foldl_append]
      rw [hexValue] at hinit
      simp only [hinit, List.foldl_cons, List.foldl_nil, hlast]
      omega

theorem hexValue_hexPadded (width n : Nat) : hexValue (hexPadded width n) = n := by
  have hzeros (k : Nat) : (List.replicate k '0').foldl (fun v c => 16 * v + hexDigit c) 0 = 0 := by
    induction k with
    | zero => rfl
    | succ k ih => exact ih
  rw [hexPadded, hexValue, List.foldl_append, hzeros]
  exact hexValue_toDigits n

theorem length_hexPadded {width n : Nat} (hwidth : 0 < width) (hn : n < 16 ^ width) :
    (hexPadded width n).length = width := by
  have hlen := Nat.toDigits_length 16 n width hwidth hn
  simp only [hexPadded, List.length_append, List.length_replicate]
  omega

def readChar : List Char → Option (Char × List Char)
  | '\\' :: 't' :: r => some ('\t', r)
  | '\\' :: 'n' :: r => some ('\n', r)
  | '\\' :: 'r' :: r => some ('\r', r)
  | '\\' :: 'x' :: r => some (Char.ofNat (hexValue (r.take 2)), r.drop 2)
  | '\\' :: 'u' :: r => some (Char.ofNat (hexValue (r.take 4)), r.drop 4)
  | '\\' :: 'U' :: r => some (Char.ofNat (hexValue (r.take 8)), r.drop 8)
  | '\\' :: c :: r => some (c, r)
  | c :: r => some (c, r)
  | [] => none

variable {q : Char}

/-- A code of fixed width is read back as its character. -/
theorem read_hexPadded {width : Nat} (hwidth : 0 < width) {c : Char} (hc : c.toNat < 16 ^ width)
    (r : List Char) :
    some (Char.ofNat (hexValue ((hexPadded width c.toNat ++ r).take width)),
      (hexPadded width c.toNat ++ r).drop width) = some (c, r) := by
  have hlen := length_hexPadded hwidth hc
  rw [List.take_left' hlen, List.drop_left' hlen, hexValue_hexPadded, Char.ofNat_toNat]

theorem readChar_of_ne {c : Char} (hc : c ≠ '\\') (r : List Char) :
    readChar (c :: r) = some (c, r) := by
  unfold readChar
  split <;> simp_all

theorem readChar_escapedChar (hq : q = '\'' ∨ q = '"') (c : Char) (r : List Char) :
    readChar (escapedChar q c ++ r) = some (c, r) := by
  unfold escapedChar
  split_ifs with hself htab hline hreturn hprintable hx hu
  · rcases hq with rfl | rfl <;> rcases Bool.or_eq_true _ _ ▸ hself with h | h <;>
      simp_all [readChar]
  · rw [htab]
    rfl
  · rw [hline]
    rfl
  · rw [hreturn]
    rfl
  · refine readChar_of_ne (fun hc => hself ?_) r
    simp [hc]
  · exact read_hexPadded (by decide) hx r
  · exact read_hexPadded (by decide) hu r
  · exact read_hexPadded (by decide) c.val.toNat_lt r

theorem escapedChar_selfDelimiting (hq : q = '\'' ∨ q = '"') : SelfDelimiting (escapedChar q) := by
  intro c d r s h
  have hread := congrArg readChar h
  rw [readChar_escapedChar hq, readChar_escapedChar hq] at hread
  exact Prod.mk.inj (Option.some.inj hread)

/-- What stands for a character does not start with the quote. -/
theorem escapedChar_ne_quote (hq : q = '\'' ∨ q = '"') (c : Char) (r s : List Char) :
    escapedChar q c ++ r ≠ q :: s := by
  intro h
  have hread := congrArg readChar h
  have hquote : q ≠ '\\' := by rcases hq with rfl | rfl <;> decide
  rw [readChar_escapedChar hq, readChar_of_ne hquote] at hread
  obtain rfl : c = q := (Prod.mk.inj (Option.some.inj hread)).1
  have hescaped : escapedChar c c = ['\\', c] := by simp [escapedChar]
  rw [hescaped] at h
  exact hquote (List.cons.inj h).1.symm

theorem escapedChars_inj (hq : q = '\'' ∨ q = '"') {cs ds r s : List Char}
    (h : cs.flatMap (escapedChar q) ++ q :: r = ds.flatMap (escapedChar q) ++ q :: s) :
    cs = ds ∧ r = s := by
  induction cs generalizing ds with
  | nil =>
    cases ds with
    | nil => exact ⟨rfl, (List.cons.inj h).2⟩
    | cons d ds =>
      rw [List.flatMap_cons, List.append_assoc] at h
      exact absurd h.symm (escapedChar_ne_quote hq d _ _)
  | cons c cs ih =>
    rw [List.flatMap_cons, List.append_assoc] at h
    cases ds with
    | nil => exact absurd h (escapedChar_ne_quote hq c _ _)
    | cons d ds =>
      rw [List.flatMap_cons, List.append_assoc] at h
      obtain ⟨hchar, hrest⟩ := escapedChar_selfDelimiting hq _ _ _ _ h
      obtain ⟨hchars, hrest⟩ := ih hrest
      rw [hchar, hchars]
      exact ⟨rfl, hrest⟩

theorem quoteFor_cases (cs : List Char) : quoteFor cs = '\'' ∨ quoteFor cs = '"' := by
  unfold quoteFor
  split
  · exact .inr rfl
  · exact .inl rfl

theorem toList_quotedText (s : String) : (quotedText s).toList =
    quoteFor s.toList :: (s.toList.flatMap (escapedChar (quoteFor s.toList)) ++
      [quoteFor s.toList]) := by
  rw [quotedText, String.toList_ofList]
  rfl

theorem quotedText_selfDelimiting : SelfDelimiting fun s => (quotedText s).toList := by
  intro s t r u h
  dsimp only at h
  rw [toList_quotedText, toList_quotedText, List.cons_append, List.cons_append, List.append_assoc,
    List.append_assoc] at h
  obtain ⟨hquote, h⟩ := List.cons.inj h
  rw [← hquote] at h
  obtain ⟨hchars, hrest⟩ := escapedChars_inj (quoteFor_cases s.toList) h
  exact ⟨String.toList_inj.1 hchars, hrest⟩

end Catchment
