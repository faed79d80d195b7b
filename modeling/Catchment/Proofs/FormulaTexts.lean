import Catchment.Expr
import Mathlib

/-!
# Formula texts

A printed formula can be read in one way only, if its leaves can: a leaf ends before a blank, a
comma or a bracket, and in every other formula what stands before and right after the first bracket
says how to go on.
-/
namespace Catchment

/-- A character that ends a name or a number. -/
def isBreak (c : Char) : Bool := c = ' ' || c = ',' || c = '(' || c = ')' || c = ']'

def Token (u : List Char) : Prop := ∀ c ∈ u, isBreak c = false

def Broken (r : List Char) : Prop := ∀ c ∈ r.head?, isBreak c = true

/-- What may follow a formula: nothing that starts with an opening bracket. -/
def Follows (r : List Char) : Prop := ∀ c ∈ r.head?, isBreak c = true ∧ c ≠ '('

theorem broken_cons {c : Char} (hc : isBreak c = true) (r : List Char) : Broken (c :: r) := by
  intro d hd
  obtain rfl : c = d := by simpa using hd
  exact hc

theorem follows_cons {c : Char} (hc : isBreak c = true) (hopen : c ≠ '(') (r : List Char) :
    Follows (c :: r) := by
  intro d hd
  obtain rfl : c = d := by simpa using hd
  exact ⟨hc, hopen⟩

theorem Follows.broken {r : List Char} (hr : Follows r) : Broken r := fun c hc => (hr c hc).1

theorem Follows.ne_open {r : List Char} (hr : Follows r) (t : List Char) : r ≠ '(' :: t := by
  intro h
  exact (hr '(' (by simp [h])).2 rfl

namespace Token

theorem nil : Token [] := by simp [Token]

theorem cons {c : Char} {u : List Char} (hc : isBreak c = false) (hu : Token u) :
    Token (c :: u) := by
  intro d hd
  rcases List.mem_cons.1 hd with rfl | hd
  · exact hc
  · exact hu d hd

/-- Tokens that are followed by breaks are read in one way only. -/
theorem append_inj {u v r s : List Char} (hu : Token u) (hv : Token v) (hr : Broken r)
    (hs : Broken s) (h : u ++ r = v ++ s) : u = v ∧ r = s := by
  induction u generalizing v with
  | nil =>
    cases v with
    | nil => exact ⟨rfl, h⟩
    | cons d v =>
      rw [List.nil_append] at h
      have hbreak := hr d (by simp [h])
      simp [hv d List.mem_cons_self] at hbreak
  | cons c u ih =>
    cases v with
    | nil =>
      rw [List.nil_append] at h
      have hbreak := hs c (by simp [← h])
      simp [hu c List.mem_cons_self] at hbreak
    | cons d v =>
      obtain ⟨hchar, htail⟩ := List.cons.inj h
      obtain ⟨htoken, hrest⟩ := ih (fun c hc => hu c (List.mem_cons_of_mem _ hc))
        (fun c hc => hv c (List.mem_cons_of_mem _ hc)) htail
      exact ⟨congrArg₂ List.cons hchar htoken, hrest⟩

end Token

namespace Unary

theorem token_name (op : Unary) : Token op.name.toList := by
  cases op <;> simp [Token, name, isBreak]

theorem name_ne_nil (op : Unary) : op.name.toList ≠ [] := by
  cases op <;> simp [name]

theorem name_ne_minus (op : Unary) : op.name.toList.head? ≠ some '-' := by
  cases op <;> simp [name]

theorem name_inj {op op' : Unary} (h : op.name.toList = op'.name.toList) : op = op' := by
  have hname := String.toList_inj.1 h
  revert hname
  cases op <;> cases op' <;> decide

end Unary

namespace Binary

theorem token_name (op : Binary) : Token op.name.toList := by
  cases op <;> simp [Token, name, isBreak]

theorem name_ne_nil (op : Binary) : op.name.toList ≠ [] := by
  cases op <;> simp [name]

theorem name_ne_minus (op : Binary) : op.name.toList.head? ≠ some '-' := by
  cases op <;> simp [name]

theorem name_inj {op op' : Binary} (h : op.name.toList = op'.name.toList) : op = op' := by
  have hname := String.toList_inj.1 h
  revert hname
  cases op <;> cases op' <;> decide

theorem name_ne_unary (op : Binary) (op' : Unary) : op.name.toList ≠ op'.name.toList := by
  intro h
  have hname := String.toList_inj.1 h
  revert hname
  cases op <;> cases op' <;> decide

theorem token_mark {op : Binary} {mark : String} (h : op.mark? = some mark) :
    Token mark.toList := by
  cases op <;> simp only [mark?, Option.some.injEq, reduceCtorEq] at h <;> subst h <;>
    simp [Token, isBreak]

theorem mark_inj {op op' : Binary} {mark : String} (h : op.mark? = some mark)
    (h' : op'.mark? = some mark) : op = op' := by
  have hmark := h.trans h'.symm
  have hsome : op.mark? ≠ none := by simp [h]
  revert hmark hsome
  cases op <;> cases op' <;> decide

end Binary

variable {K : Type} [Scalar K]

namespace Expr

theorem toList_text_neg (a : Expr K) :
    (unary .neg a).text.toList = '(' :: '-' :: (a.text.toList ++ [')']) := by
  simp [text]

theorem toList_text_not (a : Expr K) :
    (unary .not a).text.toList = '(' :: ("not".toList ++ ' ' :: (a.text.toList ++ [')'])) := by
  simp [text]

theorem toList_text_call {op : Unary} (hneg : op ≠ .neg) (hnot : op ≠ .not) (a : Expr K) :
    (unary op a).text.toList = op.name.toList ++ '(' :: (a.text.toList ++ [')']) := by
  have htext : (unary op a).text = op.name ++ "(" ++ a.text ++ ")" := by
    cases op with
    | neg => contradiction
    | not => contradiction
    | _ => rfl
  simp [htext]

theorem toList_text_marked {op : Binary} {mark : String} (hmark : op.mark? = some mark)
    (a b : Expr K) : (binary op a b).text.toList =
      '(' :: (a.text.toList ++ ' ' :: (mark.toList ++ ' ' :: (b.text.toList ++ [')']))) := by
  simp [text, hmark]

theorem toList_text_call₂ {op : Binary} (hmark : op.mark? = none) (a b : Expr K) :
    (binary op a b).text.toList =
      op.name.toList ++ '(' :: (a.text.toList ++ ',' :: ' ' :: (b.text.toList ++ [')'])) := by
  simp [text, hmark]

theorem toList_text_choose (c a b : Expr K) :
    (choose c a b).text.toList = '(' :: ("if".toList ++ ' ' :: (c.text.toList ++
      ' ' :: ("then".toList ++ ' ' :: (a.text.toList ++
        ' ' :: ("else".toList ++ ' ' :: (b.text.toList ++ [')'])))))) := by
  simp [text]

structure Legible (L : Expr K → Prop) : Prop where
  token : ∀ e, L e → Token e.text.toList
  ne_nil : ∀ e, L e → e.text.toList ≠ []
  inj : ∀ d e, L d → L e → d.text = e.text → d = e

theorem Legible.mono {L L' : Expr K → Prop} (hL : Legible L) (h : ∀ e, L' e → L e) :
    Legible L' where
  token e he := hL.token e (h e he)
  ne_nil e he := hL.ne_nil e (h e he)
  inj d e hd he := hL.inj d e (h d hd) (h e he)

def Over (L : Expr K → Prop) : Expr K → Prop
  | var v => L (var v)
  | par k => L (par k)
  | const x => L (const x)
  | unary _ a => a.Over L
  | binary _ a b => a.Over L ∧ b.Over L
  | choose c a b => c.Over L ∧ a.Over L ∧ b.Over L

variable {L : Expr K → Prop} {e f a b c : Expr K} {u r s t y z : List Char}

/-- How the text of a formula that is no leaf goes on, with the rest `s` behind it: a token before
the first bracket, and what stands after that bracket. -/
inductive Opened (L : Expr K → Prop) (s : List Char) : Expr K → List Char → List Char → Prop
  | neg {a : Expr K} (ha : a.Over L) :
      Opened L s (unary .neg a) [] ('-' :: (a.text.toList ++ ')' :: s))
  | not {a : Expr K} (ha : a.Over L) :
      Opened L s (unary .not a) [] ("not".toList ++ ' ' :: (a.text.toList ++ ')' :: s))
  | call {op : Unary} {a : Expr K} (hneg : op ≠ .neg) (hnot : op ≠ .not) (ha : a.Over L) :
      Opened L s (unary op a) op.name.toList (a.text.toList ++ ')' :: s)
  | marked {op : Binary} {mark : String} {a b : Expr K} (hmark : op.mark? = some mark)
      (ha : a.Over L) (hb : b.Over L) : Opened L s (binary op a b) []
        (a.text.toList ++ ' ' :: (mark.toList ++ ' ' :: (b.text.toList ++ ')' :: s)))
  | call₂ {op : Binary} {a b : Expr K} (hmark : op.mark? = none) (ha : a.Over L)
      (hb : b.Over L) : Opened L s (binary op a b) op.name.toList
        (a.text.toList ++ ',' :: ' ' :: (b.text.toList ++ ')' :: s))
  | choose {c a b : Expr K} (hc : c.Over L) (ha : a.Over L) (hb : b.Over L) :
      Opened L s (choose c a b) [] ("if".toList ++ ' ' :: (c.text.toList ++
        ' ' :: ("then".toList ++ ' ' :: (a.text.toList ++
          ' ' :: ("else".toList ++ ' ' :: (b.text.toList ++ ')' :: s))))))

theorem leaf_or_opened (he : e.Over L) (s : List Char) : L e ∨ ∃ u body, Opened L s e u body := by
  cases e with
  | var v => exact .inl he
  | par k => exact .inl he
  | const x => exact .inl he
  | unary op a =>
    by_cases hneg : op = .neg
    · rw [hneg]
      exact .inr ⟨_, _, .neg he⟩
    · by_cases hnot : op = .not
      · rw [hnot]
        exact .inr ⟨_, _, .not he⟩
      · exact .inr ⟨_, _, .call hneg hnot he⟩
  | binary op a b =>
    cases hmark : op.mark? with
    | some mark => exact .inr ⟨_, _, .marked hmark he.1 he.2⟩
    | none => exact .inr ⟨_, _, .call₂ hmark he.1 he.2⟩
  | choose c a b => exact .inr ⟨_, _, .choose he.1 he.2.1 he.2.2⟩

namespace Opened

variable {body : List Char}

theorem text_append (h : Opened L s e u body) : e.text.toList ++ s = u ++ '(' :: body := by
  cases h with
  | neg ha => simp [toList_text_neg]
  | not ha => simp [toList_text_not]
  | call hneg hnot ha => simp [toList_text_call hneg hnot]
  | marked hmark ha hb => simp [toList_text_marked hmark]
  | call₂ hmark ha hb => simp [toList_text_call₂ hmark]
  | choose hc ha hb => simp [toList_text_choose]

theorem token (h : Opened L s e u body) : Token u := by
  cases h with
  | call hneg hnot ha => exact Unary.token_name _
  | call₂ hmark ha hb => exact Binary.token_name _
  | _ => exact .nil

theorem ne_minus (h : Opened L s e u body) : u.head? ≠ some '-' := by
  cases h with
  | call hneg hnot ha => exact Unary.name_ne_minus _
  | call₂ hmark ha hb => exact Binary.name_ne_minus _
  | _ => simp

end Opened

/-- The text of a formula starts with a token, which either is all of it or stands before a
bracket. -/
theorem first_token (hL : Legible L) (he : e.Over L) (hs : Broken s) :
    ∃ u rest, Token u ∧ Broken rest ∧ e.text.toList ++ s = u ++ rest ∧
      (rest = s ∨ (∃ body, rest = '(' :: body) ∧ u.head? ≠ some '-') := by
  rcases leaf_or_opened he s with hleaf | ⟨u, body, hopen⟩
  · exact ⟨e.text.toList, s, hL.token e hleaf, hs, rfl, .inl rfl⟩
  · exact ⟨u, '(' :: body, hopen.token, broken_cons rfl _, hopen.text_append,
      .inr ⟨⟨body, rfl⟩, hopen.ne_minus⟩⟩

theorem blank_inj (hL : Legible L) (he : e.Over L) (ht : Token t)
    (h : e.text.toList ++ ' ' :: y = t ++ ' ' :: z) : y = z := by
  have hblank (w : List Char) : Broken (' ' :: w) := broken_cons rfl w
  obtain ⟨u, rest, hu, hbroken, htext, hrest⟩ := first_token hL he (hblank y)
  rw [htext] at h
  have hsame := (hu.append_inj ht hbroken (hblank z) h).2
  rcases hrest with rfl | ⟨⟨body, rfl⟩, -⟩
  · exact (List.cons.inj hsame).2
  · simp at hsame

/-- A formula before a closing bracket does not start with a token before a blank. -/
theorem close_ne_blank (hL : Legible L) (he : e.Over L) (ht : Token t) :
    e.text.toList ++ ')' :: y ≠ t ++ ' ' :: z := by
  intro h
  have hclose : Broken (')' :: y) := broken_cons rfl y
  obtain ⟨u, rest, hu, hbroken, htext, hrest⟩ := first_token hL he hclose
  rw [htext] at h
  have hsame := (hu.append_inj ht hbroken (broken_cons rfl z) h).2
  rcases hrest with rfl | ⟨⟨body, rfl⟩, -⟩ <;> simp at hsame

/-- After a bracket, the operands of a mark do not look like a negation. -/
theorem marked_ne_neg (hL : Legible L) (ha : a.Over L) (hc : c.Over L) :
    a.text.toList ++ ' ' :: y ≠ '-' :: (c.text.toList ++ ')' :: z) := by
  intro h
  have hblank : Broken (' ' :: y) := broken_cons rfl y
  have hclose : Broken (')' :: z) := broken_cons rfl z
  obtain ⟨u, rest, hu, hbroken, hleft, hrest⟩ := first_token hL ha hblank
  obtain ⟨v, rest', hv, hbroken', hright, hrest'⟩ := first_token hL hc hclose
  rw [hleft, hright, ← List.cons_append] at h
  obtain ⟨hhead, hsame⟩ := hu.append_inj (hv.cons rfl) hbroken hbroken' h
  rcases hrest with rfl | ⟨⟨body, rfl⟩, hminus⟩
  · rcases hrest' with rfl | ⟨⟨body', rfl⟩, -⟩ <;> simp at hsame
  · exact hminus (by simp [hhead])

/-- Nor do they look like a complement. -/
theorem marked_ne_not (hL : Legible L) (ha : a.Over L) (hc : c.Over L) (ht : Token t) :
    a.text.toList ++ ' ' :: (t ++ ' ' :: y) ≠
      "not".toList ++ ' ' :: (c.text.toList ++ ')' :: z) := by
  intro h
  have hnot : Token "not".toList := Unary.not.token_name
  exact close_ne_blank hL hc ht (blank_inj hL ha hnot h).symm

/-- Nor do they look like a choice. -/
theorem marked_ne_choose (hL : Legible L) (ha : a.Over L) (hb : b.Over L) (hc : c.Over L)
    (ht : Token t) : a.text.toList ++ ' ' :: (t ++ ' ' :: (b.text.toList ++ ')' :: y)) ≠
      "if".toList ++ ' ' :: (c.text.toList ++ ' ' :: ("then".toList ++ ' ' :: z)) := by
  intro h
  have hif : Token "if".toList := by simp [Token, isBreak]
  have hthen : Token "then".toList := by simp [Token, isBreak]
  have hmark := blank_inj hL ha hif h
  exact close_ne_blank hL hb hthen (blank_inj hL hc ht hmark.symm).symm

/-- A formula that prints like one with a bracket has the same text around its first bracket. -/
theorem Opened.of_text {body : List Char} (hL : Legible L) (he : Opened L r e u body)
    (hf : f.Over L) (hs : Follows s) (h : e.text.toList ++ r = f.text.toList ++ s) :
    Opened L s f u body := by
  rw [he.text_append] at h
  rcases leaf_or_opened hf s with hleaf | ⟨v, body', hopen⟩
  · have hrest := (he.token.append_inj (hL.token f hleaf) (broken_cons rfl _) hs.broken h).2
    exact absurd hrest.symm (hs.ne_open body)
  · rw [hopen.text_append] at h
    obtain ⟨rfl, hbody⟩ := he.token.append_inj hopen.token (broken_cons rfl _)
      (broken_cons rfl _) h
    rw [(List.cons.inj hbody).2]
    exact hopen

/-- A formula that prints like a leaf is that leaf. -/
theorem eq_of_leaf (hL : Legible L) (he : L e) (hf : f.Over L) (hr : Follows r) (hs : Follows s)
    (h : e.text.toList ++ r = f.text.toList ++ s) : e = f ∧ r = s := by
  rcases leaf_or_opened hf s with hleaf | ⟨u, body, hopen⟩
  · obtain ⟨htext, hrest⟩ :=
      (hL.token e he).append_inj (hL.token f hleaf) hr.broken hs.broken h
    exact ⟨hL.inj e f he hleaf (String.toList_inj.1 htext), hrest⟩
  · rw [hopen.text_append] at h
    have hrest := ((hL.token e he).append_inj hopen.token hr.broken (broken_cons rfl _) h).2
    exact absurd hrest (hr.ne_open body)

namespace Opened

variable {body : List Char}

theorem of_neg (hL : Legible L) (ha : a.Over L) (h : Opened L s f u body) (hu : u = [])
    (hbody : body = '-' :: (a.text.toList ++ ')' :: r)) : ∃ b, f = unary .neg b ∧ b.Over L ∧
      a.text.toList ++ ')' :: r = b.text.toList ++ ')' :: s := by
  cases h with
  | neg hb => exact ⟨_, rfl, hb, (List.cons.inj hbody).2.symm⟩
  | not hb => simp at hbody
  | call hneg hnot hb => exact absurd hu (Unary.name_ne_nil _)
  | marked hmark hb hc => exact absurd hbody (marked_ne_neg hL hb ha)
  | call₂ hmark hb hc => exact absurd hu (Binary.name_ne_nil _)
  | choose hc ha hb => simp at hbody

theorem of_not (hL : Legible L) (ha : a.Over L) (h : Opened L s f u body) (hu : u = [])
    (hbody : body = "not".toList ++ ' ' :: (a.text.toList ++ ')' :: r)) :
    ∃ b, f = unary .not b ∧ b.Over L ∧
      a.text.toList ++ ')' :: r = b.text.toList ++ ')' :: s := by
  cases h with
  | neg hb => simp at hbody
  | not hb =>
    have hrest := List.append_cancel_left hbody
    exact ⟨_, rfl, hb, (List.cons.inj hrest).2.symm⟩
  | call hneg hnot hb => exact absurd hu (Unary.name_ne_nil _)
  | marked hmark hb hc => exact absurd hbody (marked_ne_not hL hb ha (Binary.token_mark hmark))
  | call₂ hmark hb hc => exact absurd hu (Binary.name_ne_nil _)
  | choose hc ha hb => simp at hbody

theorem of_call {op : Unary} (h : Opened L s f u body) (hu : u = op.name.toList)
    (hbody : body = a.text.toList ++ ')' :: r) : ∃ b, f = unary op b ∧ b.Over L ∧
      a.text.toList ++ ')' :: r = b.text.toList ++ ')' :: s := by
  cases h with
  | call hneg hnot hb =>
    obtain rfl := Unary.name_inj hu
    exact ⟨_, rfl, hb, hbody.symm⟩
  | call₂ hmark hb hc => exact absurd hu (Binary.name_ne_unary _ _)
  | _ => exact absurd hu.symm (Unary.name_ne_nil _)

theorem of_marked {op : Binary} {mark : String} (hL : Legible L) (hmark : op.mark? = some mark)
    (ha : a.Over L) (hb : b.Over L) (h : Opened L s f u body) (hu : u = [])
    (hbody : body = a.text.toList ++ ' ' :: (mark.toList ++ ' ' :: (b.text.toList ++ ')' :: r))) :
    ∃ op' mark' c d, op'.mark? = some mark' ∧ f = binary op' c d ∧ c.Over L ∧ d.Over L ∧
      a.text.toList ++ ' ' :: (mark.toList ++ ' ' :: (b.text.toList ++ ')' :: r)) =
        c.text.toList ++ ' ' :: (mark'.toList ++ ' ' :: (d.text.toList ++ ')' :: s)) := by
  cases h with
  | neg hc => exact absurd hbody.symm (marked_ne_neg hL ha hc)
  | not hc => exact absurd hbody.symm (marked_ne_not hL ha hc (Binary.token_mark hmark))
  | call hneg hnot hc => exact absurd hu (Unary.name_ne_nil _)
  | marked hmark' hc hd => exact ⟨_, _, _, _, hmark', rfl, hc, hd, hbody.symm⟩
  | call₂ hmark hc hd => exact absurd hu (Binary.name_ne_nil _)
  | choose hc hd he =>
    exact absurd hbody.symm (marked_ne_choose hL ha hb hc (Binary.token_mark hmark))

theorem of_call₂ {op : Binary} (h : Opened L s f u body) (hu : u = op.name.toList)
    (hbody : body = a.text.toList ++ ',' :: ' ' :: (b.text.toList ++ ')' :: r)) :
    ∃ c d, f = binary op c d ∧ c.Over L ∧ d.Over L ∧
      a.text.toList ++ ',' :: ' ' :: (b.text.toList ++ ')' :: r) =
        c.text.toList ++ ',' :: ' ' :: (d.text.toList ++ ')' :: s) := by
  cases h with
  | call hneg hnot hc => exact absurd hu.symm (Binary.name_ne_unary _ _)
  | call₂ hmark hc hd =>
    obtain rfl := Binary.name_inj hu
    exact ⟨_, _, rfl, hc, hd, hbody.symm⟩
  | _ => exact absurd hu.symm (Binary.name_ne_nil _)

theorem of_choose (hL : Legible L) (hc : c.Over L) (h : Opened L s f u body)
    (hu : u = []) (hbody : body = "if".toList ++ ' ' :: (c.text.toList ++
      ' ' :: ("then".toList ++ ' ' :: y))) :
    ∃ d a b, f = Expr.choose d a b ∧ d.Over L ∧ a.Over L ∧ b.Over L ∧
      c.text.toList ++ ' ' :: ("then".toList ++ ' ' :: y) =
        d.text.toList ++ ' ' :: ("then".toList ++ ' ' :: (a.text.toList ++
          ' ' :: ("else".toList ++ ' ' :: (b.text.toList ++ ')' :: s)))) := by
  cases h with
  | neg hd => simp at hbody
  | not hd => simp at hbody
  | call hneg hnot hd => exact absurd hu (Unary.name_ne_nil _)
  | marked hmark hd he =>
    exact absurd hbody (marked_ne_choose hL hd he hc (Binary.token_mark hmark))
  | call₂ hmark hd he => exact absurd hu (Binary.name_ne_nil _)
  | choose hd ha hb =>
    have hrest := List.append_cancel_left hbody
    exact ⟨_, _, _, rfl, hd, ha, hb, (List.cons.inj hrest).2.symm⟩

end Opened

/-- A printed formula over legible leaves is read back in one way only. The induction is on the
formula; what follows its parts are the blanks, commas and brackets that end them. -/
theorem text_inj (hL : Legible L) (he : e.Over L) (hf : f.Over L) (hr : Follows r)
    (hs : Follows s) (h : e.text.toList ++ r = f.text.toList ++ s) : e = f ∧ r = s := by
  have hblank (w : List Char) : Follows (' ' :: w) := follows_cons rfl (by decide) w
  have hcomma (w : List Char) : Follows (',' :: w) := follows_cons rfl (by decide) w
  have hclose (w : List Char) : Follows (')' :: w) := follows_cons rfl (by decide) w
  induction e generalizing f r s with
  | var v => exact eq_of_leaf hL he hf hr hs h
  | par k => exact eq_of_leaf hL he hf hr hs h
  | const x => exact eq_of_leaf hL he hf hr hs h
  | unary op a ih =>
    have ha : a.Over L := he
    have hpart : ∃ b, f = unary op b ∧ b.Over L ∧
        a.text.toList ++ ')' :: r = b.text.toList ++ ')' :: s := by
      by_cases hneg : op = .neg
      · subst hneg
        exact (Opened.of_text hL (.neg ha) hf hs h).of_neg hL ha rfl rfl
      · by_cases hnot : op = .not
        · subst hnot
          exact (Opened.of_text hL (.not ha) hf hs h).of_not hL ha rfl rfl
        · exact (Opened.of_text hL (.call hneg hnot ha) hf hs h).of_call rfl rfl
    obtain ⟨b, rfl, hb, hparts⟩ := hpart
    obtain ⟨rfl, hrest⟩ := ih ha hb (hclose r) (hclose s) hparts
    exact ⟨rfl, (List.cons.inj hrest).2⟩
  | binary op a b iha ihb =>
    cases hmark : op.mark? with
    | some mark =>
      have hopen := Opened.of_text hL (.marked hmark he.1 he.2) hf hs h
      obtain ⟨op', mark', c, d, hmark', rfl, hc, hd, hparts⟩ :=
        hopen.of_marked hL hmark he.1 he.2 rfl rfl
      obtain ⟨rfl, hafter⟩ := iha he.1 hc (hblank _) (hblank _) hparts
      obtain ⟨hmarks, hsecond⟩ := (Binary.token_mark hmark).append_inj (Binary.token_mark hmark')
        (hblank _).broken (hblank _).broken (List.cons.inj hafter).2
      obtain rfl := String.toList_inj.1 hmarks
      obtain rfl := Binary.mark_inj hmark hmark'
      obtain ⟨rfl, hrest⟩ := ihb he.2 hd (hclose r) (hclose s) (List.cons.inj hsecond).2
      exact ⟨rfl, (List.cons.inj hrest).2⟩
    | none =>
      have hopen := Opened.of_text hL (.call₂ hmark he.1 he.2) hf hs h
      obtain ⟨c, d, rfl, hc, hd, hparts⟩ := hopen.of_call₂ rfl rfl
      obtain ⟨rfl, hafter⟩ := iha he.1 hc (hcomma _) (hcomma _) hparts
      have hsecond := (List.cons.inj (List.cons.inj hafter).2).2
      obtain ⟨rfl, hrest⟩ := ihb he.2 hd (hclose r) (hclose s) hsecond
      exact ⟨rfl, (List.cons.inj hrest).2⟩
  | choose c a b ihc iha ihb =>
    have hopen := Opened.of_text hL (.choose he.1 he.2.1 he.2.2) hf hs h
    obtain ⟨c', a', b', rfl, hc, ha, hb, hparts⟩ := hopen.of_choose hL he.1 rfl rfl
    obtain ⟨rfl, hafter⟩ := ihc he.1 hc (hblank _) (hblank _) hparts
    have hsecond := List.append_cancel_left (List.cons.inj hafter).2
    obtain ⟨rfl, hafter'⟩ := iha he.2.1 ha (hblank _) (hblank _) (List.cons.inj hsecond).2
    have hthird := List.append_cancel_left (List.cons.inj hafter').2
    obtain ⟨rfl, hrest⟩ := ihb he.2.2 hb (hclose r) (hclose s) (List.cons.inj hthird).2
    exact ⟨rfl, (List.cons.inj hrest).2⟩

/-- The text of a formula is not empty and does not start with a closing bracket. -/
theorem text_start (hL : Legible L) (he : e.Over L) :
    ∃ c rest, e.text.toList = c :: rest ∧ c ≠ ')' ∧ c ≠ ']' := by
  have hstart {v : List Char} (hv : Token v) (hne : v ≠ []) (rest : List Char) :
      ∃ c rest', v ++ rest = c :: rest' ∧ c ≠ ')' ∧ c ≠ ']' := by
    obtain ⟨c, v, rfl⟩ := List.exists_cons_of_ne_nil hne
    have hc := hv c List.mem_cons_self
    refine ⟨c, v ++ rest, rfl, ?_, ?_⟩ <;> rintro rfl <;> simp [isBreak] at hc
  rcases leaf_or_opened he [] with hleaf | ⟨u, body, hopen⟩
  · have htext := hstart (hL.token e hleaf) (hL.ne_nil e hleaf) []
    rwa [List.append_nil] at htext
  · rw [← List.append_nil e.text.toList, hopen.text_append]
    by_cases hu : u = []
    · exact ⟨'(', body, by rw [hu]; rfl, by decide, by decide⟩
    · exact hstart hopen.token hu _

end Expr

/-- Names and numbers of which the texts are tokens and apart, and those of numbers tell them. -/
structure Apart (N : String → Prop) (C : K → Prop) : Prop where
  name_token : ∀ v, N v → Token v.toList
  name_ne_nil : ∀ v, N v → v.toList ≠ []
  token : ∀ x, C x → Token (Scalar.text x).toList
  ne_nil : ∀ x, C x → (Scalar.text x).toList ≠ []
  not_name : ∀ x, C x → ¬ N (Scalar.text x)
  inj : ∀ x y, C x → C y → Scalar.text x = Scalar.text y → x = y

namespace Expr

def constants : Expr K → List K
  | var _ | par _ => []
  | const x => [x]
  | unary _ a => a.constants
  | binary _ a b => a.constants ++ b.constants
  | choose c a b => c.constants ++ a.constants ++ b.constants

def ApartLeaf (N : String → Prop) (C : K → Prop) (params : List String) : Expr K → Prop
  | var v => N v ∧ v ∉ params
  | par k => N k ∧ k ∈ params
  | const x => C x
  | _ => False

variable {N : String → Prop} {C : K → Prop} {params : List String}

omit [Scalar K] in
theorem over_apartLeaf {e : Expr K}
    (hvars : ∀ v ∈ e.reads, N v ∧ v ∉ params) (hparams : ∀ k ∈ e.readsParams, N k ∧ k ∈ params)
    (hconstants : ∀ x ∈ e.constants, C x) : e.Over (ApartLeaf N C params) := by
  induction e with
  | var v => exact hvars v List.mem_cons_self
  | par k => exact hparams k List.mem_cons_self
  | const x => exact hconstants x List.mem_cons_self
  | unary op a ih => exact ih hvars hparams hconstants
  | binary op a b iha ihb =>
    simp only [reads, readsParams, constants, List.forall_mem_append] at hvars hparams hconstants
    exact ⟨iha hvars.1 hparams.1 hconstants.1, ihb hvars.2 hparams.2 hconstants.2⟩
  | choose c a b ihc iha ihb =>
    simp only [reads, readsParams, constants, List.forall_mem_append] at hvars hparams hconstants
    exact ⟨ihc hvars.1.1 hparams.1.1 hconstants.1.1, iha hvars.1.2 hparams.1.2 hconstants.1.2,
      ihb hvars.2 hparams.2 hconstants.2⟩

/-- Where the names of parameters are known, the text of a leaf tells the leaf. -/
theorem apartLeaf_legible (h : Apart N C) : Legible (ApartLeaf N C params) where
  token e he := by
    cases e with
    | var v => exact h.name_token v he.1
    | par k => exact h.name_token k he.1
    | const x => exact h.token x he
    | _ => exact he.elim
  ne_nil e he := by
    cases e with
    | var v => exact h.name_ne_nil v he.1
    | par k => exact h.name_ne_nil k he.1
    | const x => exact h.ne_nil x he
    | _ => exact he.elim
  inj d e hd he htext := by
    cases d with
    | var v =>
      cases e with
      | var w => exact congrArg var htext
      | par k =>
        obtain rfl : v = k := htext
        exact absurd he.2 hd.2
      | const x =>
        obtain rfl : v = Scalar.text x := htext
        exact absurd hd.1 (h.not_name x he)
      | _ => exact he.elim
    | par k =>
      cases e with
      | var v =>
        obtain rfl : k = v := htext
        exact absurd hd.2 he.2
      | par l => exact congrArg par htext
      | const x =>
        obtain rfl : k = Scalar.text x := htext
        exact absurd hd.1 (h.not_name x he)
      | _ => exact he.elim
    | const x =>
      cases e with
      | var v =>
        obtain rfl : Scalar.text x = v := htext
        exact absurd he.1 (h.not_name x hd)
      | par k =>
        obtain rfl : Scalar.text x = k := htext
        exact absurd he.1 (h.not_name x hd)
      | const y => exact congrArg const (h.inj x y hd he htext)
      | _ => exact he.elim
    | _ => exact hd.elim

end Expr

end Catchment
