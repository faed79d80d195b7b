import Catchment.Proofs.FormulaTexts
import Catchment.Proofs.ProgramCaches
import Catchment.Proofs.QuotedTexts
import Catchment.Proofs.RateFormulas
import Catchment.Proofs.ScheduledDeclarations
import Mathlib

/-!
# Texts of calls

The text that names a program tells its call, if in each declaration no variable is named like a
parameter and no name is a number. For such calls a cache of programs is transparent.
-/
namespace Catchment

/-- Items of which the texts do not start with a closing bracket and can be read in one way only
where an item ends. -/
structure Readable {α : Type} (D : α → Prop) (f : α → List Char) : Prop where
  start : ∀ a, D a → ∃ c rest, f a = c :: rest ∧ c ≠ ')' ∧ c ≠ ']'
  inj : ∀ {a b r s}, D a → D b → Follows r → Follows s → f a ++ r = f b ++ s → a = b ∧ r = s

def laterItems {α : Type} (f : α → List Char) (xs : List α) : List Char :=
  xs.flatMap fun x => ',' :: ' ' :: f x

def listTail {α : Type} (f : α → List Char) (xs : List α) : List Char := laterItems f xs ++ [']']

def tupleTail {α : Type} (f : α → List Char) : List α → List Char
  | [] => [',', ')']
  | x :: xs => laterItems f (x :: xs) ++ [')']

def closedItems {α : Type} (f : α → List Char) (close : Char) (tail : List α → List Char) :
    List α → List Char
  | [] => [close]
  | x :: xs => f x ++ tail xs

section

variable {α : Type} {D : α → Prop} {f : α → List Char} {xs ys : List α} {close : Char}
  {r s : List Char}

theorem follows_comma (w : List Char) : Follows (',' :: w) := follows_cons rfl (by decide) w

theorem comma_inj (h : ',' :: ' ' :: r = ',' :: ' ' :: s) : r = s := by simpa using h

theorem laterItems_cons (x : α) (xs : List α) :
    laterItems f (x :: xs) = ',' :: ' ' :: (f x ++ laterItems f xs) := by
  simp [laterItems]

theorem laterItems_follows (xs : List α) (hr : Follows r) : Follows (laterItems f xs ++ r) := by
  cases xs with
  | nil => exact hr
  | cons x xs => exact follows_comma _

theorem listTail_follows (xs : List α) (r : List Char) : Follows (listTail f xs ++ r) := by
  rw [listTail, List.append_assoc]
  exact laterItems_follows xs (follows_cons rfl (by decide) r)

theorem tupleTail_follows (xs : List α) (r : List Char) : Follows (tupleTail f xs ++ r) := by
  cases xs with
  | nil => exact follows_comma _
  | cons x xs => exact follows_comma _

theorem toList_commaSeparated_cons (text : α → String) (x : α) (xs : List α) :
    (commaSeparated ((x :: xs).map text)).toList =
      (text x).toList ++ laterItems (fun y => (text y).toList) xs := by
  induction xs generalizing x with
  | nil => simp [commaSeparated, laterItems]
  | cons y ys ih =>
    have htail := ih y
    simp only [commaSeparated, List.map_cons, String.intercalate_cons_cons, String.toList_append]
      at htail ⊢
    rw [htail]
    simp [laterItems]

theorem toList_listText (text : α → String) (xs : List α) :
    ("[" ++ commaSeparated (xs.map text) ++ "]").toList =
      '[' :: closedItems (fun y => (text y).toList) ']' (listTail fun y => (text y).toList) xs := by
  cases xs with
  | nil => simp [commaSeparated, closedItems]
  | cons x xs => simp [toList_commaSeparated_cons, closedItems, listTail, -List.map_cons]

theorem toList_tupleText (text : α → String) (xs : List α) :
    (tupleText (xs.map text)).toList =
      '(' :: closedItems (fun y => (text y).toList) ')' (tupleTail fun y => (text y).toList) xs := by
  cases xs with
  | nil => simp [tupleText, commaSeparated, closedItems]
  | cons x xs =>
    cases xs with
    | nil => simp [tupleText, closedItems, tupleTail]
    | cons y ys =>
      have hitems := toList_commaSeparated_cons text x (y :: ys)
      simp only [List.map_cons] at hitems
      simp [tupleText, closedItems, tupleTail, hitems]

namespace Readable

variable (hf : Readable D f)
include hf

/-- Later items up to a bracket are read in one way only. -/
theorem later_inj (hclose : Follows [close]) (hne : close ≠ ',') (hxs : ∀ x ∈ xs, D x)
    (hys : ∀ y ∈ ys, D y)
    (h : laterItems f xs ++ close :: r = laterItems f ys ++ close :: s) : xs = ys ∧ r = s := by
  have hfollows (zs : List α) (w : List Char) : Follows (laterItems f zs ++ close :: w) :=
    laterItems_follows zs (fun c hc => hclose c hc)
  induction xs generalizing ys with
  | nil =>
    cases ys with
    | nil => exact ⟨rfl, (List.cons.inj h).2⟩
    | cons y ys => exact absurd (List.cons.inj h).1 hne
  | cons x xs ih =>
    cases ys with
    | nil => exact absurd (List.cons.inj h).1.symm hne
    | cons y ys =>
      rw [List.forall_mem_cons] at hxs hys
      simp only [laterItems_cons, List.cons_append, List.append_assoc] at h
      have hitems := (List.cons.inj (List.cons.inj h).2).2
      obtain ⟨rfl, hlater⟩ := hf.inj hxs.1 hys.1 (hfollows xs r) (hfollows ys s) hitems
      obtain ⟨rfl, hrest⟩ := ih hxs.2 hys.2 hlater
      exact ⟨rfl, hrest⟩

theorem listTail_inj (hxs : ∀ x ∈ xs, D x) (hys : ∀ y ∈ ys, D y)
    (h : listTail f xs ++ r = listTail f ys ++ s) : xs = ys ∧ r = s := by
  rw [listTail, listTail, List.append_assoc, List.append_assoc] at h
  exact hf.later_inj (follows_cons rfl (by decide) []) (by decide) hxs hys h

theorem tupleTail_inj (hxs : ∀ x ∈ xs, D x) (hys : ∀ y ∈ ys, D y)
    (h : tupleTail f xs ++ r = tupleTail f ys ++ s) : xs = ys ∧ r = s := by
  cases xs with
  | nil =>
    cases ys with
    | nil => exact ⟨rfl, List.append_cancel_left h⟩
    | cons y ys => simp [tupleTail, laterItems] at h
  | cons x xs =>
    cases ys with
    | nil => simp [tupleTail, laterItems] at h
    | cons y ys =>
      rw [tupleTail, tupleTail, List.append_assoc, List.append_assoc] at h
      exact hf.later_inj (follows_cons rfl (by decide) []) (by decide) hxs hys h

/-- Items are read in one way only if what follows the first one is. -/
theorem closed_inj {tail : List α → List Char} (hclose : close = ')' ∨ close = ']')
    (hfollows : ∀ zs w, Follows (tail zs ++ w))
    (htail : ∀ {xs ys : List α}, (∀ x ∈ xs, D x) → (∀ y ∈ ys, D y) →
      tail xs ++ r = tail ys ++ s → xs = ys ∧ r = s)
    (hxs : ∀ x ∈ xs, D x) (hys : ∀ y ∈ ys, D y)
    (h : closedItems f close tail xs ++ r = closedItems f close tail ys ++ s) :
    xs = ys ∧ r = s := by
  have hopen {x : α} (hx : D x) {u v : List Char} : close :: u ≠ f x ++ v := by
    obtain ⟨c, rest, hstart, hc⟩ := hf.start x hx
    rw [hstart]
    intro heq
    obtain rfl := (List.cons.inj heq).1
    simp [hc] at hclose
  cases xs with
  | nil =>
    cases ys with
    | nil => exact ⟨rfl, List.append_cancel_left h⟩
    | cons y ys =>
      simp only [closedItems, List.cons_append, List.append_assoc] at h
      exact absurd h (hopen (hys y List.mem_cons_self))
  | cons x xs =>
    rw [List.forall_mem_cons] at hxs
    cases ys with
    | nil =>
      simp only [closedItems, List.cons_append, List.append_assoc] at h
      exact absurd h.symm (hopen hxs.1)
    | cons y ys =>
      rw [List.forall_mem_cons] at hys
      simp only [closedItems, List.append_assoc] at h
      obtain ⟨rfl, hrests⟩ := hf.inj hxs.1 hys.1 (hfollows xs r) (hfollows ys s) h
      obtain ⟨rfl, hrest⟩ := htail hxs.2 hys.2 hrests
      exact ⟨rfl, hrest⟩

end Readable

variable {text : α → String}

/-- Lists of readable items are read in one way only, whatever follows them. -/
theorem listText_inj (hf : Readable D fun x => (text x).toList) (hxs : ∀ x ∈ xs, D x)
    (hys : ∀ y ∈ ys, D y) (h : ("[" ++ commaSeparated (xs.map text) ++ "]").toList ++ r =
      ("[" ++ commaSeparated (ys.map text) ++ "]").toList ++ s) : xs = ys ∧ r = s := by
  rw [toList_listText, toList_listText] at h
  exact hf.closed_inj (.inr rfl) listTail_follows hf.listTail_inj hxs hys (List.cons.inj h).2

theorem tupleText_inj (hf : Readable D fun x => (text x).toList) (hxs : ∀ x ∈ xs, D x)
    (hys : ∀ y ∈ ys, D y)
    (h : (tupleText (xs.map text)).toList ++ r = (tupleText (ys.map text)).toList ++ s) :
    xs = ys ∧ r = s := by
  rw [toList_tupleText, toList_tupleText] at h
  exact hf.closed_inj (.inl rfl) tupleTail_follows hf.tupleTail_inj hxs hys (List.cons.inj h).2

end

theorem quotedText_readable : Readable (fun _ => True) fun s => (quotedText s).toList where
  start s _ := by
    rw [toList_quotedText]
    rcases quoteFor_cases s.toList with hq | hq <;> rw [hq] <;>
      exact ⟨_, _, rfl, by decide, by decide⟩
  inj _ _ _ _ h := quotedText_selfDelimiting _ _ _ _ h

theorem render_names (items : List String) :
    (Literal.names items).render = tupleText (items.map quotedText) := by
  simp [Literal.names, Literal.render, Function.comp_def]

theorem names_selfDelimiting : SelfDelimiting fun items => (Literal.names items).render.toList := by
  intro xs ys r s h
  simp only [render_names] at h
  exact tupleText_inj quotedText_readable (by simp) (by simp) h

variable {K : Type} [Scalar K]

namespace Expr

theorem text_readable {L : Expr K → Prop} (hL : Legible L) :
    Readable (Over L) fun e : Expr K => e.text.toList where
  start _ he := text_start hL he
  inj ha hb hr hs h := text_inj hL ha hb hr hs h

end Expr

theorem render_tuple (items : List Literal) :
    (Literal.tuple items).render = tupleText (items.map Literal.render) := by
  simp [Literal.render]

namespace Declaration

/-- A declaration by formulas of which the names and the constants are told apart by their texts, and
no variable is named like a parameter. -/
structure WellNamed (N : String → Prop) (C : K → Prop) (f : Declaration K) : Prop where
  noLaw : f.lawName? = none
  reads : ∀ e ∈ f.exprs, ∀ v ∈ e.reads, N v ∧ v ∉ f.params
  readsParams : ∀ e ∈ f.exprs, ∀ k ∈ e.readsParams, N k
  constants : ∀ e ∈ f.exprs, ∀ x ∈ e.constants, C x

variable {f g : Declaration K} {N : String → Prop} {C : K → Prop} {r s : List Char}

omit [Scalar K] in
theorem WellNamed.leaves (h : f.WellNamed N C) :
    ∀ e ∈ f.exprs, e.Over (Expr.ApartLeaf N C f.params) := by
  intro e he
  have hmem := he
  rw [← map_snd_formulas h.noLaw] at hmem
  obtain ⟨p, hp, rfl⟩ := List.mem_map.1 hmem
  exact Expr.over_apartLeaf (h.reads p.2 he)
    (fun k hk => ⟨h.readsParams p.2 he k hk, f.readsParams_subset hp k hk⟩) (h.constants p.2 he)

theorem literal_of_noLaw (h : f.lawName? = none) : f.literal = .tuple [.text f.kind, .text f.name,
    .names f.outputs, .names f.inputs, .names f.params,
    .tuple (f.exprs.map fun e => .written e.text), .names [], .none, .none] := by
  have hlaw : f.lawName?.elim Literal.none Literal.text = .none := by
    rw [h]
    rfl
  cases f with
  | flux f =>
    simp only [literal, hlaw]
    rfl
  | state d => rfl
  | neural n => simp [lawName?] at h

/-- The text of a declaration by formulas, part by part. -/
theorem toList_literal (h : f.lawName? = none) : f.literal.render.toList =
    '(' :: ((quotedText f.kind).toList ++ ',' :: ' ' :: ((quotedText f.name).toList ++
      ',' :: ' ' :: ((Literal.names f.outputs).render.toList ++
      ',' :: ' ' :: ((Literal.names f.inputs).render.toList ++
      ',' :: ' ' :: ((Literal.names f.params).render.toList ++
      ',' :: ' ' :: ((tupleText (f.exprs.map Expr.text)).toList ++
      ", (), None, None)".toList)))))) := by
  have hexprs : (Literal.tuple (f.exprs.map fun e => .written e.text)).render =
      tupleText (f.exprs.map Expr.text) := by
    simp [render_tuple, Literal.render, Function.comp_def]
  have hnone : (Literal.names []).render = "()" := by
    simp [render_names, tupleText, commaSeparated]
  rw [literal_of_noLaw h, render_tuple, toList_tupleText]
  simp [closedItems, tupleTail, laterItems, hexprs, hnone, Literal.render]

omit [Scalar K] in
/-- Declarations by formulas that agree in what is printed are the same. -/
theorem eq_of_parts (hf : f.lawName? = none) (hg : g.lawName? = none) (hkind : f.kind = g.kind)
    (hname : f.name = g.name) (houtputs : f.outputs = g.outputs) (hinputs : f.inputs = g.inputs)
    (hparams : f.params = g.params) (hexprs : f.exprs = g.exprs) : f = g := by
  cases f with
  | flux f =>
    cases g with
    | flux g =>
      obtain ⟨⟨name, outputs, inputs, params, exprs, law⟩, hacc⟩ := f
      obtain ⟨⟨name', outputs', inputs', params', exprs', law'⟩, hacc'⟩ := g
      have hlaw : law = none := Option.map_eq_none_iff.1 hf
      have hlaw' : law' = none := Option.map_eq_none_iff.1 hg
      simp only [Declaration.name, Declaration.outputs, Declaration.inputs, Declaration.params,
        Declaration.exprs] at hname houtputs hinputs hparams hexprs
      subst hname houtputs hinputs hparams hexprs hlaw hlaw'
      rfl
    | state d => simp [kind] at hkind
    | neural n => simp [lawName?] at hg
  | state d =>
    cases g with
    | flux g => simp [kind] at hkind
    | state d' =>
      obtain ⟨⟨name, state, expr, inputs, params⟩, hacc⟩ := d
      obtain ⟨⟨name', state', expr', inputs', params'⟩, hacc'⟩ := d'
      have hstate : state = state' := rateName_injective (List.cons.inj houtputs).1
      have hexpr : expr = expr' := (List.cons.inj hexprs).1
      simp only [Declaration.name, Declaration.inputs, Declaration.params] at hname hinputs hparams
      subst hname hstate hexpr hinputs hparams
      rfl
    | neural n => simp [lawName?] at hg
  | neural n => simp [lawName?] at hf

/-- Declarations in which the names are apart are read in one way only. -/
theorem literal_inj (hapart : Apart N C) (hf : f.WellNamed N C) (hg : g.WellNamed N C)
    (h : f.literal.render.toList ++ r = g.literal.render.toList ++ s) : f = g ∧ r = s := by
  simp only [toList_literal hf.noLaw, toList_literal hg.noLaw, List.cons_append,
    List.append_assoc] at h
  obtain ⟨hkind, hlater⟩ := quotedText_selfDelimiting _ _ _ _ (List.cons.inj h).2
  obtain ⟨hname, hlater⟩ := quotedText_selfDelimiting _ _ _ _ (comma_inj hlater)
  obtain ⟨houtputs, hlater⟩ := names_selfDelimiting _ _ _ _ (comma_inj hlater)
  obtain ⟨hinputs, hlater⟩ := names_selfDelimiting _ _ _ _ (comma_inj hlater)
  obtain ⟨hparams, hlater⟩ := names_selfDelimiting _ _ _ _ (comma_inj hlater)
  -- the parameters are known here, and with them which names are variables
  have hleaves := hf.leaves
  rw [hparams] at hleaves
  obtain ⟨hexprs, hrest⟩ := tupleText_inj (Expr.text_readable (Expr.apartLeaf_legible hapart))
    hleaves hg.leaves (comma_inj hlater)
  have hsame := eq_of_parts hf.noLaw hg.noLaw hkind hname houtputs hinputs hparams hexprs
  exact ⟨hsame, List.append_cancel_left hrest⟩

theorem literal_readable (hapart : Apart N C) :
    Readable (WellNamed N C) fun f : Declaration K => f.literal.render.toList where
  start f hf := ⟨'(', _, toList_literal hf.noLaw, by decide, by decide⟩
  inj hf hg _ _ h := literal_inj hapart hf hg h

end Declaration

theorem Backend.word_inj {a b : Backend} (h : a.word = b.word) : a = b := by
  revert h
  cases a <;> cases b <;> decide

namespace CompileCall

variable {a b : CompileCall K} {N : String → Prop} {C : K → Prop}

theorem toList_text (c : CompileCall K) : c.text.toList =
    '(' :: ((quotedText c.backend.word).toList ++
      ',' :: ' ' :: (("[" ++ commaSeparated (c.fluxes.map fun f => f.literal.render) ++ "]").toList ++
      ',' :: ' ' :: ((Literal.names c.inputs).render.toList ++
      ',' :: ' ' :: ((Literal.names c.outputs).render.toList ++ [')'])))) := by
  have hlist : (Literal.list (c.fluxes.map Declaration.literal)).render =
      "[" ++ commaSeparated (c.fluxes.map fun f => f.literal.render) ++ "]" := by
    simp [Literal.render, Function.comp_def]
  rw [text, render_tuple, toList_tupleText]
  simp [closedItems, tupleTail, laterItems, hlist, Literal.render]

/-- The text of a call of which every declaration is well named tells the call. -/
theorem eq_of_text (hapart : Apart N C) (ha : ∀ f ∈ a.fluxes, f.WellNamed N C)
    (hb : ∀ f ∈ b.fluxes, f.WellNamed N C) (h : a.text = b.text) : a = b := by
  have hparts := congrArg String.toList h
  rw [toList_text, toList_text] at hparts
  obtain ⟨hbackend, hlater⟩ := quotedText_selfDelimiting _ _ _ _ (List.cons.inj hparts).2
  obtain ⟨hfluxes, hlater⟩ :=
    listText_inj (Declaration.literal_readable hapart) ha hb (comma_inj hlater)
  obtain ⟨hinputs, hlater⟩ := names_selfDelimiting _ _ _ _ (comma_inj hlater)
  obtain ⟨houtputs, -⟩ := names_selfDelimiting _ _ _ _ (comma_inj hlater)
  cases a with
  | mk backend fluxes inputs outputs =>
    cases b with
    | mk backend' fluxes' inputs' outputs' =>
      obtain rfl := Backend.word_inj hbackend
      subst hfluxes hinputs houtputs
      rfl

end CompileCall

/-- Calls get from an empty cache what they get without one, if their texts have different digests
and no declaration names a variable like a parameter. -/
theorem ProgramCache.answers_eq_fresh_of_names {N : String → Prop} {C : K → Prop}
    {calls : List (CompileCall K)} (hapart : Apart N C)
    (hnames : ∀ c ∈ calls, ∀ f ∈ c.fluxes, f.WellNamed N C)
    (hdigests : ∀ a ∈ calls, ∀ b ∈ calls, a.key = b.key → a.text = b.text) :
    (empty : ProgramCache K).answers calls = calls.map CompileCall.fresh := by
  apply answers_eq_fresh hdigests
  intro a ha b hb htext
  rw [CompileCall.eq_of_text hapart (hnames a ha) (hnames b hb) htext]

end Catchment
