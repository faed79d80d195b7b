import Catchment.Grid
import Mathlib

/-!
# Repetition over joined shapes

Two shapes that are both repeated over a third have a join, the join is repeated over the third, and
reading through the join is reading directly. A repetition over a shape that has an index reaches
every index of the repeated shape.
-/
namespace Catchment

namespace Index

def nil : Index [] := ()

def head {n : Nat} {s : Shape} (i : Index (n :: s)) : Fin n := i.1

def tail {n : Nat} {s : Shape} (i : Index (n :: s)) : Index s := i.2

def cons {n : Nat} {s : Shape} (k : Fin n) (i : Index s) : Index (n :: s) := (k, i)

@[simp] theorem head_cons {n : Nat} {s : Shape} (k : Fin n) (i : Index s) : (cons k i).head = k :=
  rfl

@[simp] theorem tail_cons {n : Nat} {s : Shape} (k : Fin n) (i : Index s) : (cons k i).tail = i :=
  rfl

@[simp] theorem cons_head_tail {n : Nat} {s : Shape} (i : Index (n :: s)) :
    cons i.head i.tail = i := rfl

theorem ext_cons {n : Nat} {s : Shape} {i j : Index (n :: s)} (h : i.head = j.head)
    (t : i.tail = j.tail) : i = j := Prod.ext h t

end Index

namespace Shape

theorem pos_of_eq_one {m : Nat} (h : m = 1) : 0 < m := h ▸ Nat.zero_lt_one

def alignAxis? (m n : Nat) : Option (Fin n → Fin m) :=
  if h : n = m then some (Fin.cast h)
  else if h : m = 1 then some fun _ => ⟨0, pos_of_eq_one h⟩
  else none

theorem align?_cons (m n : Nat) (s u : Shape) :
    align? (m :: s) (n :: u) =
      (alignAxis? m n).bind fun a =>
        (align? s u).map fun f (i : Index (n :: u)) => Index.cons (a i.head) (f i.tail) := by
  unfold alignAxis?
  by_cases h : n = m
  · subst h
    simp only [align?, dif_pos]
    rfl
  · by_cases h₁ : m = 1
    · subst h₁
      simp only [align?, h, dif_pos, dif_neg, not_false_eq_true]
      rfl
    · simp only [align?, h, h₁, dif_neg, not_false_eq_true]
      rfl

theorem align?_cons_eq_some {m n : Nat} {s u : Shape} {f : Index (n :: u) → Index (m :: s)} :
    align? (m :: s) (n :: u) = some f ↔
      ∃ a g, alignAxis? m n = some a ∧ align? s u = some g ∧
        f = fun i => Index.cons (a i.head) (g i.tail) := by
  rw [align?_cons]
  constructor
  · intro h
    obtain ⟨a, ha, h⟩ := Option.bind_eq_some_iff.1 h
    obtain ⟨g, hg, h⟩ := Option.map_eq_some_iff.1 h
    exact ⟨a, g, ha, hg, h.symm⟩
  · rintro ⟨a, g, ha, hg, rfl⟩
    simp [ha, hg]

theorem align?_length {s u : Shape} {f : Index u → Index s} (h : align? s u = some f) :
    s.length = u.length := by
  induction s generalizing u with
  | nil => cases u with
    | nil => rfl
    | cons n u => simp [align?] at h
  | cons m s ih => cases u with
    | nil => simp [align?] at h
    | cons n u =>
      obtain ⟨a, g, -, hg, -⟩ := align?_cons_eq_some.1 h
      simp [ih hg]

theorem lift?_cons_of_le {s u : Shape} (n : Nat) (h : s.length ≤ u.length) :
    lift? s (n :: u) = (lift? s u).map fun f (i : Index (n :: u)) => f i.tail := by
  simp only [lift?, h, if_true]
  rfl

theorem lift?_eq_align? {s u : Shape} (h : s.length = u.length) : lift? s u = align? s u := by
  cases u with
  | nil => rfl
  | cons n u =>
    have hlt : ¬ s.length ≤ u.length := by simp [h]
    simp only [lift?, hlt, if_false]

theorem lift?_length {s u : Shape} {f : Index u → Index s} (h : lift? s u = some f) :
    s.length ≤ u.length := by
  induction u with
  | nil => exact Nat.le_of_eq (align?_length h)
  | cons n u ih =>
    by_cases hs : s.length ≤ u.length
    · simp only [List.length_cons]
      omega
    · simp only [lift?, hs, if_false] at h
      exact Nat.le_of_eq (align?_length h)

theorem lift?_cons_cons_eq_some {m n : Nat} {s u : Shape} (h : s.length = u.length)
    {f : Index (n :: u) → Index (m :: s)} :
    lift? (m :: s) (n :: u) = some f ↔
      ∃ a g, alignAxis? m n = some a ∧ lift? s u = some g ∧
        f = fun i => Index.cons (a i.head) (g i.tail) := by
  rw [lift?_eq_align? (by simp [h]), lift?_eq_align? h, align?_cons_eq_some]

@[simp] theorem alignAxis?_self (n : Nat) : alignAxis? n n = some id := by
  simp only [alignAxis?, dif_pos]
  rfl

theorem lift?_nil (u : Shape) : lift? [] u = some fun _ => () := by
  induction u with
  | nil => rfl
  | cons n u ih =>
    rw [lift?_cons_of_le n (Nat.zero_le _), ih]
    rfl

theorem lift?_self (s : Shape) : lift? s s = some id := by
  induction s with
  | nil => rfl
  | cons n s ih => exact (lift?_cons_cons_eq_some rfl).2 ⟨id, id, alignAxis?_self n, ih, rfl⟩

theorem joinLength?_comm (m n : Nat) : joinLength? m n = joinLength? n m := by
  unfold joinLength?
  grind

theorem joinReversed?_nil (s : Shape) : joinReversed? s [] = some s := by
  cases s <;> rfl

theorem joinReversed?_comm (s u : Shape) : joinReversed? s u = joinReversed? u s := by
  induction s generalizing u with
  | nil => rw [joinReversed?_nil]; rfl
  | cons m s ih => cases u with
    | nil => rfl
    | cons n u => simp only [joinReversed?, ih, joinLength?_comm m n]

theorem joinReversed?_snoc_right {a b : Shape} (n : Nat) (h : a.length ≤ b.length) :
    joinReversed? a (b ++ [n]) = (joinReversed? a b).map (· ++ [n]) := by
  induction a generalizing b with
  | nil => rfl
  | cons x a ih => cases b with
    | nil => simp at h
    | cons y b =>
      have hab : a.length ≤ b.length := by simpa using h
      simp only [List.cons_append, joinReversed?, ih hab]
      cases joinLength? x y <;> cases joinReversed? a b <;> rfl

theorem joinReversed?_snoc_snoc {a b : Shape} (m n : Nat) (h : a.length = b.length) :
    joinReversed? (a ++ [m]) (b ++ [n]) =
      (joinReversed? a b).bind fun r => (joinLength? m n).map fun k => r ++ [k] := by
  induction a generalizing b with
  | nil =>
    obtain rfl : b = [] := List.length_eq_zero_iff.1 h.symm
    simp only [List.nil_append, joinReversed?]
    cases joinLength? m n <;> rfl
  | cons x a ih => cases b with
    | nil => simp at h
    | cons y b =>
      have hab : a.length = b.length := by simpa using h
      simp only [List.cons_append, joinReversed?, ih hab]
      cases joinLength? x y <;> cases joinReversed? a b <;> cases joinLength? m n <;> rfl

theorem join?_comm (s u : Shape) : join? s u = join? u s := by
  simp only [join?, joinReversed?_comm s.reverse]

theorem join?_cons_right {s u : Shape} (n : Nat) (h : s.length ≤ u.length) :
    join? s (n :: u) = (join? s u).map (n :: ·) := by
  have hr : s.reverse.length ≤ u.reverse.length := by simpa using h
  simp only [join?, List.reverse_cons, joinReversed?_snoc_right n hr, Option.map_map]
  congr 1
  funext w
  simp

theorem join?_cons_cons {s u : Shape} (m n : Nat) (h : s.length = u.length) :
    join? (m :: s) (n :: u) =
      (join? s u).bind fun w => (joinLength? m n).map fun k => k :: w := by
  have hr : s.reverse.length = u.reverse.length := by simpa using h
  simp only [join?, List.reverse_cons, joinReversed?_snoc_snoc m n hr]
  cases joinReversed? s.reverse u.reverse <;> cases joinLength? m n <;> simp

/-- Two axes read from a third have a join through which both are read. -/
theorem joinLength?_of_alignAxis? {m m' n : Nat} {a : Fin n → Fin m} {b : Fin n → Fin m'}
    (ha : alignAxis? m n = some a) (hb : alignAxis? m' n = some b) :
    ∃ k p q r, joinLength? m m' = some k ∧ alignAxis? m k = some p ∧ alignAxis? m' k = some q ∧
      alignAxis? k n = some r ∧ a = p ∘ r ∧ b = q ∘ r := by
  by_cases h : m = m'
  · subst h
    obtain rfl : a = b := Option.some_injective _ (ha.symm.trans hb)
    exact ⟨m, id, id, a, by simp [joinLength?], alignAxis?_self m, alignAxis?_self m, ha, rfl, rfl⟩
  · by_cases hm : m = 1
    · subst hm
      refine ⟨m', fun _ => 0, id, b, by simp [joinLength?], ?_, alignAxis?_self m', hb, ?_, rfl⟩
      · simp only [alignAxis?, Ne.symm h, dif_pos, dif_neg, not_false_eq_true]
        rfl
      · exact Subsingleton.elim _ _
    · have hn : n = m := by
        by_contra hn
        simp [alignAxis?, hn, hm] at ha
      subst hn
      have hm' : m' = 1 := by
        by_contra hm'
        simp [alignAxis?, h, hm'] at hb
      subst hm'
      obtain rfl : a = id := Option.some_injective _ (ha.symm.trans (alignAxis?_self n))
      refine ⟨n, id, b, id, ?_, alignAxis?_self n, hb, alignAxis?_self n, rfl, rfl⟩
      simp [joinLength?, hm]

/-- Two repetitions over one shape that both read through a join of the repeated shapes. -/
def ReadsThroughJoin {s s' u : Shape} (f : Index u → Index s) (g : Index u → Index s') : Prop :=
  ∃ w p q r, join? s s' = some w ∧ lift? s w = some p ∧ lift? s' w = some q ∧
    lift? w u = some r ∧ f = p ∘ r ∧ g = q ∘ r

namespace ReadsThroughJoin

variable {s s' u : Shape} {f : Index u → Index s} {g : Index u → Index s'}

theorem symm (h : ReadsThroughJoin f g) : ReadsThroughJoin g f := by
  obtain ⟨w, p, q, r, hw, hp, hq, hr, hf, hg⟩ := h
  exact ⟨w, q, p, r, (join?_comm s' s).trans hw, hq, hp, hr, hg, hf⟩

theorem skip (n : Nat) (h : ReadsThroughJoin f g) :
    ReadsThroughJoin (fun i : Index (n :: u) => f i.tail) fun i : Index (n :: u) => g i.tail := by
  obtain ⟨w, p, q, r, hw, hp, hq, hr, rfl, rfl⟩ := h
  refine ⟨w, p, q, fun i => r i.tail, hw, hp, hq, ?_, rfl, rfl⟩
  rw [lift?_cons_of_le n (lift?_length hr), hr]
  rfl

theorem consRight {m n : Nat} {b : Fin n → Fin m} (hb : alignAxis? m n = some b)
    (hl : s'.length = u.length) (h : ReadsThroughJoin f g) :
    ReadsThroughJoin (fun i : Index (n :: u) => f i.tail)
      fun i : Index (n :: u) => Index.cons (b i.head) (g i.tail) := by
  obtain ⟨w, p, q, r, hw, hp, hq, hr, rfl, rfl⟩ := h
  have hpw := lift?_length hp
  have hqw := lift?_length hq
  have hrw := lift?_length hr
  refine ⟨m :: w, fun i => p i.tail, fun i => Index.cons i.head (q i.tail),
    fun i => Index.cons (b i.head) (r i.tail), ?_, ?_, ?_, ?_, rfl, rfl⟩
  · rw [join?_cons_right m (by omega), hw]
    rfl
  · rw [lift?_cons_of_le m hpw, hp]
    rfl
  · exact (lift?_cons_cons_eq_some (by omega)).2 ⟨id, q, alignAxis?_self m, hq, rfl⟩
  · exact (lift?_cons_cons_eq_some (by omega)).2 ⟨b, r, hb, hr, rfl⟩

theorem consBoth {m m' n : Nat} {a : Fin n → Fin m} {b : Fin n → Fin m'}
    (ha : alignAxis? m n = some a) (hb : alignAxis? m' n = some b)
    (hl : s.length = u.length) (hl' : s'.length = u.length) (h : ReadsThroughJoin f g) :
    ReadsThroughJoin (fun i : Index (n :: u) => Index.cons (a i.head) (f i.tail))
      fun i : Index (n :: u) => Index.cons (b i.head) (g i.tail) := by
  obtain ⟨w, p, q, r, hw, hp, hq, hr, rfl, rfl⟩ := h
  obtain ⟨k, p₀, q₀, r₀, hk, hp₀, hq₀, hr₀, rfl, rfl⟩ := joinLength?_of_alignAxis? ha hb
  have hpw := lift?_length hp
  have hrw := lift?_length hr
  refine ⟨k :: w, fun i => Index.cons (p₀ i.head) (p i.tail),
    fun i => Index.cons (q₀ i.head) (q i.tail),
    fun i => Index.cons (r₀ i.head) (r i.tail), ?_, ?_, ?_, ?_, rfl, rfl⟩
  · simp [join?_cons_cons m m' (hl.trans hl'.symm), hw, hk]
  · exact (lift?_cons_cons_eq_some (by omega)).2 ⟨p₀, p, hp₀, hp, rfl⟩
  · exact (lift?_cons_cons_eq_some (by omega)).2 ⟨q₀, q, hq₀, hq, rfl⟩
  · exact (lift?_cons_cons_eq_some (by omega)).2 ⟨r₀, r, hr₀, hr, rfl⟩

end ReadsThroughJoin

/-- A repetition over a longer shape skips the first axis or reads it. -/
theorem lift?_cons_cases {s u : Shape} {n : Nat} {f : Index (n :: u) → Index s}
    (h : lift? s (n :: u) = some f) :
    (∃ g, lift? s u = some g ∧ f = fun i => g i.tail) ∨
      ∃ m s₁ a g, ∃ e : s = m :: s₁, s₁.length = u.length ∧ alignAxis? m n = some a ∧
        lift? s₁ u = some g ∧ e ▸ f = fun i => Index.cons (a i.head) (g i.tail) := by
  have hs := lift?_length h
  by_cases hl : s.length ≤ u.length
  · rw [lift?_cons_of_le n hl] at h
    obtain ⟨g, hg, rfl⟩ := Option.map_eq_some_iff.1 h
    exact .inl ⟨g, hg, rfl⟩
  · obtain ⟨m, s₁, rfl⟩ := List.exists_cons_of_length_pos (show 0 < s.length by omega)
    have hl₁ : s₁.length = u.length := by simp only [List.length_cons] at hl hs; omega
    obtain ⟨a, g, ha, hg, rfl⟩ := (lift?_cons_cons_eq_some hl₁).1 h
    exact .inr ⟨m, s₁, a, g, rfl, hl₁, ha, hg, rfl⟩

/-- Two shapes that are repeated over a third have a join, over which both are repeated, and which
is repeated over the third; reading through the join is reading directly. -/
theorem readsThroughJoin {s s' u : Shape} {f : Index u → Index s} {g : Index u → Index s'}
    (hf : lift? s u = some f) (hg : lift? s' u = some g) : ReadsThroughJoin f g := by
  induction u generalizing s s' with
  | nil =>
    obtain rfl : s = [] := List.length_eq_zero_iff.1 (align?_length hf)
    obtain rfl : s' = [] := List.length_eq_zero_iff.1 (align?_length hg)
    exact ⟨[], id, id, id, rfl, rfl, rfl, rfl, rfl, rfl⟩
  | cons n u ih =>
    rcases lift?_cons_cases hf with ⟨f, hf₁, rfl⟩ | ⟨m, s, a, f, rfl, hl, ha, hf₁, rfl⟩ <;>
      rcases lift?_cons_cases hg with ⟨g, hg₁, rfl⟩ | ⟨m', s', b, g, rfl, hl', hb, hg₁, rfl⟩
    · exact (ih hf₁ hg₁).skip n
    · exact (ih hf₁ hg₁).consRight hb hl'
    · exact ((ih hf₁ hg₁).symm.consRight ha hl).symm
    · exact (ih hf₁ hg₁).consBoth ha hb hl hl'

theorem alignAxis?_surjective {m n : Nat} {a : Fin n → Fin m} (ha : alignAxis? m n = some a)
    (k : Fin n) : Function.Surjective a := by
  by_cases h : n = m
  · subst h
    obtain rfl : a = id := Option.some_injective _ (ha.symm.trans (alignAxis?_self n))
    exact Function.surjective_id
  · have hm : m = 1 := by
      by_contra hm
      simp [alignAxis?, h, hm] at ha
    subst hm
    exact fun x => ⟨k, Subsingleton.elim _ _⟩

/-- A repetition over a shape that has an index reads every index of the repeated shape. -/
theorem lift?_surjective {s u : Shape} {f : Index u → Index s} (hf : lift? s u = some f)
    (i₀ : Index u) : Function.Surjective f := by
  induction u generalizing s with
  | nil =>
    obtain rfl : s = [] := List.length_eq_zero_iff.1 (align?_length hf)
    exact fun j => ⟨(), rfl⟩
  | cons n u ih =>
    rcases lift?_cons_cases hf with ⟨f, hf₁, rfl⟩ | ⟨m, s, a, f, rfl, -, ha, hf₁, rfl⟩
    · intro j
      obtain ⟨i, rfl⟩ := ih hf₁ i₀.tail j
      exact ⟨Index.cons i₀.head i, rfl⟩
    · intro j
      obtain ⟨k, hk⟩ := alignAxis?_surjective ha i₀.head j.head
      obtain ⟨i, hi⟩ := ih hf₁ i₀.tail j.tail
      exact ⟨Index.cons k i, Index.ext_cons hk hi⟩

end Shape

end Catchment
