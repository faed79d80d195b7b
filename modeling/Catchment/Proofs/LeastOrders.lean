import Mathlib.Order.Bounds.Basic
import Mathlib.Data.List.Lex
import Catchment.Component
import Catchment.Proofs.DependencyOrders

/-!
# Least orders

Items can be ordered when nothing is produced twice, nothing reads its own product, and following
products to their readers never leads back. Sorting then returns the arrangement that is
lexicographically least by the original positions: at every place the first position whose
producers all come before stands, and any other arrangement has a later position where it first
differs. Otherwise sorting fails with a misconfiguration.
-/
namespace Catchment

namespace Item

/-- The item at one position produces something that the item at another one reads. -/
def Feeds (items : List Item) (i j : Nat) : Prop :=
  ∃ a b, items[i]? = some a ∧ items[j]? = some b ∧ ∃ v ∈ b.reads, v ∈ a.produces

/-- Nothing is produced twice, nothing reads its own product, and there is no cycle from products to
their readers. -/
structure Orderable (items : List Item) : Prop where
  once : (items.flatMap produces).Nodup
  own : ∀ a ∈ items, ∀ v ∈ a.reads, v ∉ a.produces
  acyclic : ∀ i, ¬ Relation.TransGen (Feeds items) i i

/-- An order of the positions in which whatever produces what an item reads comes strictly before
that item. -/
structure Arranges (items : List Item) (order : List Nat) : Prop where
  perm : order.Perm (List.range items.length)
  before : ∀ i j, Feeds items i j → order.idxOf i < order.idxOf j

variable {items : List Item} {kind : String}

theorem feeds_of_mem_needs {i j : Nat} (h : i ∈ needs items j) : Feeds items i j := by
  obtain ⟨b, v, hb, hv, hp⟩ := mem_needs.1 h
  obtain ⟨a, ha, hva⟩ := getElem?_of_producer? hp
  exact ⟨a, b, ha, hb, v, hv, hva⟩

theorem mem_needs_of_feeds (once : (items.flatMap produces).Nodup) {i j : Nat}
    (h : Feeds items i j) : i ∈ needs items j := by
  obtain ⟨a, b, ha, hb, v, hv, hva⟩ := h
  exact mem_needs.2 ⟨b, v, hb, hv, producer?_eq_some once ha hva⟩

theorem Feeds.lt_length {i j : Nat} (h : Feeds items i j) :
    i < items.length ∧ j < items.length := by
  obtain ⟨a, b, ha, hb, -⟩ := h
  have hi := (List.getElem?_eq_some_iff.1 ha).1
  have hj := (List.getElem?_eq_some_iff.1 hb).1
  exact ⟨hi, hj⟩

theorem Placed.idxOf_lt {placed : List Nat} (h : Placed items placed) {j k : Nat}
    (hj : j ∈ placed) (hk : k ∈ needs items j) : placed.idxOf k < placed.idxOf j := by
  induction h with
  | nil => simp at hj
  | @snoc placed i before lt new ready ih =>
    by_cases hmem : j ∈ placed
    · have hmem' := before.needs_mem j hmem k hk
      rw [List.idxOf_append_of_mem hmem, List.idxOf_append_of_mem hmem']
      exact ih hmem
    · obtain rfl : j = i := by simpa [hmem] using hj
      have hmem' := ready k hk
      rw [List.idxOf_append_of_mem hmem', List.idxOf_append_of_notMem hmem]
      have := List.idxOf_lt_length_of_mem hmem'
      omega

theorem Placed.arranges {order : List Nat} (h : Placed items order)
    (once : (items.flatMap produces).Nodup) (perm : order.Perm (List.range items.length)) :
    Arranges items order := by
  refine ⟨perm, fun i j hfeeds => ?_⟩
  have hj : j ∈ order := perm.mem_iff.2 (List.mem_range.2 hfeeds.lt_length.2)
  exact h.idxOf_lt hj (mem_needs_of_feeds once hfeeds)

/-- What stands next in an arrangement is not placed before, and all that it needs is. -/
theorem Arranges.next {placed rest : List Nat} {i : Nat}
    (h : Arranges items (placed ++ i :: rest)) :
    i ∉ placed ∧ ∀ k ∈ needs items i, k ∈ placed := by
  have hnodup : (placed ++ i :: rest).Nodup := h.perm.nodup_iff.2 List.nodup_range
  have hnew : i ∉ placed := fun hi =>
    (List.nodup_append.1 hnodup).2.2 i hi i List.mem_cons_self rfl
  refine ⟨hnew, fun k hk => ?_⟩
  by_contra hknew
  have hbefore := h.before k i (feeds_of_mem_needs hk)
  rw [List.idxOf_append_of_notMem hknew, List.idxOf_append_of_notMem hnew] at hbefore
  simp at hbefore

/-- Nothing that could be placed comes before what is ready first. -/
theorem ready?_le {placed : List Nat} {i j : Nat} (h : ready? items placed = some j)
    (hnew : i ∉ placed) (hready : ∀ k ∈ needs items i, k ∈ placed) : j ≤ i := by
  by_contra hlt
  obtain ⟨-, -, hsmaller⟩ := List.find?_range_eq_some.1 h
  have hrefused := hsmaller i (by omega)
  simp only [Bool.not_eq_true', Bool.and_eq_false_iff, Bool.not_eq_false',
    List.contains_iff_mem, List.all_eq_false] at hrefused
  rcases hrefused with hmem | ⟨k, hk, hkmem⟩
  · exact hnew hmem
  · exact hkmem (hready k hk)

theorem place_extends (items : List Item) (fuel : Nat) (placed : List Nat) :
    ∃ rest, place items fuel placed = placed ++ rest := by
  induction fuel generalizing placed with
  | zero => exact ⟨[], by simp [place]⟩
  | succ fuel ih =>
    rw [place]
    cases ready? items placed with
    | none => exact ⟨[], by simp⟩
    | some j =>
      obtain ⟨rest, hrest⟩ := ih (placed ++ [j])
      exact ⟨j :: rest, by simp [hrest]⟩

theorem le_append (xs ys : List Nat) : xs ≤ xs ++ ys := by
  rcases List.lex_nil_or_eq_nil (r := (· < ·)) ys with hlt | rfl
  · have h := List.Lex.append_left (· < ·) hlt xs
    rw [List.append_nil] at h
    exact le_of_lt h
  · rw [List.append_nil]

/-- Whatever is placed next, placing goes on at least as low as an arrangement that starts with
what is placed already. -/
theorem place_le {placed rest : List Nat} (h : Arranges items (placed ++ rest)) (fuel : Nat) :
    place items fuel placed ≤ placed ++ rest := by
  induction fuel generalizing placed rest with
  | zero => exact le_append placed rest
  | succ fuel ih =>
    rw [place]
    cases hr : ready? items placed with
    | none => exact le_append placed rest
    | some j =>
      obtain ⟨hlt, hnew, -⟩ := ready?_eq_some hr
      cases rest with
      | nil =>
        have hmem := h.perm.mem_iff.2 (List.mem_range.2 hlt)
        simp [hnew] at hmem
      | cons i rest =>
        have hsplit : placed ++ i :: rest = placed ++ [i] ++ rest := by simp
        obtain ⟨hinew, hiready⟩ := h.next
        rcases Nat.lt_or_eq_of_le (ready?_le hr hinew hiready) with hji | rfl
        · obtain ⟨more, hmore⟩ := place_extends items fuel (placed ++ [j])
          dsimp only
          rw [hmore, List.append_assoc]
          exact le_of_lt (List.Lex.append_left (· < ·) (.rel hji) placed)
        · dsimp only
          rw [hsplit] at h ⊢
          exact ih h

theorem Arranges.idxOf_lt_of_transGen {order : List Nat} (h : Arranges items order) {i j : Nat}
    (hpath : Relation.TransGen (Feeds items) i j) : order.idxOf i < order.idxOf j := by
  induction hpath with
  | single hfeeds => exact h.before _ _ hfeeds
  | tail _ hfeeds ih => exact ih.trans (h.before _ _ hfeeds)

theorem Arranges.orderable {order : List Nat} (h : Arranges items order)
    (once : (items.flatMap produces).Nodup) : Orderable items := by
  refine ⟨once, fun a ha v hv hva => ?_, fun i hpath => ?_⟩
  · obtain ⟨i, hi⟩ := List.getElem?_of_mem ha
    exact Nat.lt_irrefl _ (h.before i i ⟨a, a, hi, hi, v, hv, hva⟩)
  · exact Nat.lt_irrefl _ (h.idxOf_lt_of_transGen hpath)

theorem place_of_resolve {order : List Nat} (h : resolve kind items = .ok order) :
    place items items.length [] = order := by
  rw [resolve_eq] at h
  split at h
  · simp [misconfigured] at h
  · simp [misconfigured] at h
  · dsimp only at h
    split at h
    · simp [misconfigured] at h
    · exact Except.ok.inj h

theorem resolve_least {order : List Nat} (h : resolve kind items = .ok order) :
    Orderable items ∧ IsLeast {o | Arranges items o} order := by
  obtain ⟨once, hplaced, hperm⟩ := resolve_eq_ok h
  have harranges := hplaced.arranges once hperm
  refine ⟨harranges.orderable once, harranges, fun other hother => ?_⟩
  have hother : Arranges items ([] ++ other) := hother
  have hle := place_le hother items.length
  rwa [place_of_resolve h] at hle

theorem resolve_exists_iff (kind : String) :
    (∃ order, resolve kind items = .ok order) ↔ Orderable items := by
  constructor
  · rintro ⟨order, h⟩
    exact (resolve_least h).1
  · intro h
    obtain ⟨rank, -, hrank⟩ := exists_rank_of_acyclic (Finset.range items.length)
      (fun _ _ hfeeds => Finset.mem_range.2 hfeeds.lt_length.1) h.acyclic
    exact resolve_exists kind h.once fun j k hk => hrank k j (feeds_of_mem_needs hk)

theorem resolve_error {e : Fault} (h : resolve kind items = .error e) :
    ∃ cause, e = .configuration cause := by
  rw [resolve_eq] at h
  split at h
  · exact ⟨_, (Except.error.inj h).symm⟩
  · exact ⟨_, (Except.error.inj h).symm⟩
  · dsimp only at h
    split at h
    · exact ⟨_, (Except.error.inj h).symm⟩
    · exact nomatch h

end Item

variable {α : Type} {kind : String} {item : α → Item} {xs : List α}

/-- Sorting succeeds on exactly the things that can be ordered. It returns them in the least of all
arrangements, and otherwise it fails with a misconfiguration. -/
structure SortsCanonically (kind : String) (item : α → Item) (xs : List α) : Prop where
  succeeds : (∃ ys, sortItems kind item xs = .ok ys) ↔ Item.Orderable (xs.map item)
  least : ∀ ys, sortItems kind item xs = .ok ys → ∃ order,
    IsLeast {o | Item.Arranges (xs.map item) o} order ∧ ys.map some = order.map (xs[·]?)
  refuses : ∀ e, sortItems kind item xs = .error e → ∃ cause, e = .configuration cause

theorem map_some_filterMap {β : Type} {f : α → Option β} {xs : List α}
    (h : ∀ x ∈ xs, (f x).isSome) : (xs.filterMap f).map some = xs.map f := by
  induction xs with
  | nil => rfl
  | cons x xs ih =>
    obtain ⟨y, hy⟩ := Option.isSome_iff_exists.1 (h x List.mem_cons_self)
    have ih := ih fun z hz => h z (List.mem_cons_of_mem x hz)
    simp [hy, ih]

theorem sortsCanonically (kind : String) (item : α → Item) (xs : List α) :
    SortsCanonically kind item xs := by
  refine ⟨?_, fun ys h => ?_, fun e h => ?_⟩
  · rw [← Item.resolve_exists_iff kind]
    constructor
    · rintro ⟨ys, h⟩
      obtain ⟨order, horder, -⟩ := bind_eq_ok.1 h
      exact ⟨order, horder⟩
    · rintro ⟨order, horder⟩
      exact ⟨_, bind_eq_ok.2 ⟨order, horder, rfl⟩⟩
  · obtain ⟨order, horder, h⟩ := bind_eq_ok.1 h
    obtain rfl := Except.ok.inj h
    obtain ⟨-, hleast⟩ := Item.resolve_least horder
    refine ⟨order, hleast, map_some_filterMap fun i hi => ?_⟩
    have hlt := List.mem_range.1 (hleast.1.perm.mem_iff.1 hi)
    rw [List.length_map] at hlt
    simp [hlt]
  · unfold sortItems at h
    cases horder : Item.resolve kind (xs.map item) with
    | error e' =>
      rw [horder, error_bind] at h
      exact Except.error.inj h ▸ Item.resolve_error horder
    | ok order => simp [horder] at h

/-- The reader of `b` waits for its producer; of what is ready, the first position goes first. -/
example : sortItems "flux" id [⟨"use", ["b"], ["c"]⟩, ⟨"other", [], ["a"]⟩, ⟨"make", [], ["b"]⟩] =
    .ok [⟨"other", [], ["a"]⟩, ⟨"make", [], ["b"]⟩, ⟨"use", ["b"], ["c"]⟩] := by
  rfl

/-- Declarations and components are sorted canonically by what they read and produce. -/
theorem sorting_is_canonical {K : Type} [Scalar K] (fluxes : List (Declaration K))
    (parts : List (Component K)) :
    SortsCanonically "flux" Declaration.item fluxes ∧
      SortsCanonically "component" (fun c => c.signature.item) parts :=
  ⟨sortsCanonically _ _ _, sortsCanonically _ _ _⟩

end Catchment
