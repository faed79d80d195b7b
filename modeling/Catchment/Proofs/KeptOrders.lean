import Catchment.Proofs.LeastOrders

/-!
# Orders that are kept

Checking and sorting agree. Placing goes through the positions from the first to the last exactly if
every item stands after the producers of what it reads, so a list passes the check exactly if sorting
leaves every item where it stands. What sorting returns passes the check, and sorting it again changes
nothing.
-/
namespace Catchment

namespace Item

variable {items : List Item} {kind : String}

/-- Where every item stands after its producers, the first position that is not placed is ready. -/
theorem ready?_range (h : ∀ j, ∀ k ∈ needs items j, k < j) {placed : Nat}
    (hplaced : placed < items.length) : ready? items (List.range placed) = some placed := by
  refine List.find?_range_eq_some.2 ⟨?_, List.mem_range.2 hplaced, fun j hj => ?_⟩
  · have hneeds : (needs items placed).all (List.range placed).contains = true :=
      List.all_eq_true.2 fun k hk => by simpa using h placed k hk
    simp [hneeds]
  · simp [hj]

theorem place_range (h : ∀ j, ∀ k ∈ needs items j, k < j) {fuel placed : Nat}
    (hfuel : placed + fuel ≤ items.length) :
    place items fuel (List.range placed) = List.range (placed + fuel) := by
  induction fuel generalizing placed with
  | zero => rfl
  | succ fuel ih =>
    rw [place, ready?_range h (by omega)]
    dsimp only
    rw [← List.range_succ, ih (by omega), Nat.succ_add_eq_add_succ]

theorem resolve_of_inOrder (kind : String) (h : InOrder items) :
    resolve kind items = .ok (List.range items.length) := by
  have hneeds := (inOrder_iff h.once).1 h
  have hrank : ∀ j, ∀ k ∈ needs items j, id k < id j := hneeds
  obtain ⟨order, horder⟩ := resolve_exists kind h.once hrank
  have hplace : place items items.length (List.range 0) = List.range (0 + items.length) :=
    place_range hneeds (by omega)
  rw [List.range_zero, Nat.zero_add] at hplace
  rw [horder, ← place_of_resolve horder, hplace]

theorem resolve_eq_range_iff :
    resolve kind items = .ok (List.range items.length) ↔ InOrder items := by
  refine ⟨fun h => ?_, resolve_of_inOrder kind⟩
  obtain ⟨once, hplaced, -⟩ := resolve_eq_ok h
  have hitems : (List.range items.length).filterMap (items[·]?) = items :=
    filterMap_getElem?_range items
  have hinOrder := hplaced.inOrder once (.of_eq hitems)
  rwa [hitems] at hinOrder

end Item

variable {α : Type} {kind : String} {item : α → Item} {xs ys : List α}

theorem inOrder_of_sortItems (h : sortItems kind item xs = .ok ys) :
    Item.InOrder (ys.map item) := by
  have horder : orderItems true kind item xs = .ok ys := h
  exact (orderItems_eq_ok horder).2

theorem sortItems_of_inOrder (h : Item.InOrder (xs.map item)) :
    sortItems kind item xs = .ok xs := by
  have hall := filterMap_getElem?_range xs
  rw [sortItems, Item.resolve_of_inOrder kind h, ok_bind, List.length_map, hall, pure_eq_ok]

/-- Things pass the check exactly if sorting succeeds and leaves each of them where it stands, so
that the list is returned unchanged. What sorting returns passes the check and is kept when it is
sorted again. -/
structure ChecksAsItSorts (kind : String) (item : α → Item) (xs : List α) : Prop where
  unmoved : Item.checkOrder kind (xs.map item) = .ok () ↔
    Item.resolve kind (xs.map item) = .ok (List.range xs.length)
  unchanged : Item.checkOrder kind (xs.map item) = .ok () ↔ sortItems kind item xs = .ok xs
  accepted : ∀ ys, sortItems kind item xs = .ok ys → Item.checkOrder kind (ys.map item) = .ok ()
  idempotent : ∀ ys, sortItems kind item xs = .ok ys → sortItems kind item ys = .ok ys

theorem checksAsItSorts (kind : String) (item : α → Item) (xs : List α) :
    ChecksAsItSorts kind item xs where
  unmoved := by
    have hrange : Item.resolve kind (xs.map item) = .ok (List.range (xs.map item).length) ↔
        Item.InOrder (xs.map item) := Item.resolve_eq_range_iff
    rw [List.length_map] at hrange
    rw [Item.checkOrder_eq_ok, hrange]
  unchanged := by
    rw [Item.checkOrder_eq_ok]
    exact ⟨sortItems_of_inOrder, inOrder_of_sortItems⟩
  accepted _ h := Item.checkOrder_eq_ok.2 (inOrder_of_sortItems h)
  idempotent _ h := sortItems_of_inOrder (inOrder_of_sortItems h)

/-- A reader of its own product is neither accepted nor sorted. -/
example : Item.checkOrder "flux" [⟨"loop", ["a"], ["a"]⟩] ≠ .ok () ∧
    Item.resolve "flux" [⟨"loop", ["a"], ["a"]⟩] ≠ .ok [0] := by
  decide

/-- The check of declarations and of components agrees with sorting them. -/
theorem checking_agrees_with_sorting {K : Type} [Scalar K] (fluxes : List (Declaration K))
    (parts : List (Component K)) :
    ChecksAsItSorts "flux" Declaration.item fluxes ∧
      ChecksAsItSorts "component" (fun c => c.signature.item) parts :=
  ⟨checksAsItSorts _ _ _, checksAsItSorts _ _ _⟩

end Catchment
