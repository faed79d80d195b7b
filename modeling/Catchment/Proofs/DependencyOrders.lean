import Catchment.Proofs.CountedSorts

/-!
# Dependency orders

A list of items is in order when nothing is produced twice and no item reads what it produces itself
or what a later item produces. Whatever the ordering of items returns is a rearrangement of them
that is in order. Sorting succeeds whenever some rearrangement is in order: as long as an item is
not placed, one whose producers are all placed can be found.
-/
namespace Catchment

/-- No key occurs before its place exactly if all keys differ. -/
theorem find?_zipIdx_eq_none {α β : Type} [BEq β] [LawfulBEq β] (key : α → β) {xs : List α} :
    (xs.zipIdx.find? fun q => ((xs.take q.2).map key).contains (key q.1)) = none ↔
      (xs.map key).Nodup := by
  rw [List.find?_eq_none, List.Nodup, List.pairwise_map, List.pairwise_iff_getElem]
  constructor
  · intro h i j hi hj hij heq
    refine h (xs[j], j) (List.mk_mem_zipIdx_iff_getElem?.2 (List.getElem?_eq_getElem hj)) ?_
    simp only [List.contains_iff_mem, List.mem_map]
    have hi' : i < (xs.take j).length := by simp only [List.length_take]; omega
    exact ⟨xs[i], List.mem_iff_getElem.2 ⟨i, hi', List.getElem_take⟩, heq⟩
  · rintro h ⟨x, j⟩ hq hmem
    obtain ⟨hj, rfl⟩ := List.getElem?_eq_some_iff.1 (List.mk_mem_zipIdx_iff_getElem?.1 hq)
    simp only [List.contains_iff_mem, List.mem_map] at hmem
    obtain ⟨y, hy, heq⟩ := hmem
    obtain ⟨i, hi, rfl⟩ := List.mem_iff_getElem.1 hy
    simp only [List.length_take] at hi
    rw [List.getElem_take] at heq
    exact h i j (by omega) hj (by omega) heq

theorem repeated?_eq_none {names : List String} : repeated? names = none ↔ names.Nodup := by
  have h : (names.zipIdx.find? fun q => ((names.take q.2).map id).contains (id q.1)) = none ↔
      (names.map id).Nodup := find?_zipIdx_eq_none id
  simp only [List.map_id, id] at h
  rw [repeated?, Option.map_eq_none_iff, h]

/-- Where no path returns to its start, members of a finite set have ranks that grow along the
relation: how many members lead to each. -/
theorem exists_rank_of_acyclic {α : Type} {r : α → α → Prop} (s : Finset α)
    (hs : ∀ i j, r i j → i ∈ s) (acyclic : ∀ i, ¬ Relation.TransGen r i i) :
    ∃ rank : α → Nat, (∀ i ∈ s, rank i < s.card) ∧ ∀ i j, r i j → rank i < rank j := by
  classical
  let before (j : α) : Finset α := s.filter fun i => Relation.TransGen r i j
  have hnew (i : α) : i ∉ before i := fun hi => acyclic i (Finset.mem_filter.1 hi).2
  refine ⟨fun j => (before j).card, fun i hi => Finset.card_lt_card ?_,
    fun i j hij => Finset.card_lt_card ?_⟩
  · exact (Finset.ssubset_iff_of_subset (Finset.filter_subset _ s)).2 ⟨i, hi, hnew i⟩
  · refine (Finset.ssubset_iff_of_subset fun k hk => ?_).2 ⟨i, ?_, hnew i⟩
    · obtain ⟨hmem, hpath⟩ := Finset.mem_filter.1 hk
      exact Finset.mem_filter.2 ⟨hmem, hpath.tail hij⟩
    · exact Finset.mem_filter.2 ⟨hs i j hij, .single hij⟩

namespace Item

/-- Nothing is produced twice, and no item reads what it or a later item produces. -/
structure InOrder (items : List Item) : Prop where
  once : (items.flatMap Item.produces).Nodup
  own : ∀ a ∈ items, ∀ v ∈ a.reads, v ∉ a.produces
  later : items.Pairwise fun a b => ∀ v ∈ a.reads, v ∉ b.produces

theorem InOrder.lt {items : List Item} (h : InOrder items) {i j : Nat} {a b : Item} {v : String}
    (ha : items[j]? = some a) (hv : v ∈ a.reads) (hb : items[i]? = some b)
    (hp : v ∈ b.produces) : i < j := by
  obtain ⟨hj, rfl⟩ := List.getElem?_eq_some_iff.1 ha
  obtain ⟨hi, rfl⟩ := List.getElem?_eq_some_iff.1 hb
  by_contra hij
  rcases Nat.lt_or_eq_of_le (Nat.le_of_not_lt hij) with hlt | rfl
  · exact List.pairwise_iff_getElem.1 h.later j i hj hi hlt v hv hp
  · exact h.own _ (List.getElem_mem hi) v hv hp

theorem InOrder.of_lt {items : List Item} (once : (items.flatMap Item.produces).Nodup)
    (h : ∀ (i j : Nat) (a b : Item) (v : String), items[j]? = some a → v ∈ a.reads →
      items[i]? = some b → v ∈ b.produces → i < j) : InOrder items := by
  refine ⟨once, fun a ha v hv hp => ?_, ?_⟩
  · obtain ⟨i, hi, rfl⟩ := List.mem_iff_getElem.1 ha
    have hget := List.getElem?_eq_getElem hi
    exact Nat.lt_irrefl i (h i i _ _ v hget hv hget hp)
  · refine List.pairwise_iff_getElem.2 fun j i hj hi hlt v hv hp => ?_
    have := h i j _ _ v (List.getElem?_eq_getElem hj) hv (List.getElem?_eq_getElem hi) hp
    omega

variable {items : List Item} {kind : String}

theorem products_map_fst (items : List Item) :
    (products items).map Prod.fst = items.flatMap Item.produces := by
  have h (p : Item × Nat) : (p.1.produces.map fun v => (v, p.2)).map Prod.fst = p.1.produces := by
    rw [List.map_map]
    exact List.map_id _
  simp only [products, List.map_flatMap, h]
  rw [← List.flatMap_map Prod.fst produces, List.zipIdx_map_fst]

theorem producedTwice?_eq_none :
    producedTwice? kind items = none ↔ (items.flatMap Item.produces).Nodup := by
  rw [producedTwice?, Option.map_eq_none_iff, find?_zipIdx_eq_none Prod.fst,
    products_map_fst]

theorem producer?_eq_some {v : String} {i : Nat} {a : Item}
    (once : (items.flatMap Item.produces).Nodup) (ha : items[i]? = some a)
    (hv : v ∈ a.produces) : producer? items v = some i := by
  obtain ⟨hi, rfl⟩ := List.getElem?_eq_some_iff.1 ha
  refine List.findIdx?_eq_some_iff_getElem.2 ⟨hi, by simpa using hv, fun j hji hp => ?_⟩
  have hdisj := List.pairwise_iff_getElem.1 (List.nodup_flatMap.1 once).2 j i (by omega) hi hji
  exact hdisj (by simpa using hp) hv

theorem inOrder_iff (once : (items.flatMap Item.produces).Nodup) :
    InOrder items ↔ ∀ j, ∀ k ∈ needs items j, k < j := by
  constructor
  · intro h j k hk
    obtain ⟨a, v, ha, hv, hp⟩ := mem_needs.1 hk
    obtain ⟨b, hb, hvb⟩ := getElem?_of_producer? hp
    exact h.lt ha hv hb hvb
  · intro h
    refine .of_lt once fun i j a b v ha hv hb hvb => ?_
    exact h j i (mem_needs.2 ⟨a, v, ha, hv, producer?_eq_some once hb hvb⟩)

theorem readBeforeProduced?_eq_none :
    readBeforeProduced? kind items = none ↔ ∀ j, ∀ k ∈ needs items j, k < j := by
  rw [readBeforeProduced?, List.findSome?_eq_none_iff]
  constructor
  · intro h j k hk
    obtain ⟨a, v, ha, hv, hp⟩ := mem_needs.1 hk
    have h := h (v, j) (mem_allReads.2 ⟨a, ha, hv⟩)
    simp only [hp] at h
    by_contra hjk
    simp [Nat.le_of_not_lt hjk] at h
  · rintro h ⟨v, j⟩ hr
    obtain ⟨a, ha, hv⟩ := mem_allReads.1 hr
    cases hp : producer? items v with
    | none => simp
    | some k =>
      have hk := h j k (mem_needs.2 ⟨a, v, ha, hv, hp⟩)
      simp [Nat.not_le_of_lt hk]

theorem checkOrder_eq_ok : checkOrder kind items = .ok () ↔ InOrder items := by
  constructor
  · intro h
    unfold checkOrder at h
    split at h
    · simp [misconfigured] at h
    · simp [misconfigured] at h
    · rename_i htwice hbefore
      exact (inOrder_iff (producedTwice?_eq_none.1 htwice)).2
        (readBeforeProduced?_eq_none.1 hbefore)
  · intro h
    rw [checkOrder, producedTwice?_eq_none.2 h.once,
      readBeforeProduced?_eq_none.2 ((inOrder_iff h.once).1 h)]

inductive Placed (items : List Item) : List Nat → Prop
  | nil : Placed items []
  | snoc {placed : List Nat} {j : Nat} (before : Placed items placed) (lt : j < items.length)
      (new : j ∉ placed) (ready : ∀ k ∈ needs items j, k ∈ placed) :
      Placed items (placed ++ [j])

namespace Placed

variable {placed : List Nat}

theorem nodup (h : Placed items placed) : placed.Nodup := by
  induction h with
  | nil => exact List.nodup_nil
  | snoc before lt new ready ih =>
    rw [← List.concat_eq_append]
    exact ih.concat new

theorem lt (h : Placed items placed) : ∀ j ∈ placed, j < items.length := by
  induction h with
  | nil => simp
  | snoc before lt new ready ih =>
    intro j hj
    rcases List.mem_append.1 hj with hj | hj
    · exact ih j hj
    · rwa [List.mem_singleton.1 hj]

theorem perm_range (h : Placed items placed) (hlen : items.length ≤ placed.length) :
    placed.Perm (List.range items.length) := by
  have hsub : placed ⊆ List.range items.length := fun j hj => List.mem_range.2 (h.lt j hj)
  exact (List.subperm_of_subset h.nodup hsub).perm_of_length_le (by simpa using hlen)

theorem needs_mem (h : Placed items placed) : ∀ j ∈ placed, ∀ k ∈ needs items j, k ∈ placed := by
  induction h with
  | nil => simp
  | snoc before lt new ready ih =>
    intro j hj k hk
    rcases List.mem_append.1 hj with hj | hj
    · exact List.mem_append_left _ (ih j hj k hk)
    · rw [List.mem_singleton.1 hj] at hk
      exact List.mem_append_left _ (ready k hk)

theorem own (h : Placed items placed) : ∀ j ∈ placed, j ∉ needs items j := by
  induction h with
  | nil => simp
  | snoc before lt new ready ih =>
    intro j hj hown
    rcases List.mem_append.1 hj with hj | hj
    · exact ih j hj hown
    · rw [List.mem_singleton.1 hj] at hown
      exact new (ready _ hown)

theorem later (h : Placed items placed) (once : (items.flatMap produces).Nodup) :
    (placed.filterMap (items[·]?)).Pairwise fun a b => ∀ v ∈ a.reads, v ∉ b.produces := by
  induction h with
  | nil => simp
  | @snoc placed j before lt new ready ih =>
    rw [List.filterMap_append, List.pairwise_append]
    refine ⟨ih, by simp [List.getElem?_eq_getElem lt], fun a ha b hb v hv hp => ?_⟩
    obtain ⟨k, hk, ha⟩ := List.mem_filterMap.1 ha
    have hb : items[j]? = some b := by simpa using hb
    -- what a placed item reads is produced by placed items, and this one is not placed yet
    have hneeds : j ∈ needs items k := mem_needs.2 ⟨a, v, ha, hv, producer?_eq_some once hb hp⟩
    exact new (before.needs_mem k hk j hneeds)

theorem inOrder (h : Placed items placed) (once : (items.flatMap produces).Nodup)
    (hperm : (placed.filterMap (items[·]?)).Perm items) :
    InOrder (placed.filterMap (items[·]?)) := by
  refine ⟨(hperm.flatMap_right produces).nodup_iff.2 once, fun a ha v hv hp => ?_, h.later once⟩
  obtain ⟨j, hj, hget⟩ := List.mem_filterMap.1 ha
  exact h.own j hj (mem_needs.2 ⟨a, v, hget, hv, producer?_eq_some once hget hp⟩)

end Placed

theorem ready?_eq_some {placed : List Nat} {j : Nat} (h : ready? items placed = some j) :
    j < items.length ∧ j ∉ placed ∧ ∀ k ∈ needs items j, k ∈ placed := by
  have hmem := List.mem_of_find?_eq_some h
  have hp := List.find?_some h
  simp only [Bool.and_eq_true, Bool.not_eq_true', List.all_eq_true] at hp
  refine ⟨List.mem_range.1 hmem, ?_, fun k hk => by simpa using hp.2 k hk⟩
  simpa using hp.1

theorem Placed.place {placed : List Nat} (h : Placed items placed) (fuel : Nat) :
    Placed items (place items fuel placed) := by
  induction fuel generalizing placed with
  | zero => exact h
  | succ fuel ih =>
    rw [Item.place]
    cases hr : ready? items placed with
    | none => exact h
    | some j =>
      obtain ⟨hlt, hnew, hready⟩ := ready?_eq_some hr
      exact ih (h.snoc hlt hnew hready)

/-- Where the needs of every position have a lower rank, a position that is not placed can be
followed to one that is ready. -/
theorem ready?_ne_none {placed : List Nat} {rank : Nat → Nat}
    (hrank : ∀ j, ∀ k ∈ needs items j, rank k < rank j) {j : Nat} (hj : j < items.length)
    (hnew : j ∉ placed) : ready? items placed ≠ none := by
  induction hn : rank j using Nat.strongRecOn generalizing j with
  | ind n ih =>
    subst hn
    by_cases hall : ∀ k ∈ needs items j, k ∈ placed
    · intro h
      have h := List.find?_eq_none.1 h j (List.mem_range.2 hj)
      simp only [Bool.and_eq_true, Bool.not_eq_true', List.all_eq_true] at h
      exact h ⟨by simpa using hnew, fun k hk => by simpa using hall k hk⟩
    · obtain ⟨k, hk⟩ := not_forall.1 hall
      obtain ⟨hk, hknew⟩ := Classical.not_imp.1 hk
      obtain ⟨a, v, -, -, hp⟩ := mem_needs.1 hk
      obtain ⟨b, hb, -⟩ := getElem?_of_producer? hp
      obtain ⟨hlt, -⟩ := List.getElem?_eq_some_iff.1 hb
      exact ih (rank k) (hrank j k hk) hlt hknew rfl

/-- With fuel for every position placing goes on until nothing is ready. -/
theorem ready?_place {placed : List Nat} (h : Placed items placed) {fuel : Nat}
    (hfuel : items.length ≤ placed.length + fuel) :
    ready? items (place items fuel placed) = none := by
  induction fuel generalizing placed with
  | zero =>
    rw [Item.place, Option.eq_none_iff_forall_ne_some]
    intro j hj
    obtain ⟨hlt, hnew, -⟩ := ready?_eq_some hj
    exact hnew ((h.perm_range hfuel).mem_iff.2 (List.mem_range.2 hlt))
  | succ fuel ih =>
    rw [Item.place]
    cases hr : ready? items placed with
    | none => exact hr
    | some i =>
      obtain ⟨hlt, hnew, hready⟩ := ready?_eq_some hr
      refine ih (h.snoc hlt hnew hready) ?_
      simp only [List.length_append, List.length_singleton]
      omega

theorem mem_place {rank : Nat → Nat} (hrank : ∀ j, ∀ k ∈ needs items j, rank k < rank j) {j : Nat}
    (hj : j < items.length) : j ∈ place items items.length [] := by
  by_contra hnew
  exact ready?_ne_none hrank hj hnew (ready?_place .nil (Nat.le_add_left ..))

/-- A sort ends with nothing ready. -/
theorem ready_run_start (items : List Item) :
    (Sorting.run (graph items) items.length (.start (graph items))).ready = [] := by
  obtain ⟨hcounts, horder⟩ := (counts_start items).run items.length
  have hnone : ready? items (place items items.length []) = none :=
    ready?_place .nil (Nat.le_add_left ..)
  rw [← List.min?_eq_none_iff, hcounts.min?, horder]
  exact hnone

/-- Sorting places by looking for the first ready position, unless some item repeats a product or
reads its own; what is left over is reported as a cycle. -/
theorem resolve_eq (kind : String) (items : List Item) : resolve kind items =
    match producedTwice? kind items, readsOwnOutput? kind items with
    | some cause, _ => misconfigured cause
    | none, some cause => misconfigured cause
    | none, none =>
      let order := place items items.length []
      if order.length < items.length then
        let members := (graph items).cycleMembers
          ((List.range items.length).filter (!order.contains ·))
        misconfigured (.cycle kind (members.map (nameAt items))
          ((graph items).variablesWithin members))
      else .ok order := by
  rw [resolve, readGraph_eq, ← order_graph]
  cases producedTwice? kind items with
  | some cause => rfl
  | none => cases readsOwnOutput? kind items with
    | some cause => rfl
    | none => rfl

theorem resolve_eq_ok {order : List Nat} (h : resolve kind items = .ok order) :
    (items.flatMap produces).Nodup ∧ Placed items order ∧
      order.Perm (List.range items.length) := by
  rw [resolve_eq] at h
  split at h
  · simp [misconfigured] at h
  · simp [misconfigured] at h
  · rename_i htwice _
    have hplaced : Placed items (place items items.length []) := Placed.nil.place _
    dsimp only at h
    split at h
    · simp [misconfigured] at h
    · rename_i hall
      obtain rfl := Except.ok.inj h
      exact ⟨producedTwice?_eq_none.1 htwice, hplaced, hplaced.perm_range (Nat.le_of_not_lt hall)⟩

theorem resolve_exists (kind : String) {rank : Nat → Nat}
    (once : (items.flatMap produces).Nodup)
    (hrank : ∀ j, ∀ k ∈ needs items j, rank k < rank j) :
    ∃ order, resolve kind items = .ok order := by
  have hown : readsOwnOutput? kind items = none :=
    readsOwnOutput?_eq_none.2 fun j hj => Nat.lt_irrefl _ (hrank j j hj)
  have hsub : List.range items.length ⊆ place items items.length [] :=
    fun j hj => mem_place hrank (List.mem_range.1 hj)
  have hall : ¬ (place items items.length []).length < items.length := by
    simpa using (List.subperm_of_subset List.nodup_range hsub).length_le
  refine ⟨place items items.length [], ?_⟩
  rw [resolve_eq, producedTwice?_eq_none.2 once, hown]
  exact if_neg hall

end Item

variable {α : Type} {kind : String} {item : α → Item}

theorem filterMap_getElem?_range (xs : List α) :
    (List.range xs.length).filterMap (xs[·]?) = xs := by
  induction xs with
  | nil => rfl
  | cons x xs ih =>
    rw [List.length_cons, List.range_succ_eq_map, List.filterMap_cons, List.filterMap_map]
    exact congrArg (x :: ·) ih

/-- Ordering things rearranges them, and what results is in order. -/
theorem orderItems_eq_ok {sort : Bool} {xs ys : List α}
    (h : orderItems sort kind item xs = .ok ys) : ys.Perm xs ∧ Item.InOrder (ys.map item) := by
  cases sort with
  | false =>
    obtain ⟨_, hcheck, h⟩ := bind_eq_ok.1 h
    obtain rfl := Except.ok.inj h
    exact ⟨.refl _, Item.checkOrder_eq_ok.1 hcheck⟩
  | true =>
    obtain ⟨order, horder, h⟩ := bind_eq_ok.1 h
    obtain rfl := Except.ok.inj h
    obtain ⟨once, hplaced, hperm⟩ := Item.resolve_eq_ok horder
    have hitems : (order.filterMap (xs[·]?)).map item = order.filterMap ((xs.map item)[·]?) := by
      rw [List.map_filterMap]
      exact List.filterMap_congr fun i _ => (List.getElem?_map).symm
    have hall (zs : List Item) (hz : zs.length = (xs.map item).length) :
        (order.filterMap (zs[·]?)).Perm zs := by
      have h := hperm.filterMap (zs[·]?)
      rwa [← hz, filterMap_getElem?_range] at h
    refine ⟨?_, hitems ▸ hplaced.inOrder once (hall _ rfl)⟩
    have h := hperm.filterMap (xs[·]?)
    rwa [List.length_map, filterMap_getElem?_range] at h

/-- Sorting succeeds if some rearrangement is in order. -/
theorem sortItems_exists (kind : String) {xs ys : List α} (hperm : ys.Perm xs)
    (h : Item.InOrder (ys.map item)) : ∃ zs, orderItems true kind item xs = .ok zs := by
  have hitems : (ys.map item).Perm (xs.map item) := hperm.map item
  have once : ((xs.map item).flatMap Item.produces).Nodup :=
    (hitems.flatMap_right Item.produces).nodup_iff.1 h.once
  let rank (j : Nat) : Nat := ((xs.map item)[j]?.map (ys.map item).idxOf).getD 0
  have hrank (j k : Nat) (hk : k ∈ Item.needs (xs.map item) j) : rank k < rank j := by
    obtain ⟨a, v, ha, hv, hp⟩ := Item.mem_needs.1 hk
    obtain ⟨b, hb, hvb⟩ := Item.getElem?_of_producer? hp
    have hmem {c : Item} {i : Nat} (hc : (xs.map item)[i]? = some c) :
        (ys.map item)[(ys.map item).idxOf c]? = some c := by
      have hc : c ∈ ys.map item := hitems.mem_iff.2 (List.mem_of_getElem? hc)
      exact List.getElem?_idxOf hc
    have hlt := h.lt (hmem ha) hv (hmem hb) hvb
    simp only [rank, ha, hb, Option.map_some, Option.getD_some]
    exact hlt
  obtain ⟨order, horder⟩ := Item.resolve_exists kind once hrank
  refine ⟨order.filterMap (xs[·]?), ?_⟩
  simp only [orderItems, if_true, sortItems, horder, ok_bind, pure_eq_ok]

theorem orderItems_of_inOrder {xs : List α} (h : Item.InOrder (xs.map item)) :
    orderItems false kind item xs = .ok xs := by
  simp [orderItems, Item.checkOrder_eq_ok.2 h]

end Catchment
