import Catchment.Proofs.ExactNumbers
import Catchment.Proofs.LeastOrders
import Catchment.Proofs.NameLists
import Catchment.Proofs.WalkComponents

/-!
# Reported cycles

What cannot be placed is a cycle or lies behind one: whatever reads the product of an item that is
not placed is not placed either. So a path between items that are left stays among them, and their
components are components of the whole list. One of them has several members, and sorting reports
the first such one: its items as they stand in the list, and the variables that pass between them.
-/
namespace Catchment

namespace Item

/-- Nothing is produced twice and nothing reads its own product, but following products to their
readers leads back somewhere. -/
structure Cyclic (items : List Item) : Prop where
  once : (items.flatMap produces).Nodup
  own : ∀ a ∈ items, ∀ v ∈ a.reads, v ∉ a.produces
  cycle : ∃ i, Relation.TransGen (Feeds items) i i

def unplaced (items : List Item) : List Nat :=
  (List.range items.length).filter (!(place items items.length []).contains ·)

def readersAmong (items : List Item) (positions : List Nat) (i : Nat) : List Nat :=
  positions.filter fun j => (needs items j).contains i

def unplacedComponents (items : List Item) : List (List Nat) :=
  strongComponents items.length (unplaced items) (readersAmong items (unplaced items))

/-- Several positions in ascending order, of all those that they lead to and that lead back. They
are found among the components of what is left, so there is no need to name all of that instead. -/
structure IsCycle (items : List Item) (members : List Nat) : Prop where
  ascending : members.Pairwise (· < ·)
  several : 1 < members.length
  lt_length : ∀ i ∈ members, i < items.length
  mem_iff : ∀ i ∈ members, ∀ j, j ∈ members ↔
    Relation.ReflTransGen (Feeds items) i j ∧ Relation.ReflTransGen (Feeds items) j i
  found : ∃ c, (unplacedComponents items).find? (fun c => 1 < c.length) = some c ∧ c.Perm members

/-- Variables in ascending order, each once, that one of some positions produces and another one
reads. -/
structure Exchanges (items : List Item) (members : List Nat) (exchanged : List String) : Prop where
  ascending : exchanged.Pairwise (· < ·)
  mem_iff : ∀ v, v ∈ exchanged ↔ ∃ i ∈ members, ∃ j ∈ members, i ≠ j ∧
    ∃ a b, items[i]? = some a ∧ items[j]? = some b ∧ v ∈ a.produces ∧ v ∈ b.reads

variable {items : List Item} {kind : String}

theorem notMem_needs (hown : ∀ a ∈ items, ∀ v ∈ a.reads, v ∉ a.produces) (j : Nat) :
    j ∉ needs items j := by
  intro hj
  obtain ⟨a, b, ha, hb, v, hv, hva⟩ := feeds_of_mem_needs hj
  obtain rfl := Option.some.inj (ha.symm.trans hb)
  exact hown a (List.mem_of_getElem? ha) v hv hva

/-- What is reported of the positions that are left. -/
theorem resolve_of_unplaced (once : (items.flatMap produces).Nodup)
    (hown : ∀ a ∈ items, ∀ v ∈ a.reads, v ∉ a.produces) (hleft : unplaced items ≠ []) :
    resolve kind items =
      let members := (graph items).cycleMembers (unplaced items)
      misconfigured (.cycle kind (members.map (nameAt items))
        ((graph items).variablesWithin members)) := by
  have hnone : readsOwnOutput? kind items = none :=
    readsOwnOutput?_eq_none.2 (notMem_needs hown)
  have hshort : (place items items.length []).length < items.length := by
    by_contra hall
    have hplaced : Placed items (place items items.length []) := Placed.nil.place _
    refine hleft (List.filter_eq_nil_iff.2 fun j hj => ?_)
    simpa using (hplaced.perm_range (Nat.le_of_not_lt hall)).mem_iff.2 hj
  rw [resolve_eq, producedTwice?_eq_none.2 once, hnone]
  exact if_pos hshort

theorem mem_unplaced {i : Nat} :
    i ∈ unplaced items ↔ i < items.length ∧ i ∉ place items items.length [] := by
  simp [unplaced]

theorem nodup_unplaced (items : List Item) : (unplaced items).Nodup :=
  List.nodup_range.filter _

theorem placed_place (items : List Item) : Placed items (place items items.length []) :=
  Placed.nil.place _

/-- A reader of what is left is left. -/
theorem Feeds.mem_unplaced (once : (items.flatMap produces).Nodup) {i j : Nat}
    (h : Feeds items i j) (hi : i ∈ unplaced items) : j ∈ unplaced items := by
  refine Item.mem_unplaced.2 ⟨h.lt_length.2, fun hj => ?_⟩
  exact (Item.mem_unplaced.1 hi).2
    ((placed_place items).needs_mem j hj i (mem_needs_of_feeds once h))

/-- What is placed stands behind all that leads to it. -/
theorem Placed.idxOf_lt_of_transGen {placed : List Nat} (h : Placed items placed)
    (once : (items.flatMap produces).Nodup) {i j : Nat}
    (hpath : Relation.TransGen (Feeds items) i j) (hj : j ∈ placed) :
    placed.idxOf i < placed.idxOf j := by
  induction hpath with
  | single hfeeds => exact h.idxOf_lt hj (mem_needs_of_feeds once hfeeds)
  | tail _ hfeeds ih =>
    have hneeds := mem_needs_of_feeds once hfeeds
    exact (ih (h.needs_mem _ hj _ hneeds)).trans (h.idxOf_lt hj hneeds)

theorem mem_unplaced_of_cycle (once : (items.flatMap produces).Nodup) {i : Nat}
    (hcycle : Relation.TransGen (Feeds items) i i) : i ∈ unplaced items := by
  obtain ⟨j, hfeeds, -⟩ := Relation.TransGen.head'_iff.1 hcycle
  exact mem_unplaced.2 ⟨hfeeds.lt_length.1, fun hi =>
    Nat.lt_irrefl _ ((placed_place items).idxOf_lt_of_transGen once hcycle hi)⟩

theorem mem_readersAmong (once : (items.flatMap produces).Nodup) {i j : Nat}
    (hi : i ∈ unplaced items) :
    j ∈ readersAmong items (unplaced items) i ↔ Feeds items i j := by
  rw [readersAmong, List.mem_filter, List.contains_iff_mem]
  constructor
  · exact fun h => feeds_of_mem_needs h.2
  · exact fun h => ⟨h.mem_unplaced once hi, mem_needs_of_feeds once h⟩

/-- A path from what is left stays there. -/
theorem mem_unplaced_of_path (once : (items.flatMap produces).Nodup) {i j : Nat}
    (hi : i ∈ unplaced items) (hpath : Relation.ReflTransGen (Feeds items) i j) :
    j ∈ unplaced items := by
  induction hpath with
  | refl => exact hi
  | tail _ hfeeds ih => exact hfeeds.mem_unplaced once ih

theorem leads_iff (once : (items.flatMap produces).Nodup) {i j : Nat} (hi : i ∈ unplaced items) :
    Leads (readersAmong items (unplaced items)) i j ↔
      Relation.ReflTransGen (Feeds items) i j := by
  constructor
  · intro h
    refine h.lift id fun x y hy => ?_
    rw [readersAmong, List.mem_filter, List.contains_iff_mem] at hy
    exact feeds_of_mem_needs hy.2
  · intro h
    induction h with
    | refl => exact .refl
    | tail hpath hfeeds ih =>
      exact ih.tail ((mem_readersAmong once (mem_unplaced_of_path once hi hpath)).2 hfeeds)

theorem unplacedComponents_decomposes (items : List Item) :
    Decomposes (readersAmong items (unplaced items)) (unplaced items)
      (unplacedComponents items) := by
  refine strongComponents_decomposes (nodup_unplaced items) (fun i _ => ?_) ?_
  · exact List.filter_subset_self _
  · exact (List.length_filter_le _ _).trans_eq List.length_range

/-- Where there is a cycle, a component of what is left has several members. -/
theorem exists_several (h : Cyclic items) :
    ∃ c, (unplacedComponents items).find? (fun c => 1 < c.length) = some c := by
  rw [← Option.isSome_iff_exists, List.find?_isSome]
  by_contra hnone
  have hall : ∀ c ∈ unplacedComponents items, c.length ≤ 1 := fun c hc =>
    Nat.le_of_not_lt fun hlt => hnone ⟨c, hc, by simpa using hlt⟩
  have hproper (i : Nat) : i ∉ readersAmong items (unplaced items) i := by
    rw [readersAmong, List.mem_filter, List.contains_iff_mem]
    exact fun hi => notMem_needs h.own i hi.2
  obtain ⟨i, hcycle⟩ := h.cycle
  have hi := mem_unplaced_of_cycle h.once hcycle
  refine ((unplacedComponents_decomposes items).length_le_one_iff (nodup_unplaced items)
    hproper).1 hall i hi ?_
  obtain ⟨j, hfeeds, hback⟩ := Relation.TransGen.head'_iff.1 hcycle
  exact .head' ((mem_readersAmong h.once hi).2 hfeeds)
    ((leads_iff h.once (hfeeds.mem_unplaced h.once hi)).2 hback)

theorem isCycle_of_find? (once : (items.flatMap produces).Nodup) {c : List Nat}
    (h : (unplacedComponents items).find? (fun c => 1 < c.length) = some c) :
    IsCycle items (c.mergeSort fun i j => decide (i ≤ j)) := by
  have hparts := unplacedComponents_decomposes items
  have hc := List.mem_of_find?_eq_some h
  have hleft {i : Nat} (hi : i ∈ c) : i ∈ unplaced items :=
    hparts.partition.mem_iff.1 (List.mem_flatten_of_mem hc hi)
  have honce : c.Nodup := (List.nodup_flatten.1
    (hparts.partition.nodup_iff.2 (nodup_unplaced items))).1 c hc
  refine ⟨pairwise_lt_mergeSort honce, ?_, fun i hi => ?_, fun i hi j => ?_, c, h,
    (List.mergeSort_perm c _).symm⟩
  · rw [List.length_mergeSort]
    simpa using List.find?_some h
  · exact (mem_unplaced.1 (hleft (List.mem_mergeSort.1 hi))).1
  · rw [List.mem_mergeSort] at hi ⊢
    rw [(hparts.component c hc).mem_iff i hi j, leads_iff once (hleft hi)]
    exact and_congr_right fun hij => leads_iff once (mem_unplaced_of_path once (hleft hi) hij)

theorem exchanges_variablesWithin (once : (items.flatMap produces).Nodup)
    (hown : ∀ a ∈ items, ∀ v ∈ a.reads, v ∉ a.produces) (members : List Nat) :
    Exchanges items members ((graph items).variablesWithin members) where
  ascending := pairwise_sortedNames _
  mem_iff v := by
    have hvia (i j : Nat) := (holds_graph items).mem_via i j v
    simp only [ReadGraph.variablesWithin, mem_sortedNames, List.mem_flatMap, List.mem_filter,
      Bool.and_eq_true, List.contains_iff_mem]
    constructor
    · rintro ⟨⟨⟨i, j⟩, vs⟩, ⟨he, hi, hj⟩, hv⟩
      obtain ⟨hread, hp⟩ := (hvia i j).1 ⟨_, he, rfl, hv⟩
      obtain ⟨a, ha, hva⟩ := getElem?_of_producer? hp
      obtain ⟨b, hb, hvb⟩ := mem_allReads.1 hread
      refine ⟨i, hi, j, hj, ?_, a, b, ha, hb, hva, hvb⟩
      rintro rfl
      exact notMem_needs hown i (mem_needs.2 ⟨b, v, hb, hvb, hp⟩)
    · rintro ⟨i, hi, j, hj, -, a, b, ha, hb, hva, hvb⟩
      obtain ⟨e, he, heq, hv⟩ := (hvia i j).2
        ⟨mem_allReads.2 ⟨b, hb, hvb⟩, producer?_eq_some once ha hva⟩
      refine ⟨e, ⟨he, ?_, ?_⟩, hv⟩
      · rwa [heq]
      · rwa [heq]

/-- The readers among what is left are those that the components are searched over. -/
theorem filter_readersOf (items : List Item) (i : Nat) :
    ((graph items).readersOf i).filter (unplaced items).contains =
      readersAmong items (unplaced items) i := by
  rw [readersOf_graph, readersAmong, List.filter_filter]
  conv_rhs => rw [unplaced, List.filter_filter]
  refine List.filter_congr fun j hj => ?_
  rw [Bool.and_comm, Bool.eq_iff_iff, Bool.and_eq_true, Bool.and_eq_true, List.contains_iff_mem,
    List.contains_iff_mem, mem_unplaced, ← List.mem_range]
  simp [hj]

/-- With a component of several members nothing else is named. -/
theorem cycleMembers_unplaced {c : List Nat}
    (h : (unplacedComponents items).find? (fun c => 1 < c.length) = some c) :
    (graph items).cycleMembers (unplaced items) = c.mergeSort fun i j => decide (i ≤ j) := by
  rw [unplacedComponents] at h
  rw [ReadGraph.cycleMembers, (holds_graph items).size]
  simp only [filter_readersOf]
  rw [h]

theorem resolve_of_cyclic (kind : String) (h : Cyclic items) : ∃ members exchanged,
    resolve kind items = misconfigured (.cycle kind (members.map (nameAt items)) exchanged) ∧
      IsCycle items members ∧ Exchanges items members exchanged := by
  obtain ⟨c, hc⟩ := exists_several h
  obtain ⟨i, hcycle⟩ := h.cycle
  have hleft : unplaced items ≠ [] := List.ne_nil_of_mem (mem_unplaced_of_cycle h.once hcycle)
  refine ⟨_, _, ?_, isCycle_of_find? h.once hc, exchanges_variablesWithin h.once h.own _⟩
  rw [resolve_of_unplaced h.once h.own hleft, cycleMembers_unplaced hc]

end Item

variable {α : Type}

/-- Where things cannot be sorted for a cycle, sorting refuses them with the names, in the order of
the list, of what stands on one cycle as large as possible, and with the variables that pass within
it. -/
def ReportsCycles (kind : String) (item : α → Item) (xs : List α) : Prop :=
  Item.Cyclic (xs.map item) → ∃ members names exchanged,
    sortItems kind item xs = misconfigured (.cycle kind names exchanged) ∧
    names.map some = members.map (fun i => (xs[i]?).map fun x => (item x).name) ∧
    Item.IsCycle (xs.map item) members ∧ Item.Exchanges (xs.map item) members exchanged

theorem reportsCycles (kind : String) (item : α → Item) (xs : List α) :
    ReportsCycles kind item xs := by
  intro h
  obtain ⟨members, exchanged, hresolve, hcycle, hexchanges⟩ := Item.resolve_of_cyclic kind h
  refine ⟨members, _, exchanged, by rw [sortItems, hresolve]; rfl, ?_, hcycle, hexchanges⟩
  rw [List.map_map]
  refine List.map_congr_left fun i hi => ?_
  have hlt := hcycle.lt_length i hi
  rw [List.length_map] at hlt
  simp [Item.nameAt, hlt]

/-- Cycles of declarations and of components are reported. -/
theorem reported_cycles_are_components {K : Type} [Scalar K] (fluxes : List (Declaration K))
    (parts : List (Component K)) :
    ReportsCycles "flux" Declaration.item fluxes ∧
      ReportsCycles "component" (fun c => c.signature.item) parts :=
  ⟨reportsCycles _ _ _, reportsCycles _ _ _⟩

def passing (name out read : String) : FluxDraft ExactReal where
  name := name
  outputs := [out]
  inputs := [read]
  params := []
  exprs := [.var read]
  law := none

/-- Two fluxes that read each other, behind one that only reads what they pass. -/
def passedAround : List (Declaration ExactReal) :=
  [.flux ⟨passing "down" "z" "y", by decide⟩, .flux ⟨passing "one" "x" "y", by decide⟩,
    .flux ⟨passing "two" "y" "x", by decide⟩]

theorem passedAround_cyclic : Item.Cyclic (passedAround.map Declaration.item) where
  once := by decide
  own := by decide
  cycle := by
    have hone : Item.Feeds (passedAround.map Declaration.item) 1 2 :=
      ⟨_, _, rfl, rfl, "x", by decide, by decide⟩
    have htwo : Item.Feeds (passedAround.map Declaration.item) 2 1 :=
      ⟨_, _, rfl, rfl, "y", by decide, by decide⟩
    exact ⟨1, .tail (.single hone) htwo⟩

theorem passedAround_reported : ∃ members names exchanged,
    sortItems "flux" Declaration.item passedAround =
      misconfigured (.cycle "flux" names exchanged) ∧
    names.map some = members.map (fun i => (passedAround[i]?).map fun x => x.item.name) ∧
    Item.IsCycle (passedAround.map Declaration.item) members ∧
    Item.Exchanges (passedAround.map Declaration.item) members exchanged :=
  (reported_cycles_are_components passedAround []).1 passedAround_cyclic

end Catchment
