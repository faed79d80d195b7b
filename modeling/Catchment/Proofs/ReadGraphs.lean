import Catchment.DependencyOrder
import Catchment.Proofs.NameLists
import Catchment.Proofs.Outcomes

/-!
# Read graphs

The graph that grows with the reads of a list of items connects the producer of every read to its
reader. The readers of a position ascend, each once, however often they read from it, and the
variables of a pair are those that pass between its positions. Building it fails exactly at the first
item that reads its own product.
-/
namespace Catchment

namespace Item

def needs (items : List Item) (j : Nat) : List Nat :=
  (items[j]?.map Item.reads).getD [] |>.filterMap (producer? items)

def readsOwnOutput? (kind : String) (items : List Item) : Option Misconfiguration :=
  ((allReads items).find? fun r => producer? items r.1 = some r.2).map fun r =>
    .readsOwnOutput kind (nameAt items r.2) r.1

def link (items : List Item) (g : ReadGraph) (r : String × Nat) : ReadGraph :=
  match producer? items r.1 with
  | none => g
  | some i => g.connect i r.2 r.1

def graph (items : List Item) : ReadGraph :=
  (allReads items).foldl (link items) (.empty items.length)

variable {items : List Item} {kind : String}

theorem getElem?_of_producer? {v : String} {i : Nat} (h : producer? items v = some i) :
    ∃ a, items[i]? = some a ∧ v ∈ a.produces := by
  obtain ⟨hi, hp, -⟩ := List.findIdx?_eq_some_iff_getElem.1 h
  exact ⟨items[i], List.getElem?_eq_getElem hi, by simpa using hp⟩

theorem producer?_lt {v : String} {i : Nat} (h : producer? items v = some i) :
    i < items.length := by
  obtain ⟨a, ha, -⟩ := getElem?_of_producer? h
  exact (List.getElem?_eq_some_iff.1 ha).1

theorem mem_allReads {v : String} {j : Nat} :
    (v, j) ∈ allReads items ↔ ∃ a, items[j]? = some a ∧ v ∈ a.reads := by
  simp only [allReads, List.mem_flatMap, List.mem_map, Prod.exists, Prod.mk.injEq,
    List.mk_mem_zipIdx_iff_getElem?]
  constructor
  · rintro ⟨a, k, ha, w, hw, rfl, rfl⟩
    exact ⟨a, ha, hw⟩
  · rintro ⟨a, ha, hv⟩
    exact ⟨a, j, ha, v, hv, rfl, rfl⟩

theorem allReads_ascending (items : List Item) :
    (allReads items).Pairwise fun r s => r.2 ≤ s.2 := by
  rw [allReads, List.pairwise_flatMap]
  refine ⟨fun p _ => List.pairwise_map.2 (List.pairwise_of_forall fun _ _ => le_rfl), ?_⟩
  rw [List.pairwise_iff_getElem]
  intro i j hi hj hij r hr s hs
  simp only [List.getElem_zipIdx, List.mem_map] at hr hs
  obtain ⟨_, -, rfl⟩ := hr
  obtain ⟨_, -, rfl⟩ := hs
  dsimp only
  omega

theorem mem_needs {j k : Nat} :
    k ∈ needs items j ↔
      ∃ a v, items[j]? = some a ∧ v ∈ a.reads ∧ producer? items v = some k := by
  rw [needs, List.mem_filterMap]
  cases h : items[j]? with
  | none => simp
  | some a => simp

theorem mem_needs_iff_read {j k : Nat} :
    k ∈ needs items j ↔ ∃ v, (v, j) ∈ allReads items ∧ producer? items v = some k := by
  simp only [mem_needs, mem_allReads]
  constructor
  · rintro ⟨a, v, ha, hv, hp⟩
    exact ⟨v, ⟨a, ha, hv⟩, hp⟩
  · rintro ⟨v, ⟨a, ha, hv⟩, hp⟩
    exact ⟨a, v, ha, hv, hp⟩

theorem needs_lt {j k : Nat} (h : k ∈ needs items j) : k < items.length ∧ j < items.length := by
  obtain ⟨a, v, ha, -, hp⟩ := mem_needs.1 h
  exact ⟨producer?_lt hp, (List.getElem?_eq_some_iff.1 ha).1⟩

theorem readsOwnOutput?_eq_none :
    readsOwnOutput? kind items = none ↔ ∀ j, j ∉ needs items j := by
  rw [readsOwnOutput?, Option.map_eq_none_iff, List.find?_eq_none]
  constructor
  · intro h j hj
    obtain ⟨v, hr, hp⟩ := mem_needs_iff_read.1 hj
    exact h (v, j) hr (by simpa using hp)
  · rintro h ⟨v, j⟩ hr hp
    exact h j (mem_needs_iff_read.2 ⟨v, hr, by simpa using hp⟩)

end Item

namespace ReadGraph

variable {g : ReadGraph} {i j : Nat} {v : String}

theorem size_connect : (g.connect i j v).size = g.size := List.length_modify ..

theorem readersOf_connect (hi : i < g.size) (k : Nat) : (g.connect i j v).readersOf k =
    if k = i then if j ∈ g.readersOf i then g.readersOf i else g.readersOf i ++ [j]
    else g.readersOf k := by
  simp only [readersOf, connect, List.getD_eq_getElem?_getD, List.getElem?_modify,
    List.contains_iff_mem]
  by_cases hk : i = k
  · subst hk
    rw [size] at hi
    simp [hi]
  · simp [hk, Ne.symm hk]

theorem mem_readersOf_connect (hi : i < g.size) {k m : Nat} :
    m ∈ (g.connect i j v).readersOf k ↔ m ∈ g.readersOf k ∨ m = j ∧ i = k := by
  rw [readersOf_connect hi]
  by_cases hk : k = i
  · subst hk
    rw [if_pos rfl]
    split
    · rename_i hj
      exact ⟨.inl, fun h => h.elim id fun h => h.1 ▸ hj⟩
    · simp
  · simp [hk, Ne.symm hk]

/-- A reader that is new stands last. -/
theorem ascending_connect (hi : i < g.size) (hlast : ∀ k ∈ g.readersOf i, k ≤ j)
    (h : ∀ k, (g.readersOf k).Pairwise (· < ·)) (k : Nat) :
    ((g.connect i j v).readersOf k).Pairwise (· < ·) := by
  rw [readersOf_connect hi]
  split
  · split
    · exact h i
    · rename_i hnew
      refine List.pairwise_append.2 ⟨h i, List.pairwise_singleton .., fun m hm j' hj' => ?_⟩
      rw [List.mem_singleton.1 hj']
      exact lt_of_le_of_ne (hlast m hm) fun heq => hnew (heq ▸ hm)
  · exact h k

theorem mem_addVariable {table : List ((Nat × Nat) × List String)} {pair q : Nat × Nat}
    {v w : String} : (∃ e ∈ addVariable table pair v, e.1 = q ∧ w ∈ e.2) ↔
      (∃ e ∈ table, e.1 = q ∧ w ∈ e.2) ∨ q = pair ∧ w = v := by
  by_cases hany : ∃ e ∈ table, e.1 = pair
  · obtain ⟨found, hfound, hpair⟩ := hany
    rw [addVariable, if_pos (List.any_eq_true.2 ⟨found, hfound, by simpa using hpair⟩)]
    constructor
    · rintro ⟨_, hmem, rfl, hw⟩
      obtain ⟨e, he, rfl⟩ := List.mem_map.1 hmem
      by_cases h : e.1 = pair
      · rw [if_pos h] at hw ⊢
        rcases List.mem_append.1 hw with hw | hw
        · exact .inl ⟨e, he, rfl, hw⟩
        · exact .inr ⟨h, List.mem_singleton.1 hw⟩
      · rw [if_neg h] at hw ⊢
        exact .inl ⟨e, he, rfl, hw⟩
    · rintro (⟨e, he, rfl, hw⟩ | ⟨rfl, rfl⟩)
      · refine ⟨_, List.mem_map_of_mem he, ?_⟩
        split
        · exact ⟨rfl, List.mem_append_left _ hw⟩
        · exact ⟨rfl, hw⟩
      · refine ⟨_, List.mem_map_of_mem hfound, ?_⟩
        rw [if_pos hpair]
        exact ⟨hpair, List.mem_append_right _ (List.mem_singleton_self _)⟩
  · rw [addVariable, if_neg (by simpa using hany)]
    simp only [List.mem_append, List.mem_singleton, or_and_right, exists_or, exists_eq_left]
    rw [eq_comm (a := pair)]

end ReadGraph

namespace Item

variable {items : List Item} {kind : String}

/-- What a graph holds once some reads were met. -/
structure Holds (items : List Item) (reads : List (String × Nat)) (g : ReadGraph) : Prop where
  size : g.size = items.length
  ascending : ∀ i, (g.readersOf i).Pairwise (· < ·)
  mem_readers : ∀ i j, j ∈ g.readersOf i ↔ ∃ v, (v, j) ∈ reads ∧ producer? items v = some i
  mem_via : ∀ i j v, (∃ e ∈ g.via, e.1 = (i, j) ∧ v ∈ e.2) ↔
    (v, j) ∈ reads ∧ producer? items v = some i

theorem holds_empty (items : List Item) : Holds items [] (.empty items.length) where
  size := List.length_replicate ..
  ascending i := by simp [ReadGraph.readersOf, ReadGraph.empty]
  mem_readers i j := by simp [ReadGraph.readersOf, ReadGraph.empty]
  mem_via i j v := by simp [ReadGraph.empty]

variable {reads : List (String × Nat)} {g : ReadGraph} {v w : String} {i j k : Nat}

theorem passes_snoc : (v, j) ∈ reads ++ [(w, k)] ∧ producer? items v = some i ↔
    ((v, j) ∈ reads ∧ producer? items v = some i) ∨
      (v = w ∧ j = k) ∧ producer? items w = some i := by
  simp only [List.mem_append, List.mem_singleton, Prod.mk.injEq, or_and_right]
  exact or_congr_right (and_congr_right fun h => by rw [h.1])

theorem exists_passes_snoc : (∃ v, (v, j) ∈ reads ++ [(w, k)] ∧ producer? items v = some i) ↔
    (∃ v, (v, j) ∈ reads ∧ producer? items v = some i) ∨ j = k ∧ producer? items w = some i := by
  simp only [passes_snoc, exists_or, and_assoc, exists_eq_left]

theorem Holds.skip (h : Holds items reads g) (hp : producer? items w = none) :
    Holds items (reads ++ [(w, k)]) g where
  size := h.size
  ascending := h.ascending
  mem_readers i j := by
    rw [h.mem_readers, exists_passes_snoc, hp]
    simp
  mem_via i j v := by
    rw [h.mem_via, passes_snoc, hp]
    simp

/-- Reads come in the order of their readers. -/
theorem Holds.connect (h : Holds items reads g) (hp : producer? items w = some i)
    (hlast : ∀ s ∈ reads, s.2 ≤ k) : Holds items (reads ++ [(w, k)]) (g.connect i k w) := by
  have hi : i < g.size := h.size ▸ producer?_lt hp
  have hreaders : ∀ j ∈ g.readersOf i, j ≤ k := by
    intro j hj
    obtain ⟨v, hv, -⟩ := (h.mem_readers i j).1 hj
    exact hlast _ hv
  refine ⟨ReadGraph.size_connect.trans h.size,
    ReadGraph.ascending_connect hi hreaders h.ascending, fun m j => ?_, fun m j v => ?_⟩
  · rw [ReadGraph.mem_readersOf_connect hi, h.mem_readers, exists_passes_snoc, hp,
      Option.some.injEq]
  · refine ReadGraph.mem_addVariable.trans ?_
    rw [h.mem_via, passes_snoc, hp, Option.some.injEq, Prod.mk.injEq]
    tauto

theorem Holds.link (h : Holds items reads g) {r : String × Nat} (hlast : ∀ s ∈ reads, s.2 ≤ r.2) :
    Holds items (reads ++ [r]) (link items g r) := by
  unfold Item.link
  cases hp : producer? items r.1 with
  | none => exact h.skip hp
  | some i => exact h.connect hp hlast

theorem holds_graph (items : List Item) : Holds items (allReads items) (graph items) := by
  have hprefix (reads : List (String × Nat)) (h : reads.Pairwise fun r s => r.2 ≤ s.2) :
      Holds items reads (reads.foldl (Item.link items) (.empty items.length)) := by
    induction reads using List.reverseRecOn with
    | nil => exact holds_empty items
    | append_singleton reads r ih =>
      obtain ⟨hreads, -, hlast⟩ := List.pairwise_append.1 h
      rw [List.foldl_append]
      exact (ih hreads).link fun s hs => hlast s hs r (List.mem_singleton_self r)
  exact hprefix _ (allReads_ascending items)

theorem mem_readersOf {i j : Nat} : j ∈ (graph items).readersOf i ↔ i ∈ needs items j := by
  rw [(holds_graph items).mem_readers, mem_needs_iff_read]

/-- The readers of a position are those positions of the list that need it. -/
theorem readersOf_graph (items : List Item) (i : Nat) : (graph items).readersOf i =
    (List.range items.length).filter fun j => (needs items j).contains i := by
  refine List.Perm.eq_of_pairwise (fun _ _ _ _ h h' => absurd h (Nat.lt_asymm h'))
    ((holds_graph items).ascending i) (List.pairwise_lt_range.filter _) ?_
  refine (List.perm_ext_iff_of_nodup ((holds_graph items).ascending i).nodup
    (List.nodup_range.filter _)).2 fun j => ?_
  rw [mem_readersOf, List.mem_filter, List.mem_range, List.contains_iff_mem]
  exact ⟨fun h => ⟨(needs_lt h).2, h⟩, And.right⟩

theorem nodup_readersOf (items : List Item) (i : Nat) : ((graph items).readersOf i).Nodup :=
  ((holds_graph items).ascending i).nodup

/-- Either an item reads its own product, or the graph is complete. -/
theorem readGraph_eq (kind : String) (items : List Item) : readGraph kind items =
    match readsOwnOutput? kind items with
    | some cause => misconfigured cause
    | none => .ok (graph items) := by
  have hfold (reads : List (String × Nat)) (g : ReadGraph) :
      reads.foldlM (addRead kind items) g =
        match (reads.find? fun r => producer? items r.1 = some r.2).map fun r =>
          Misconfiguration.readsOwnOutput kind (nameAt items r.2) r.1 with
        | some cause => misconfigured cause
        | none => .ok (reads.foldl (Item.link items) g) := by
    induction reads generalizing g with
    | nil => rfl
    | cons r reads ih =>
      rw [List.foldlM_cons, List.find?_cons, List.foldl_cons, addRead, Item.link]
      cases hp : producer? items r.1 with
      | none => simpa using ih g
      | some i =>
        by_cases hi : i = r.2
        · simp [hi, misconfigured]
        · simpa [hi] using ih _
  exact hfold _ _

end Item

end Catchment
