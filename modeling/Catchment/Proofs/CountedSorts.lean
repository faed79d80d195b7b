import Catchment.Proofs.ReadGraphs

/-!
# Counted sorts

A sort keeps, for every position, the number of distinct positions that it reads from and that are
not placed: it falls by one when one of them is placed, however many of its products are read. What
is ready is what has none left and is not placed, so the least of it is the first position that all
producers precede. So a sort places what is found by looking, again and again, for the first such
position, and it goes on until there is none.
-/
namespace Catchment

/-- Counting up at the places of a list counts the places. -/
theorem getD_foldl_count (js : List Nat) (ds : List Int) {j : Nat} (hj : j < ds.length) :
    (js.foldl (fun ds j => ds.modify j (· + 1)) ds).getD j 0 = ds.getD j 0 + js.count j := by
  induction js generalizing ds with
  | nil => simp
  | cons i js ih =>
    rw [List.foldl_cons, ih _ (by rwa [List.length_modify]), List.count_cons]
    simp only [List.getD_eq_getElem?_getD, List.getElem?_modify, List.getElem?_eq_getElem hj,
      Option.getD_some, beq_iff_eq]
    split
    · simp only [Option.map_eq_map, Option.map_some, Option.getD_some]
      push_cast
      ring
    · simp

theorem length_foldl_count (js : List Nat) (ds : List Int) :
    (js.foldl (fun ds j => ds.modify j (· + 1)) ds).length = ds.length := by
  induction js generalizing ds with
  | nil => rfl
  | cons i js ih => rw [List.foldl_cons, ih, List.length_modify]

namespace Item

/-- The first position that is not placed and whose needs are. -/
def ready? (items : List Item) (placed : List Nat) : Option Nat :=
  (List.range items.length).find? fun j =>
    !placed.contains j && (needs items j).all placed.contains

/-- Places ready positions, at most `fuel` of them. -/
def place (items : List Item) : Nat → List Nat → List Nat
  | 0, placed => placed
  | fuel + 1, placed =>
    match ready? items placed with
    | some j => place items fuel (placed ++ [j])
    | none => placed

def pending (items : List Item) (placed : List Nat) (j : Nat) : List Nat :=
  (List.range items.length).filter fun i => (needs items j).contains i && !placed.contains i

variable {items : List Item} {placed : List Nat} {i j k : Nat}

theorem mem_pending : i ∈ pending items placed j ↔ i ∈ needs items j ∧ i ∉ placed := by
  simp only [pending, List.mem_filter, List.mem_range, Bool.and_eq_true, Bool.not_eq_true',
    List.contains_eq_mem, decide_eq_true_eq, decide_eq_false_iff_not]
  exact ⟨And.right, fun h => ⟨(needs_lt h.1).1, h⟩⟩

theorem nodup_pending : (pending items placed j).Nodup := List.nodup_range.filter _

theorem pending_eq_nil : pending items placed j = [] ↔ ∀ i ∈ needs items j, i ∈ placed := by
  simp only [List.eq_nil_iff_forall_not_mem, mem_pending, not_and, not_not]

/-- What is placed is not pending any more. -/
theorem pending_snoc : pending items (placed ++ [i]) j = (pending items placed j).erase i := by
  rw [nodup_pending.erase_eq_filter, pending, pending, List.filter_filter]
  refine List.filter_congr fun k _ => ?_
  simp only [List.contains_eq_mem, List.mem_append, List.mem_singleton]
  by_cases h : k = i <;> simp [h]

theorem length_pending_snoc (hi : i ∉ placed) :
    ((pending items (placed ++ [i]) j).length : Int) =
      (pending items placed j).length - if i ∈ needs items j then 1 else 0 := by
  rw [pending_snoc]
  split
  · rename_i hj
    have hmem : i ∈ pending items placed j := mem_pending.2 ⟨hj, hi⟩
    have hpos := List.length_pos_of_mem hmem
    rw [List.length_erase_of_mem hmem]
    omega
  · rename_i hj
    rw [List.erase_of_not_mem fun hmem => hj (mem_pending.1 hmem).1, sub_zero]

/-- A sort counts what is pending and knows what is ready. -/
structure Counts (items : List Item) (s : Sorting) : Prop where
  length : s.indegrees.length = items.length
  count : ∀ j, s.indegrees.getD j 0 = (pending items s.order j).length
  ready_nodup : s.ready.Nodup
  mem_ready : ∀ j, j ∈ s.ready ↔ j < items.length ∧ j ∉ s.order ∧ ∀ k ∈ needs items j, k ∈ s.order
  closed : ∀ j ∈ s.order, ∀ k ∈ needs items j, k ∈ s.order

theorem readers_graph (items : List Item) :
    (graph items).readers = (List.range items.length).map (graph items).readersOf := by
  have hlength : (graph items).readers.length = items.length := (holds_graph items).size
  refine List.ext_getElem (by simpa using hlength) fun i hi hi' => ?_
  simp [ReadGraph.readersOf, List.getD_eq_getElem?_getD, hi]

/-- A position is a reader as often as there are positions that it reads from. -/
theorem count_readers (items : List Item) (j : Nat) :
    (graph items).readers.flatten.count j = (pending items [] j).length := by
  have hcount (i : Nat) : ((graph items).readersOf i).count j =
      if (needs items j).contains i then 1 else 0 := by
    rw [(nodup_readersOf items i).count]
    simp only [mem_readersOf, List.contains_iff_mem]
  rw [readers_graph, List.count_flatten, List.map_map, pending]
  induction List.range items.length with
  | nil => rfl
  | cons i is ih =>
    rw [List.map_cons, List.sum_cons, ih, Function.comp_apply, hcount, List.filter_cons]
    split <;> simp_all [Nat.add_comm]

theorem getD_indegrees (items : List Item) (j : Nat) :
    (graph items).indegrees.getD j 0 = (pending items [] j).length := by
  have hsize : (graph items).size = items.length := (holds_graph items).size
  by_cases hj : j < items.length
  · have hzero : (List.replicate (graph items).size (0 : Int)).getD j 0 = 0 := by
      simp [List.getD_eq_getElem?_getD, hsize, hj]
    rw [ReadGraph.indegrees, getD_foldl_count _ _ (by simpa [hsize] using hj), hzero, zero_add,
      count_readers]
  · have hnone : pending items [] j = [] :=
      pending_eq_nil.2 fun i hi => absurd (needs_lt hi).2 hj
    rw [hnone, ReadGraph.indegrees, List.getD_eq_default]
    · rfl
    · rw [length_foldl_count, List.length_replicate, hsize]
      omega

theorem counts_start (items : List Item) : Counts items (.start (graph items)) where
  length := by
    show (graph items).indegrees.length = items.length
    rw [ReadGraph.indegrees, length_foldl_count, List.length_replicate, (holds_graph items).size]
  count := getD_indegrees items
  ready_nodup := List.nodup_range.filter _
  mem_ready j := by
    simp only [Sorting.start, List.mem_filter, List.mem_range, getD_indegrees,
      (holds_graph items).size, decide_eq_true_eq, Nat.cast_eq_zero, List.length_eq_zero_iff,
      pending_eq_nil, List.not_mem_nil, not_false_eq_true, true_and]
  closed := by simp [Sorting.start]

end Item

namespace Sorting

variable {s : Sorting} {js : List Nat}

theorem order_release (js : List Nat) (s : Sorting) : (js.foldl release s).order = s.order := by
  induction js generalizing s with
  | nil => rfl
  | cons j js ih => exact ih _

theorem length_release (js : List Nat) (s : Sorting) :
    (js.foldl release s).indegrees.length = s.indegrees.length := by
  induction js generalizing s with
  | nil => rfl
  | cons j js ih => exact (ih _).trans (List.length_set ..)

theorem getD_release (s : Sorting) {j : Nat} (hj : j < s.indegrees.length) (k : Nat) :
    (s.release j).indegrees.getD k 0 = s.indegrees.getD k 0 - if k = j then 1 else 0 := by
  simp only [release, List.getD_eq_getElem?_getD, List.getElem?_set]
  by_cases h : j = k
  · subst h
    simp [hj]
  · simp [h, Ne.symm h]

/-- Each of some distinct positions has one less to wait for. -/
theorem getD_foldl_release (hjs : js.Nodup) (hlt : ∀ j ∈ js, j < s.indegrees.length) (k : Nat) :
    (js.foldl release s).indegrees.getD k 0 = s.indegrees.getD k 0 - if k ∈ js then 1 else 0 := by
  induction js generalizing s with
  | nil => simp
  | cons j js ih =>
    obtain ⟨hnew, hjs⟩ := List.nodup_cons.1 hjs
    have hlength : (s.release j).indegrees.length = s.indegrees.length := List.length_set ..
    have hj : j < s.indegrees.length := hlt j List.mem_cons_self
    rw [List.foldl_cons, ih hjs fun i hi => hlength ▸ hlt i (List.mem_cons_of_mem j hi),
      getD_release s hj]
    by_cases hk : k = j
    · subst hk
      simp [hnew]
    · simp [hk]

/-- Those become ready that waited for one position only. -/
theorem mem_ready_foldl_release (hjs : js.Nodup) (hlt : ∀ j ∈ js, j < s.indegrees.length)
    (k : Nat) : k ∈ (js.foldl release s).ready ↔
      k ∈ s.ready ∨ k ∈ js ∧ s.indegrees.getD k 0 = 1 := by
  induction js generalizing s with
  | nil => simp
  | cons j js ih =>
    obtain ⟨hnew, hjs⟩ := List.nodup_cons.1 hjs
    have hlength : (s.release j).indegrees.length = s.indegrees.length := List.length_set ..
    have hj : j < s.indegrees.length := hlt j List.mem_cons_self
    have hready : k ∈ (s.release j).ready ↔ k ∈ s.ready ∨ k = j ∧ s.indegrees.getD j 0 = 1 := by
      simp only [release, sub_eq_zero]
      split
      · rename_i h
        rw [List.mem_append, List.mem_singleton, and_iff_left h]
      · rename_i h
        rw [or_iff_left fun hk => h hk.2]
    rw [List.foldl_cons, ih hjs fun i hi => hlength ▸ hlt i (List.mem_cons_of_mem j hi), hready,
      getD_release s hj, List.mem_cons]
    by_cases hk : k = j
    · subst hk
      simp [hnew]
    · simp [hk]

theorem nodup_ready_foldl_release (hjs : js.Nodup) (hready : s.ready.Nodup)
    (hnew : ∀ j ∈ js, j ∉ s.ready) : (js.foldl release s).ready.Nodup := by
  induction js generalizing s with
  | nil => exact hready
  | cons j js ih =>
    obtain ⟨hj, hjs⟩ := List.nodup_cons.1 hjs
    have hlast : j ∉ s.ready := hnew j List.mem_cons_self
    refine ih hjs ?_ fun i hi => ?_
    · simp only [release]
      split
      · rw [← List.concat_eq_append]
        exact hready.concat hlast
      · exact hready
    · have hold : i ∉ s.ready := hnew i (List.mem_cons_of_mem j hi)
      have hne : i ≠ j := fun h => hj (h ▸ hi)
      simp only [release]
      split
      · simp [hold, hne]
      · exact hold

end Sorting

namespace Item

variable {items : List Item} {s : Sorting} {i : Nat}

/-- What needs a ready position is neither placed nor ready. -/
theorem Counts.waits (h : Counts items s) (hi : i ∈ s.ready) {j : Nat} (hj : i ∈ needs items j) :
    j ∉ s.order ∧ j ∉ s.ready ∧ j ≠ i := by
  obtain ⟨-, hnew, hneeds⟩ := (h.mem_ready i).1 hi
  refine ⟨fun hmem => hnew (h.closed j hmem i hj), fun hmem => ?_, ?_⟩
  · exact hnew (((h.mem_ready j).1 hmem).2.2 i hj)
  · rintro rfl
    exact hnew (hneeds _ hj)

/-- Once a position is placed, what is ready is what was, and what waited for it only. -/
theorem Counts.needs_placed_iff (h : Counts items s) (hi : i ∈ s.ready) {j : Nat} :
    (j < items.length ∧ j ∉ s.order ++ [i] ∧ ∀ k ∈ needs items j, k ∈ s.order ++ [i]) ↔
      (j ≠ i ∧ j ∈ s.ready) ∨ i ∈ needs items j ∧ s.indegrees.getD j 0 = 1 := by
  obtain ⟨-, hnew, -⟩ := (h.mem_ready i).1 hi
  have hlength : ((pending items (s.order ++ [i]) j).length : Int) = _ := length_pending_snoc hnew
  rw [← pending_eq_nil, ← List.length_eq_zero_iff, h.count, List.mem_append, List.mem_singleton]
  by_cases hj : i ∈ needs items j
  · obtain ⟨hplaced, hready, hne⟩ := h.waits hi hj
    rw [if_pos hj] at hlength
    have hlt : j < items.length := (needs_lt hj).2
    simp only [hplaced, hready, hne, hj, hlt, or_false, not_false_eq_true, true_and, and_false,
      false_or]
    omega
  · rw [if_neg hj, sub_zero, Int.natCast_inj] at hlength
    rw [hlength, h.mem_ready, List.length_eq_zero_iff, pending_eq_nil]
    tauto

/-- Placing what is ready keeps the counts. -/
theorem Counts.place (h : Counts items s) (hi : i ∈ s.ready) :
    Counts items (s.place (graph items) i) := by
  obtain ⟨-, hnew, hneeds⟩ := (h.mem_ready i).1 hi
  let t : Sorting := { s with ready := s.ready.erase i, order := s.order ++ [i] }
  have horder : (s.place (graph items) i).order = s.order ++ [i] := Sorting.order_release _ t
  have hdistinct := nodup_readersOf items i
  have hreaders : ∀ j ∈ (graph items).readersOf i, j < t.indegrees.length := fun j hj =>
    (needs_lt (mem_readersOf.1 hj)).2.trans_eq h.length.symm
  refine ⟨(Sorting.length_release _ t).trans h.length, fun j => ?_, ?_, fun j => ?_, ?_⟩
  · rw [horder, length_pending_snoc hnew, ← h.count, Sorting.place,
      Sorting.getD_foldl_release (s := t) hdistinct hreaders]
    simp only [mem_readersOf]
    rfl
  · refine Sorting.nodup_ready_foldl_release (s := t) hdistinct (h.ready_nodup.erase i)
      fun j hj hmem => ?_
    exact (h.waits hi (mem_readersOf.1 hj)).2.1 (List.mem_of_mem_erase hmem)
  · rw [horder, h.needs_placed_iff hi, ← h.ready_nodup.mem_erase_iff, ← mem_readersOf]
    exact Sorting.mem_ready_foldl_release (s := t) hdistinct hreaders j
  · rw [horder]
    intro j hj k hk
    refine List.mem_append_left _ ?_
    rcases List.mem_append.1 hj with hj | hj
    · exact h.closed j hj k hk
    · exact hneeds k (List.mem_singleton.1 hj ▸ hk)

/-- The least of what is ready is the first position that is not placed and whose needs are. -/
theorem Counts.min? (h : Counts items s) : s.ready.min? = ready? items s.order := by
  refine Option.ext fun i => ?_
  have hmem (j : Nat) : j ∈ s.ready ↔ j < items.length ∧
      (!s.order.contains j && (needs items j).all s.order.contains) = true := by
    rw [h.mem_ready]
    simp
  rw [List.min?_eq_some_iff, ready?, List.find?_range_eq_some, hmem]
  constructor
  · rintro ⟨⟨hlt, hp⟩, hleast⟩
    refine ⟨hp, List.mem_range.2 hlt, fun j hj => ?_⟩
    rw [Bool.not_eq_true', Bool.eq_false_iff]
    exact fun hready => absurd (hleast j ((hmem j).2 ⟨hj.trans hlt, hready⟩)) (by omega)
  · rintro ⟨hp, hi, hleast⟩
    refine ⟨⟨List.mem_range.1 hi, hp⟩, fun j hj => ?_⟩
    by_contra hlt
    have hrefused := hleast j (by omega)
    rw [((hmem j).1 hj).2] at hrefused
    exact nomatch hrefused

/-- A sort that goes on places what is placed by looking for the first ready position. -/
theorem Counts.run (h : Counts items s) (fuel : Nat) :
    Counts items (.run (graph items) fuel s) ∧
      (Sorting.run (graph items) fuel s).order = Item.place items fuel s.order := by
  induction fuel generalizing s with
  | zero => exact ⟨h, rfl⟩
  | succ fuel ih =>
    rw [Sorting.run, Item.place, ← h.min?]
    cases hmin : s.ready.min? with
    | none => exact ⟨h, rfl⟩
    | some i =>
      obtain ⟨hcounts, horder⟩ := ih (h.place (List.min?_mem hmin))
      refine ⟨hcounts, horder.trans ?_⟩
      rw [Sorting.place, Sorting.order_release]

/-- The order of a read graph is found by placing the first ready position again and again. -/
theorem order_graph (items : List Item) :
    (graph items).order = place items items.length [] := by
  rw [ReadGraph.order, (holds_graph items).size]
  exact ((counts_start items).run _).2

end Item

end Catchment
