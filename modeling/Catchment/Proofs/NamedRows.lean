import Catchment.Proofs.CellwiseValues
import Catchment.Proofs.FormulaOrder
import Catchment.RunData

/-!
# Rows under names

Names that differ look up the rows they are listed with, whatever the direction of the search. Rows
over nodes and times, and parameters over nodes, give every name its cell at every index.
-/
namespace Catchment

theorem lookup_map_snd {α β : Type} (f : α → β) (pairs : List (String × α)) (v : String) :
    (pairs.map fun p => (p.1, f p.2)).lookup v = (pairs.lookup v).map f := by
  induction pairs with
  | nil => rfl
  | cons p pairs ih =>
    obtain ⟨w, x⟩ := p
    simp only [List.map_cons, List.lookup_cons, ih]
    split <;> rfl

theorem lookup_eq_some_of_mem {α : Type} {pairs : List (String × α)} {v : String} {x : α}
    (hn : (pairs.map Prod.fst).Nodup) (h : (v, x) ∈ pairs) : pairs.lookup v = some x := by
  obtain ⟨l₁, l₂, rfl⟩ := List.append_of_mem h
  refine List.lookup_eq_some_iff.2 ⟨l₁, l₂, rfl, fun p hp => ?_⟩
  rw [List.map_append, List.nodup_append] at hn
  have hne : p.1 ≠ v := hn.2.2 p.1 (List.mem_map_of_mem hp) v (by simp)
  simpa using hne.symm

theorem mem_of_lookup_eq_some {α : Type} {pairs : List (String × α)} {v : String} {x : α}
    (h : pairs.lookup v = some x) : (v, x) ∈ pairs := by
  obtain ⟨l₁, l₂, rfl, -⟩ := List.lookup_eq_some_iff.1 h
  simp

theorem lookup_exists {α : Type} {pairs : List (String × α)} {v : String}
    (h : v ∈ pairs.map Prod.fst) : ∃ x, pairs.lookup v = some x := by
  cases hv : pairs.lookup v with
  | some x => exact ⟨x, rfl⟩
  | none =>
    obtain ⟨p, hp, rfl⟩ := List.mem_map.1 h
    simpa using List.lookup_eq_none_iff.1 hv p hp

/-- Where every name stands once, the direction of the search does not matter. -/
theorem lookup_reverse {α : Type} {pairs : List (String × α)} (hn : (pairs.map Prod.fst).Nodup)
    (v : String) : pairs.reverse.lookup v = pairs.lookup v := by
  cases h : pairs.lookup v with
  | some x =>
    refine lookup_eq_some_of_mem ?_ (List.mem_reverse.2 (mem_of_lookup_eq_some h))
    rwa [List.map_reverse, List.nodup_reverse]
  | none =>
    rw [List.lookup_eq_none_iff] at h ⊢
    exact fun p hp => h p (List.mem_reverse.1 hp)

theorem nodup_keys_zip {α : Type} {names : List String} (hn : names.Nodup) (xs : List α) :
    ((names.zip xs).map Prod.fst).Nodup := by
  induction names generalizing xs with
  | nil => simp
  | cons v names ih => cases xs with
    | nil => simp
    | cons x xs =>
      obtain ⟨hv, hn⟩ := List.nodup_cons.1 hn
      rw [List.zip_cons_cons, List.map_cons, List.nodup_cons]
      refine ⟨fun h => hv ?_, ih hn xs⟩
      obtain ⟨p, hp, rfl⟩ := List.mem_map.1 h
      exact (List.of_mem_zip (a := p.1) (b := p.2) hp).1

theorem lookup_zip_getElem {α : Type} {names : List String} {xs : List α} (hn : names.Nodup)
    {k : Nat} (hk : k < names.length) (hx : k < xs.length) :
    (names.zip xs).lookup names[k] = some xs[k] := by
  refine lookup_eq_some_of_mem (nodup_keys_zip hn xs) ?_
  rw [List.mem_iff_getElem]
  exact ⟨k, by simp only [List.length_zip]; omega, by simp⟩

theorem lookup_map_self {α : Type} {names : List String} {v : String} (y : String → α)
    (hv : v ∈ names) : (names.map fun w => (w, y w)).lookup v = some (y v) := by
  induction names with
  | nil => exact nomatch hv
  | cons w names ih =>
    rw [List.map_cons, List.lookup_cons]
    by_cases hvw : v = w
    · simp [hvw]
    · rw [beq_eq_false_iff_ne.2 hvw]
      exact ih (List.mem_of_ne_of_mem hvw hv)

theorem lookup_zip_of_notMem {α : Type} {names : List String} {v : String} (xs : List α)
    (hv : v ∉ names) : (names.zip xs).lookup v = none := by
  refine List.lookup_eq_none_iff.2 fun p hp => ?_
  have hp : p.1 ∈ names := (List.of_mem_zip (a := p.1) (b := p.2) hp).1
  simpa using fun h : v = p.1 => hv (h ▸ hp)

theorem Declaration.bindAll_eq {K : Type} (env : Bindings K) (names : List String)
    (vs : List (Values K)) : bindAll env names vs = (names.zip vs).reverse ++ env := by
  rw [bindAll, List.foldl_flip_cons_eq_append']

def Index.node {n : Nat} (i : Fin n) : Index [n] := cons i nil

def Index.nodeTime {n t : Nat} (i : Fin n) (j : Fin t) : Index [n, t] := cons i (cons j nil)

variable {K : Type} {s : Shape}

def scopeOf (names : List String) (xs : List K) : Scope K :=
  fun v => ((names.zip xs).lookup v).map Cell.double

theorem scopeOf_map {α : Type} (names : List String) (xs : List α) (f : α → K) (v : String) :
    scopeOf names (xs.map f) v = ((names.zip xs).lookup v).map fun x => .double (f x) := by
  have hzip : names.zip (xs.map f) = (names.zip xs).map fun p => (p.1, f p.2) :=
    List.zip_map_right ..
  rw [scopeOf, hzip, lookup_map_snd, Option.map_map]
  rfl

/-- The cells of parameters at a node. -/
def nodeScope {n : Nat} (params : List (String × Grid [n] K)) (i : Fin n) : Scope K :=
  fun v => (params.lookup v).map fun g => .double (g.get (.node i))

theorem inputBindings_hold {names : List String} (hn : names.Nodup) (rows : List (Grid s K)) :
    (Program.inputBindings names rows).Hold fun i => scopeOf names (rows.map (·.get i)) := by
  intro v
  have hzip : names.zip (rows.map Values.ofGrid) =
      (names.zip rows).map fun p => (p.1, Values.ofGrid p.2) := List.zip_map_right ..
  have hlookup : (Program.inputBindings names rows).lookup v =
      ((names.zip rows).lookup v).map Values.ofGrid := by
    rw [Program.inputBindings, Declaration.bindAll_eq, List.append_nil, hzip, ← List.map_reverse,
      lookup_map_snd, lookup_reverse (nodup_keys_zip hn rows)]
  rw [hlookup]
  cases h : (names.zip rows).lookup v with
  | some g => exact ⟨_, Values.holds_ofGrid g, fun i => by simp [scopeOf_map, h]⟩
  | none => exact fun i => by simp [scopeOf_map, h]

theorem hold_map {α : Type} (pairs : List (String × α)) {f : α → Values K}
    {c : α → Index s → Cell K} (h : ∀ x, (f x).Holds (c x)) :
    Bindings.Hold (pairs.map fun p => (p.1, f p.2)) fun i v =>
      (pairs.lookup v).map fun x => c x i := by
  intro v
  rw [lookup_map_snd]
  cases hv : pairs.lookup v with
  | some x => exact ⟨_, h x, fun i => by simp [hv]⟩
  | none => exact fun i => by simp [hv]

variable {n t : Nat}

theorem RunData.nodeBindings_hold [Scalar K] (d : RunData n t K) :
    d.nodeBindings.Hold fun i : Index [n] => nodeScope d.params i.head :=
  hold_map d.params fun g => Values.holds_ofGrid g

theorem Grid.get_reshape_column {α : Type} (g : Grid [n] α)
    (h : Shape.size [n] = Shape.size [n, 1]) (i : Fin n) :
    (g.reshape h).get (.nodeTime i 0) = g.get (.node i) := by
  simp only [Grid.get, Grid.reshape, Fin.getElem_fin, Vector.getElem_cast]
  congr 1

/-- One value per node, repeated over the times. -/
theorem Values.holds_column (g : Grid [n] K) (h : Shape.size [n] = Shape.size [n, 1]) :
    (ofGrid (g.reshape h)).Holds fun i : Index [n, t] => .double (g.get (.node i.head)) := by
  have hf : ∃ a, Shape.alignAxis? 1 t = some a := by
    unfold Shape.alignAxis?
    split
    · exact ⟨_, rfl⟩
    · exact ⟨_, rfl⟩
  obtain ⟨a, ha⟩ := hf
  refine ⟨fun i : Index [n, t] => .nodeTime i.head (a i.tail.head), ?_, fun i => ?_⟩
  · have ht : Shape.lift? [1] [t] = some fun i => Index.cons (a i.head) .nil :=
      (Shape.lift?_cons_cons_eq_some rfl).2 ⟨a, id, ha, rfl, rfl⟩
    have hl : [1].length = [t].length := rfl
    exact (Shape.lift?_cons_cons_eq_some hl).2 ⟨id, _, Shape.alignAxis?_self n, ht, rfl⟩
  · have h₀ : a i.tail.head = 0 := Subsingleton.elim _ _
    show _ = Cell.double ((g.reshape h).get (.nodeTime i.head (a i.tail.head)))
    rw [h₀, g.get_reshape_column h]

theorem RunData.timeBindings_hold [Scalar K] (d : RunData n t K) :
    d.timeBindings.Hold fun i : Index [n, t] => nodeScope d.params i.head :=
  hold_map d.params fun g => Values.holds_column g _

end Catchment
