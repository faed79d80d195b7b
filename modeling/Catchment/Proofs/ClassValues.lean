import Catchment.Proofs.IndependentNodes
import Catchment.Proofs.ValueFaults

/-!
# Values of classes

Under an index that uses every class, the value of a class stands at the first node of that class:
values of classes that are expanded over the nodes collapse to themselves, and values of nodes that
are collapsed expand to themselves if and only if nodes of one class never differ. Collapse
refuses an index of integers for one reason only, a class without a node, and names the first.
-/
namespace Catchment

/-- A vector of values. -/
def Tensor.ofVector {α : Type} {n : Nat} (f : Fin n → α) : Tensor α :=
  .ofGrid (Grid.ofFn fun i : Index [n] => f i.head)

namespace Tensor

variable {α : Type} {m n : Nat}

@[simp] theorem shape_ofVector (f : Fin n → α) : (ofVector f).shape = [n] := rfl

@[simp] theorem toList_ofVector (f : Fin n → α) : (ofVector f).toList = List.ofFn f := by
  refine List.ext_getElem? fun i => ?_
  by_cases hi : i < n
  · have hget := (ofVector f).grid.getElem?_toList (n := n) ⟨i, hi⟩
    rw [show (ofVector f).toList[i]? = _ from hget, List.getElem?_ofFn, dif_pos hi]
    exact congrArg some (Grid.get_ofFn _ _)
  · have hlen : (ofVector f).toList.length = n := Grid.length_toList _
    rw [List.getElem?_eq_none (by omega), List.getElem?_eq_none (by simpa using hi)]

theorem ofVector_injective : Function.Injective (ofVector : (Fin n → α) → Tensor α) :=
  fun f g h => List.ofFn_injective (by rw [← toList_ofVector, ← toList_ofVector, h])

theorem ofList?_ofFn (f : Fin n → α) :
    ofList? [(List.ofFn f).length] (List.ofFn f) = some (ofVector f) := by
  obtain ⟨t, ht, hlist⟩ := ofList?_length (List.ofFn f)
  have hshape : t.shape = [(List.ofFn f).length] := by
    obtain ⟨g, -, rfl⟩ := Option.map_eq_some_iff.1 ht
    rfl
  rw [ht]
  exact congrArg some (ext_toList (by simp [hshape]) (by rw [hlist, toList_ofVector]))

/-- The items of a vector at some places are a vector again. -/
theorem pickRows_ofVector (f : Fin n → α) (places : Fin m → Fin n) :
    pickRows (ofVector f) (List.ofFn fun j => (places j).val) = .ok (ofVector (f ∘ places)) := by
  let g : Grid [n] α := Grid.ofFn fun i => f i.head
  have hrows : (List.ofFn fun j => (places j).val).mapM
      (fun i => g.rows[i]?.elim (Except.error Fault.position) .ok) =
        .ok (List.ofFn fun j => g.row (places j)) := by
    rw [mapM_eq_ok, List.forall₂_iff_get]
    refine ⟨by simp, fun i hi hi' => ?_⟩
    simp [Grid.rows]
  refine (congrArg (· >>= _) hrows).trans (congrArg Except.ok ?_)
  refine ofGrid_stack (congrArg List.ofFn (funext fun j => Grid.ext_get fun k => ?_))
  rw [Grid.get_row, Grid.get_row]
  exact (Grid.get_ofFn (fun i : Index [m] => (f ∘ places) i.head) (j, k)).trans
    (Grid.get_ofFn (fun i : Index [n] => f i.head) (places j, k)).symm

end Tensor

variable {K : Type} [Scalar K]

/-- An index of integers: its shape, and its entries in row-major order. -/
def Nested.HoldsIntegers (index : Nested K) (shape : Shape) (entries : List Int) : Prop :=
  ∃ items, index.toIndex = .ok ⟨shape, .integers, items⟩ ∧
    items.mapM Entry.truncate = .ok entries

section

variable {index : Nested K} {shape : Shape} {entries : List Int} {items : List (Entry K)}

omit [Scalar K] in
theorem Nested.whole_of_toIndex (h : index.toIndex = .ok ⟨shape, .integers, items⟩) :
    items ≠ [] ∧ ∀ e ∈ items, ∀ x, e ≠ .real x := by
  obtain ⟨s, -, h⟩ := bind_eq_ok.1 h
  simp only [pure_eq_ok, Except.ok.injEq, IndexArray.mk.injEq] at h
  obtain ⟨-, hformat, rfl⟩ := h
  split at hformat
  · cases hformat
  · split at hformat
    · cases hformat
    · rename_i hreal
      simp only [Bool.or_eq_true, not_or, List.isEmpty_iff] at hreal
      refine ⟨hreal.1, ?_⟩
      rintro e he x rfl
      exact hreal.2 (List.any_eq_true.2 ⟨_, he, rfl⟩)

omit [Scalar K] in
theorem max?_eq_largest (h : entries ≠ []) : entries.max? = some (largest entries) := by
  cases entries with
  | nil => exact absurd rfl h
  | cons c rest => rfl

theorem isClass_eq {k : Nat} {e : Entry K} {c : Int} (hwhole : ∀ x, e ≠ .real x)
    (hc : e.truncate = .ok c) : isClass k e = decide (c = k) := by
  cases e with
  | flag b =>
    rw [isClass, ← Except.ok.inj hc]
    exact decide_eq_decide.2 (by split <;> omega)
  | integer n => simp [isClass, ← Except.ok.inj hc]
  | real x => exact absurd rfl (hwhole x)

/-- A class is found among the items where it stands among the entries. -/
theorem findIdx?_isClass (hwhole : ∀ e ∈ items, ∀ x, e ≠ .real x)
    (h : items.mapM Entry.truncate = .ok entries) (k : Nat) :
    items.findIdx? (isClass k) = entries.findIdx? fun c => decide (c = (k : Int)) := by
  rw [mapM_eq_ok] at h
  induction h with
  | nil => rfl
  | cons hc h ih =>
    obtain ⟨he, hwhole⟩ := List.forall_mem_cons.1 hwhole
    rw [List.findIdx?_cons, List.findIdx?_cons, isClass_eq he hc, ih hwhole]

end

theorem firstsFrom_eq_mapM (items : List (Entry K)) (count k : Nat) :
    firstsFrom items count k = (List.range' k count).mapM fun c =>
      (items.findIdx? (isClass c)).elim (misconfigured (.unusedClass c)) .ok := by
  induction count generalizing k with
  | zero => rfl
  | succ count ih =>
    rw [List.range'_succ, List.mapM_cons, firstsFrom, ih]
    cases items.findIdx? (isClass k) with
    | none => rfl
    | some i => rfl

/-- The first class that is not found is the one that is reported. -/
theorem firstsFrom_eq_error {items : List (Entry K)} {count k : Nat} {f : Fault} :
    firstsFrom items count k = .error f ↔
      ∃ c, k ≤ c ∧ c < k + count ∧ items.findIdx? (isClass c) = none ∧
        (∀ j, k ≤ j → j < c → items.findIdx? (isClass j) ≠ none) ∧
        f = .configuration (.unusedClass c) := by
  induction count generalizing k with
  | zero =>
    rw [firstsFrom]
    constructor
    · exact nofun
    · rintro ⟨c, hk, hc, -⟩
      omega
  | succ count ih =>
    rw [firstsFrom]
    cases hfind : items.findIdx? (isClass k) with
    | none =>
      simp only [misconfigured, Except.error.injEq]
      constructor
      · rintro rfl
        exact ⟨k, le_rfl, by omega, hfind, by omega, rfl⟩
      · rintro ⟨c, hk, -, -, hbefore, rfl⟩
        rcases hk.eq_or_lt with rfl | hlt
        · rfl
        · exact absurd hfind (hbefore k le_rfl hlt)
    | some i =>
      simp only [bind_eq_error, ih, pure_eq_ok, reduceCtorEq, and_false, exists_false, or_false]
      constructor
      · rintro ⟨c, hk, hc, hnone, hbefore, rfl⟩
        refine ⟨c, by omega, by omega, hnone, fun j hj hjc => ?_, rfl⟩
        rcases hj.eq_or_lt with rfl | hlt
        · simp [hfind]
        · exact hbefore j hlt hjc
      · rintro ⟨c, hk, hc, hnone, hbefore, rfl⟩
        have hne : k ≠ c := by
          rintro rfl
          simp [hfind] at hnone
        exact ⟨c, by omega, by omega, hnone, fun j hj => hbefore j (by omega), rfl⟩

/-- The entries of an index that gives every node its class. -/
def classEntries {n k : Nat} (classOf : Fin n → Fin k) : List Int :=
  List.ofFn fun i => ((classOf i).val : Int)

section

variable {index : Nested K} {n k : Nat} {classOf : Fin n → Fin k} {names : List String}

theorem largest_classEntries (hk : 0 < k) (hused : Function.Surjective classOf) :
    largest (classEntries classOf) + 1 = k := by
  obtain ⟨i, hi⟩ := hused ⟨k - 1, by omega⟩
  have hmem (j : Fin n) : ((classOf j).val : Int) ∈ classEntries classOf :=
    List.mem_ofFn.2 ⟨j, rfl⟩
  have hmax := max?_eq_largest (List.ne_nil_of_mem (hmem i))
  rw [List.max?_eq_some_iff] at hmax
  obtain ⟨hlargest, hbound⟩ := hmax
  obtain ⟨j, hj⟩ := List.mem_ofFn.1 hlargest
  have hlast : ((classOf i).val : Int) = (k - 1 : Nat) := by rw [hi]
  have := hbound _ (hmem i)
  have := (classOf j).isLt
  omega

/-- Every class that is used has a first node, and the search finds it. -/
theorem exists_firstOfClasses {items : List (Entry K)} (hused : Function.Surjective classOf)
    (hwhole : ∀ e ∈ items, ∀ x, e ≠ .real x)
    (h : items.mapM Entry.truncate = .ok (classEntries classOf)) :
    ∃ first : Fin k → Fin n, (∀ c, classOf (first c) = c) ∧
      firstOfClasses items k = .ok (List.ofFn fun c => (first c).val) := by
  have hfind (c : Fin k) :
      ∃ i : Fin n, classOf i = c ∧ items.findIdx? (isClass c.val) = some i.val := by
    obtain ⟨i, hi⟩ := hused c
    have hmem : ((c.val : Nat) : Int) ∈ classEntries classOf :=
      List.mem_ofFn.2 ⟨i, by rw [hi]⟩
    have hsome : ((classEntries classOf).findIdx? fun d => decide (d = (c.val : Int))).isSome :=
      List.findIdx?_isSome.trans (List.any_eq_true.2 ⟨_, hmem, by simp⟩)
    obtain ⟨j, hj⟩ := Option.isSome_iff_exists.1 hsome
    obtain ⟨hlt, hclass, -⟩ := List.findIdx?_eq_some_iff_getElem.1 hj
    have hlt' : j < n := by simpa [classEntries] using hlt
    refine ⟨⟨j, hlt'⟩, ?_, by rw [findIdx?_isClass hwhole h, hj]⟩
    simpa [classEntries, Fin.ext_iff] using hclass
  choose first hclass hfirst using hfind
  refine ⟨first, hclass, ?_⟩
  rw [firstOfClasses, firstsFrom_eq_mapM, mapM_eq_ok, List.forall₂_iff_get]
  refine ⟨by simp, fun c hc hc' => ?_⟩
  have hck : c < k := by simpa using hc'
  simp [hfirst ⟨c, hck⟩]

omit [Scalar K] in
theorem pickClasses_classEntries (what name : String) (f : Fin k → K) :
    pickClasses what name (classEntries classOf) (List.ofFn f) =
      .ok (List.ofFn (f ∘ classOf)) := by
  have hrange : ((classEntries classOf).any fun c =>
      c < 0 || ((List.ofFn f).length : Int) ≤ c) = false := by
    simp [classEntries, List.any_eq_false, List.mem_ofFn]
  rw [pickClasses, hrange]
  simp [classEntries, List.ofFn_eq_map, List.filterMap_map, Function.comp_def]

/-- Nodes take the value of their class. -/
theorem expandParams_ofVector {values : List (String × Nested K)} (vector : String → Fin k → K)
    (h : index.HoldsIntegers [n] (classEntries classOf))
    (hvalues : ∀ name ∈ names, ∃ v, values.lookup name = some v ∧
      v.toTensor = .ok (.ofVector (vector name))) :
    expandParams values names (some n) (some index) =
      .ok (names.map fun name => (name, .ofVector (vector name ∘ classOf))) := by
  have hpresent : missingNames values names = [] := missingNames_eq_nil.2 fun name hname => by
    obtain ⟨v, hv, -⟩ := hvalues name hname
    simp [hv]
  have hclasses : classIndex index n = .ok (classEntries classOf) := by
    obtain ⟨items, hread, hentries⟩ := h
    have hlen : items.length = n :=
      (mapM_eq_ok.1 hentries).length_eq.trans (by simp [classEntries])
    simp [classIndex, hread, hlen, hentries]
  simp only [expandParams, hpresent, Option.mapM_some, hclasses]
  refine mapM_eq_ok_map.2 fun name hname => ?_
  obtain ⟨v, hv, hvector⟩ := hvalues name hname
  simp only [expandOne, hv, Option.getD_some, hvector, ok_bind, Tensor.shape_ofVector,
    Tensor.toList_ofVector, pickClasses_classEntries, Tensor.ofList?_ofFn, Option.elim_some,
    pure_eq_ok]

/-- The number of classes that collapse goes by: as given, or one more than the largest entry. -/
theorem collapseParams_eq {shape : Shape} {entries : List Int} {items : List (Entry K)}
    (hread : index.toIndex = .ok ⟨shape, .integers, items⟩)
    (hentries : items.mapM Entry.truncate = .ok entries) (values : List (String × Nested K))
    (classes : Option Int) :
    collapseParams values index classes = (do
      let first ← firstOfClasses items (classes.getD (entries.max?.elim 0 (· + 1)))
      values.mapM fun p => do return (p.1, ← pickRows (← p.2.toTensor) first)) := by
  have hne : entries ≠ [] := by
    rintro rfl
    exact (Nested.whole_of_toIndex hread).1
      (List.length_eq_zero_iff.1 (mapM_eq_ok.1 hentries).length_eq)
  rw [collapseParams, hread, ok_bind]
  cases classes with
  | some count => rfl
  | none =>
    have hlargest : largestEntry ⟨shape, .integers, items⟩ = .ok (largest entries) := by
      cases hitems : items with
      | nil => exact absurd hitems (Nested.whole_of_toIndex hread).1
      | cons e rest => simp [largestEntry, ← hitems, hentries]
    rw [max?_eq_largest hne]
    dsimp only
    rw [hlargest]
    rfl

/-- Classes take the value of their first node. -/
theorem collapseParams_ofVector (names : List String)
    (h : index.HoldsIntegers [n] (classEntries classOf)) (hk : 0 < k)
    (hused : Function.Surjective classOf) :
    ∃ first : Fin k → Fin n, (∀ c, classOf (first c) = c) ∧
      ∀ (given : String → Nested K) (vector : String → Fin n → K),
        (∀ name ∈ names, (given name).toTensor = .ok (.ofVector (vector name))) →
        ∀ classes ∈ [none, some (k : Int)],
          collapseParams (names.map fun name => (name, given name)) index classes =
            .ok (names.map fun name => (name, .ofVector (vector name ∘ first))) := by
  obtain ⟨items, hread, hentries⟩ := h
  obtain ⟨-, hwhole⟩ := Nested.whole_of_toIndex hread
  obtain ⟨first, hclass, hfirst⟩ := exists_firstOfClasses hused hwhole hentries
  have hmax : (classEntries classOf).max?.elim 0 (· + 1) = (k : Int) := by
    obtain ⟨i, -⟩ := hused ⟨0, hk⟩
    have hne : classEntries classOf ≠ [] := List.ne_nil_of_mem (List.mem_ofFn.2 ⟨i, rfl⟩)
    rw [max?_eq_largest hne]
    exact largest_classEntries hk hused
  refine ⟨first, hclass, fun given vector hgiven classes hclasses => ?_⟩
  have hcount : classes.getD ((classEntries classOf).max?.elim 0 (· + 1)) = (k : Int) := by
    rw [hmax]
    rcases List.mem_pair.1 hclasses with rfl | rfl
    · rfl
    · rfl
  rw [collapseParams_eq hread hentries, hcount, hfirst, ok_bind, mapM_eq_ok,
    List.forall₂_map_left_iff, List.forall₂_map_right_iff, List.forall₂_same]
  intro name hname
  simp only [hgiven name hname, ok_bind, Tensor.pickRows_ofVector, pure_eq_ok]

end

section

omit [Scalar K]

mutual

theorem Nested.failsWith_shape : (a : Nested K) → FailsWith Fault.OfValue a.shape
  | .entry _ => by simp [Nested.shape]
  | .text _ => by simp [Nested.shape]
  | .tensor _ => by simp [Nested.shape]
  | .list items => by
    rw [Nested.shape, FailsWith.bind_iff]
    refine ⟨failsWith_shapes items, fun shapes _ => ?_⟩
    split
    · simp
    · split
      · simp
      · simp [Fault.OfValue]

theorem Nested.failsWith_shapes :
    (items : List (Nested K)) → FailsWith Fault.OfValue (Nested.shape.shapes items)
  | [] => by simp [Nested.shape.shapes]
  | a :: items => by
    simp only [Nested.shape.shapes, FailsWith.bind_iff]
    exact ⟨failsWith_shape a, fun _ _ => ⟨failsWith_shapes items, by simp⟩⟩

end

end

/-- Only a value is at fault where nested lists are no array. -/
theorem Nested.failsWith_toTensor (a : Nested K) : FailsWith Fault.OfValue a.toTensor := by
  unfold toTensor
  split
  · simp
  · simp only [FailsWith.bind_iff]
    refine ⟨a.failsWith_shape, fun s _ => ⟨FailsWith.mapM fun e _ => ?_, fun items _ => ?_⟩⟩
    · cases e with
      | none => simp [Fault.OfValue]
      | some e =>
        cases e with
        | flag b => simp [Entry.toReal]
        | integer m => exact failsWith_numberOf m
        | real x => simp [Entry.toReal]
    · cases Tensor.ofList? s items <;> simp [Fault.OfValue]

omit [Scalar K] in
theorem failsWith_pickRows (t : Tensor K) (places : List Nat) :
    FailsWith Fault.OfValue (pickRows t places) := by
  obtain ⟨shape, g⟩ := t
  cases shape with
  | nil => simp [pickRows, Fault.OfValue]
  | cons m s =>
    simp only [pickRows, FailsWith.bind_iff]
    refine ⟨FailsWith.mapM fun i _ => ?_, by simp⟩
    cases g.rows[i]? <;> simp [Fault.OfValue]

section

variable {index : Nested K} {shape : Shape} {entries : List Int}

/-- The configuration is at fault for the first class without an entry, and for nothing else. -/
theorem collapseParams_eq_misconfigured (h : index.HoldsIntegers shape entries)
    (values : List (String × Nested K)) (classes : Option Int) (cause : Misconfiguration) :
    collapseParams values index classes = misconfigured cause ↔
      ∃ c : Nat, (c : Int) < classes.getD (entries.max?.elim 0 (· + 1)) ∧ (c : Int) ∉ entries ∧
        (∀ j < c, (j : Int) ∈ entries) ∧ cause = .unusedClass c := by
  obtain ⟨items, hread, hentries⟩ := h
  obtain ⟨-, hwhole⟩ := Nested.whole_of_toIndex hread
  have habsent (c : Nat) : items.findIdx? (isClass c) = none ↔ (c : Int) ∉ entries := by
    rw [findIdx?_isClass hwhole hentries, List.findIdx?_eq_none_iff]
    simp only [decide_eq_false_iff_not]
    exact ⟨fun hnot hmem => hnot _ hmem rfl, fun hmem d hd hdc => hmem (hdc ▸ hd)⟩
  have hlater : ¬ ∃ first, firstOfClasses items (classes.getD (entries.max?.elim 0 (· + 1))) =
      .ok first ∧ (values.mapM fun p => do
        return (p.1, ← pickRows (← p.2.toTensor) first)) = .error (.configuration cause) := by
    rintro ⟨first, -, hf⟩
    refine (FailsWith.mapM (P := Fault.OfValue) fun p _ => ?_) _ hf
    simp only [FailsWith.bind_iff]
    exact ⟨p.2.failsWith_toTensor, fun t _ => ⟨failsWith_pickRows t first, by simp⟩⟩
  rw [collapseParams_eq hread hentries, misconfigured, bind_eq_error, or_iff_left hlater,
    firstOfClasses, firstsFrom_eq_error]
  simp only [habsent, ne_eq, not_not, Nat.zero_le, true_and, true_implies, Nat.zero_add,
    Int.lt_toNat, Fault.configuration.injEq]

/-- Under an index that uses every class, collapse takes expanded values of classes back to these,
and expansion takes collapsed values of nodes back to these exactly if they are constant on every
class. Under any index of integers collapse ends in a fault of the configuration exactly if some
class has no node, for the first such class. -/
theorem collapse_inverts_expansion (h : index.HoldsIntegers shape entries) :
    (∀ {n k : Nat} (classOf : Fin n → Fin k), 0 < k → Function.Surjective classOf →
      shape = [n] → entries = classEntries classOf → ∀ names : List String,
      (∀ (values : List (String × Nested K)) (vector : String → Fin k → K),
        (∀ name ∈ names, ∃ v, values.lookup name = some v ∧
          v.toTensor = .ok (.ofVector (vector name))) →
        ∃ expanded, expandParams values names (some n) (some index) = .ok expanded ∧
          ∀ classes ∈ [none, some (k : Int)],
            collapseParams (expanded.map fun p => (p.1, .ofTensor p.2)) index classes =
              .ok (names.map fun name => (name, .ofVector (vector name)))) ∧
      (∀ (given : String → Nested K) (vector : String → Fin n → K),
        (∀ name ∈ names, (given name).toTensor = .ok (.ofVector (vector name))) →
        ∀ classes ∈ [none, some (k : Int)], ∃ collapsed expanded,
          collapseParams (names.map fun name => (name, given name)) index classes =
            .ok collapsed ∧
          expandParams (collapsed.map fun p => (p.1, .ofTensor p.2)) names (some n) (some index) =
            .ok expanded ∧
          (expanded = names.map (fun name => (name, .ofVector (vector name))) ↔
            ∀ name ∈ names, ∀ i j, classOf i = classOf j → vector name i = vector name j))) ∧
    ∀ (values : List (String × Nested K)) (classes : Option Int) (cause : Misconfiguration),
      collapseParams values index classes = misconfigured cause ↔
        ∃ c : Nat, (c : Int) < classes.getD (entries.max?.elim 0 (· + 1)) ∧ (c : Int) ∉ entries ∧
          (∀ j < c, (j : Int) ∈ entries) ∧ cause = .unusedClass c := by
  refine ⟨?_, collapseParams_eq_misconfigured h⟩
  rintro n k classOf hk hused rfl rfl names
  obtain ⟨first, hclass, hcollapse⟩ := collapseParams_ofVector names h hk hused
  constructor
  · intro values vector hvalues
    refine ⟨_, expandParams_ofVector vector h hvalues, fun classes hclasses => ?_⟩
    rw [List.map_map]
    refine (hcollapse _ _ (fun _ _ => rfl) classes hclasses).trans ?_
    have hback (name : String) : (vector name ∘ classOf) ∘ first = vector name :=
      funext fun c => congrArg (vector name) (hclass c)
    simp only [hback]
  · intro given vector hgiven classes hclasses
    refine ⟨_, _, hcollapse given vector hgiven classes hclasses,
      expandParams_ofVector (fun name => vector name ∘ first) h fun name hname => ?_, ?_⟩
    · rw [List.map_map]
      exact ⟨_, lookup_map_self _ hname, rfl⟩
    · rw [List.map_inj_left]
      refine forall₂_congr fun name _ => ?_
      rw [Prod.mk.injEq, Tensor.ofVector_injective.eq_iff, and_iff_right rfl, funext_iff]
      constructor
      -- the first node of a class stands for every node of it
      · intro hfirst i j hij
        calc vector name i = vector name (first (classOf i)) := (hfirst i).symm
          _ = vector name (first (classOf j)) := by rw [hij]
          _ = vector name j := hfirst j
      · intro hconstant i
        exact hconstant _ i (hclass (classOf i))

end

def threeNodes : Nested Float := .list [.entry (.integer 1), .entry (.integer 0),
  .entry (.integer 1)]

theorem threeNodes_holds : threeNodes.HoldsIntegers [3] (classEntries ![(1 : Fin 2), 0, 1]) :=
  ⟨[.integer 1, .integer 0, .integer 1], rfl, rfl⟩

theorem threeNodes_collapse :
    (∃ expanded,
      expandParams [("smax", .ofTensor (.ofVector ![(60.0 : Float), 90.0]))] ["smax"]
        (some (3 : Nat)) (some threeNodes) = .ok expanded ∧
      collapseParams (expanded.map fun p => (p.1, .ofTensor p.2)) threeNodes none =
        .ok [("smax", .ofVector ![60.0, 90.0])]) ∧
    collapseParams [] threeNodes (some 4) = misconfigured (.unusedClass 2) := by
  have hmain := collapse_inverts_expansion threeNodes_holds
  constructor
  · obtain ⟨expanded, hexpanded, hback⟩ := (hmain.1 (n := 3) (k := 2) ![1, 0, 1] (by decide)
      (by decide) rfl rfl ["smax"]).1 [("smax", .ofTensor (.ofVector ![60.0, 90.0]))]
      (fun _ => ![60.0, 90.0]) (by simp [Nested.toTensor, Nested.ofTensor])
    exact ⟨expanded, hexpanded, hback none (by simp)⟩
  · exact (hmain.2 [] (some 4) (.unusedClass 2)).2 ⟨2, by decide, by decide, by decide, rfl⟩

end Catchment
