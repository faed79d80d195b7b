import Catchment.Proofs.ClassValues

/-!
# Expanded values

Values are expanded over the nodes if and only if every name has one, the index is a vector of
integers of the length of the nodes, and every value is one number, or a number for each node where
there is no index, or one for each of the classes that the index refers to. If the index refers to a
class that a vector does not have, its largest entry is reported, though a negative one may be at
fault.
-/
namespace Catchment

variable {K : Type} [Scalar K]

def IndexFor (nodes : Nat) : Option (Nested K) → Option (List Int) → Prop
  | none, none => True
  | some index, some classes =>
    ∃ shape, index.HoldsIntegers shape classes ∧ shape.length = 1 ∧ classes.length = nodes
  | _, _ => False

def Expandable {α : Type} (nodes : Nat) (classes : Option (List Int)) (v : Tensor α) : Prop :=
  v.shape = [] ∨ (classes = none ∧ v.shape = [nodes]) ∨
    ∃ cs k, classes = some cs ∧ v.shape = [k] ∧ ∀ c ∈ cs, 0 ≤ c ∧ c < (k : Int)

theorem classIndex_eq_ok {index : Nested K} {nodes : Nat} {classes : List Int} :
    classIndex index nodes = .ok classes ↔ ∃ shape, index.HoldsIntegers shape classes ∧
      shape.length = 1 ∧ classes.length = nodes := by
  unfold classIndex
  constructor
  · intro h
    obtain ⟨⟨shape, format, items⟩, hread, h⟩ := bind_eq_ok.1 h
    split at h
    · simp [mismatched] at h
    · rename_i hcount
      split at h
      · simp [misconfigured] at h
      · rename_i hformat
        simp only [Bool.or_eq_true, bne_iff_ne, ne_eq, not_or, not_not] at hcount hformat
        obtain ⟨hrank, hcount⟩ := hcount
        have hlen := (mapM_eq_ok.1 h).length_eq
        exact ⟨shape, ⟨items, hformat ▸ hread, h⟩, hrank, hlen ▸ Int.ofNat.inj hcount⟩
  · rintro ⟨shape, ⟨items, hread, hentries⟩, hrank, hlen⟩
    have hitems : items.length = nodes := (mapM_eq_ok.1 hentries).length_eq.trans hlen
    simp [hread, hrank, hitems, hentries]

theorem index_mapM_eq_ok {index : Option (Nested K)} {nodes : Nat} {classes : Option (List Int)} :
    (index.mapM fun i => classIndex i nodes) = .ok classes ↔ IndexFor nodes index classes := by
  cases index with
  | none => cases classes <;> simp [IndexFor]
  | some i =>
    rw [Option.mapM_some]
    cases classes with
    | none => cases classIndex i nodes <;> simp [IndexFor]
    | some cs =>
      rw [IndexFor, ← classIndex_eq_ok]
      cases classIndex i nodes <;> simp

section

variable {what name : String} {nodes : Nat}

omit [Scalar K] in
theorem pickClasses_accepts {classes : List Int} {values : List K} :
    (∃ xs, pickClasses what name classes values = .ok xs) ↔
      ∀ c ∈ classes, 0 ≤ c ∧ c < (values.length : Int) := by
  have hany : (classes.any fun c => c < 0 || (values.length : Int) ≤ c) = false ↔
      ∀ c ∈ classes, 0 ≤ c ∧ c < (values.length : Int) := by
    simp [List.any_eq_false]
  rw [pickClasses, ← hany]
  cases classes.any fun c => c < 0 || (values.length : Int) ≤ c <;> simp [misconfigured]

/-- A value is expanded if and only if it is expandable. -/
theorem expandOne_accepts {classes : Option (List Int)} {value : Nested K} :
    (∃ xs, expandOne what name nodes classes value = .ok xs) ↔
      ∃ v, value.toTensor = .ok v ∧ Expandable nodes classes v := by
  unfold expandOne
  cases hvalue : value.toTensor with
  | error f => simp
  | ok v =>
    obtain ⟨shape, g⟩ := v
    simp only [ok_bind, Except.ok.injEq, exists_eq_left', Expandable]
    rcases shape with _ | ⟨k, _ | ⟨k', rest⟩⟩
    · have hnodes : ¬ (nodes : Int) < 0 := by omega
      simp [hnodes]
    · have hsize : (Tensor.mk [k] g).toList.length = k := Grid.length_toList g
      cases classes with
      | none =>
        by_cases hk : k = nodes <;> simp [hk, mismatched]
      | some cs => simp [pickClasses_accepts, hsize]
    · simp [mismatched]

end

def expandedValue (values : List (String × Nested K)) (nodes : Nat) (classes : Option (List Int))
    (name : String) : Except Fault (String × Tensor K) := do
  let items ← expandOne "Parameter" name nodes classes ((values.lookup name).getD (.list []))
  return (name, ← (Tensor.ofList? [items.length] items).elim (.error .value) .ok)

theorem expandParams_eq {values : List (String × Nested K)} {names : List String} {nodes : Nat}
    {index : Option (Nested K)} (hpresent : ∀ name ∈ names, (values.lookup name).isSome = true) :
    expandParams values names (some nodes) index =
      (index.mapM fun i => classIndex i nodes) >>= fun classes =>
        names.mapM (expandedValue values nodes classes) := by
  rw [expandParams, missingNames_eq_nil.2 hpresent]
  rfl

theorem expandParams_of_missing {values : List (String × Nested K)} {names : List String}
    (h : ¬ ∀ name ∈ names, (values.lookup name).isSome = true) (nodes : Option Int)
    (index : Option (Nested K)) : ∃ first others,
      expandParams values names nodes index = misconfigured (.missingParameter first others) := by
  rw [← missingNames_eq_nil] at h
  obtain ⟨first, others, hmissing⟩ := List.exists_cons_of_ne_nil h
  exact ⟨first, others, by rw [expandParams, hmissing]⟩

theorem expandedValue_accepts {values : List (String × Nested K)} {nodes : Nat}
    {classes : Option (List Int)} {name : String} {value : Nested K}
    (hvalue : values.lookup name = some value) :
    (∃ p, expandedValue values nodes classes name = .ok p) ↔
      ∃ v, value.toTensor = .ok v ∧ Expandable nodes classes v := by
  have hone : (∃ xs, expandOne "Parameter" name nodes classes value = .ok xs) ↔
      ∃ v, value.toTensor = .ok v ∧ Expandable nodes classes v := expandOne_accepts
  rw [← hone, expandedValue, hvalue, Option.getD_some]
  cases expandOne "Parameter" name nodes classes value with
  | error f => simp
  | ok items =>
    obtain ⟨t, ht, -⟩ := Tensor.ofList?_length items
    simp [ht]

/-- Values are expanded over the nodes if and only if every name has one, the index gives every node
its class if there is one, and every value is expandable. -/
theorem expandParams_accepts {values : List (String × Nested K)} {names : List String} {nodes : Nat}
    {index : Option (Nested K)} :
    (∃ out, expandParams values names (some nodes) index = .ok out) ↔
      (∀ name ∈ names, (values.lookup name).isSome = true) ∧
        ∃ classes, IndexFor nodes index classes ∧ ∀ name ∈ names, ∃ value v,
          values.lookup name = some value ∧ value.toTensor = .ok v ∧
            Expandable nodes classes v := by
  by_cases hpresent : ∀ name ∈ names, (values.lookup name).isSome = true
  · have hvalues (classes : Option (List Int)) :
        (∃ out, names.mapM (expandedValue values nodes classes) = .ok out) ↔
          ∀ name ∈ names, ∃ value v, values.lookup name = some value ∧
            value.toTensor = .ok v ∧ Expandable nodes classes v := by
      rw [exists_mapM_eq_ok]
      refine forall₂_congr fun name hname => ?_
      obtain ⟨value, hvalue⟩ := Option.isSome_iff_exists.1 (hpresent name hname)
      rw [expandedValue_accepts hvalue]
      simp [hvalue]
    rw [expandParams_eq hpresent]
    simp only [bind_eq_ok, index_mapM_eq_ok, ← hvalues]
    constructor
    · rintro ⟨out, classes, hclasses, hout⟩
      exact ⟨hpresent, classes, hclasses, out, hout⟩
    · rintro ⟨-, classes, hclasses, out, hout⟩
      exact ⟨out, classes, hclasses, hout⟩
  · refine iff_of_false ?_ fun h => hpresent h.1
    obtain ⟨first, others, hmissing⟩ := expandParams_of_missing hpresent (some nodes) index
    rintro ⟨out, hout⟩
    simp [hmissing, misconfigured] at hout

def OutsideRange (k : Nat) (c : Int) : Prop := ¬ (0 ≤ c ∧ c < (k : Int))

instance (k : Nat) (c : Int) : Decidable (OutsideRange k c) := inferInstanceAs (Decidable (¬ _))

def Fault.IsClassRange : Fault → Prop
  | .configuration (.classRange ..) => True
  | _ => False

theorem Fault.OfValue.not_isClassRange {f : Fault} (h : f.OfValue) : ¬ f.IsClassRange := by
  cases f with
  | configuration cause => exact h.elim
  | _ => exact not_false

/-- The largest entry is out of range exactly if some entry is too large or if all are negative. -/
theorem outsideRange_largest_iff {classes : List Int} {k : Nat} (hne : classes ≠ []) :
    OutsideRange k (largest classes) ↔
      (∃ c ∈ classes, (k : Int) ≤ c) ∨ ∀ c ∈ classes, c < 0 := by
  obtain ⟨hmem, hbound⟩ := List.max?_eq_some_iff.1 (max?_eq_largest hne)
  constructor
  · intro h
    by_cases hlow : largest classes < 0
    · exact .inr fun c hc => (hbound c hc).trans_lt hlow
    · exact .inl ⟨_, hmem, by unfold OutsideRange at h; omega⟩
  · rintro (⟨c, hc, hk⟩ | hlow) ⟨hlarge, hsmall⟩
    · exact absurd (hk.trans (hbound c hc)) (by omega)
    · exact absurd (hlow _ hmem) (by omega)

/-- A value is a vector without some of the classes, and the fault names the largest of these. -/
def RangeFault (what name : String) (classes : Option (List Int)) (value : Nested K)
    (f : Fault) : Prop :=
  ∃ cs v k, classes = some cs ∧ value.toTensor = .ok v ∧ v.shape = [k] ∧
    (∃ c ∈ cs, OutsideRange k c) ∧ f = .configuration (.classRange what name k (largest cs))

section

variable {what name : String} {nodes : Nat} {f : Fault}

omit [Scalar K] in
theorem pickClasses_eq_error {classes : List Int} {values : List K} :
    pickClasses what name classes values = .error f ↔
      (∃ c ∈ classes, OutsideRange values.length c) ∧
        f = .configuration (.classRange what name values.length (largest classes)) := by
  have hany : (classes.any fun c => c < 0 || (values.length : Int) ≤ c) = true ↔
      ∃ c ∈ classes, OutsideRange values.length c := by
    simp only [List.any_eq_true, Bool.or_eq_true, decide_eq_true_eq, OutsideRange, not_and_or,
      not_le, not_lt]
  rw [pickClasses, ← hany]
  cases classes.any fun c => c < 0 || (values.length : Int) ≤ c <;> simp [misconfigured, eq_comm]

theorem classIndex_not_isClassRange (index : Nested K) (nodes : Int) :
    FailsWith (fun f => ¬ f.IsClassRange) (classIndex index nodes) := by
  have hread : FailsWith Fault.OfValue index.toIndex := by
    simp only [Nested.toIndex, FailsWith.bind_iff]
    exact ⟨index.failsWith_shape, by simp⟩
  have htruncate (e : Entry K) : FailsWith Fault.OfValue e.truncate := by
    cases e with
    | flag b => exact FailsWith.ok _
    | integer n => exact FailsWith.ok _
    | real x => exact failsWith_wholeOf _ _
  rw [classIndex, FailsWith.bind_iff]
  refine ⟨hread.mono fun _ => Fault.OfValue.not_isClassRange, fun given _ => ?_⟩
  refine .ite ?_ (.ite ?_ ((FailsWith.mapM fun e _ => htruncate e).mono fun _ =>
    Fault.OfValue.not_isClassRange))
  · simp [mismatched, Fault.IsClassRange]
  · simp [misconfigured, Fault.IsClassRange]

/-- Only a vector of values of classes is refused for the range of the index. -/
theorem expandOne_classRange {classes : Option (List Int)} {value : Nested K}
    (h : expandOne what name nodes classes value = .error f) (hrange : f.IsClassRange) :
    RangeFault what name classes value f := by
  rw [expandOne, bind_eq_error] at h
  obtain h | ⟨⟨shape, g⟩, hvalue, h⟩ := h
  · exact ((value.failsWith_toTensor f h).not_isClassRange hrange).elim
  rcases shape with _ | ⟨k, _ | ⟨k', rest⟩⟩
  · have hnodes : ¬ (nodes : Int) < 0 := by omega
    simp [hnodes] at h
  · cases classes with
    | none =>
      by_cases hk : k = nodes
      · simp [hk] at h
      · have hk : ¬ (k : Int) = nodes := by omega
        simp only [bne_iff_ne, ne_eq, hk, not_false_eq_true, ↓reduceIte, mismatched,
          Except.error.injEq] at h
        exact (h ▸ hrange).elim
    | some cs =>
      have hsize : (Tensor.mk [k] g).toList.length = k := Grid.length_toList g
      obtain ⟨hout, hf⟩ := pickClasses_eq_error.1 h
      exact ⟨cs, _, k, rfl, hvalue, rfl, hsize ▸ hout, hsize ▸ hf⟩
  · exact ((Except.error.inj h : _ = f) ▸ hrange).elim

end

theorem expandedValue_classRange {values : List (String × Nested K)} {nodes : Nat}
    {classes : Option (List Int)} {name : String} {value : Nested K} {f : Fault}
    (hvalue : values.lookup name = some value)
    (h : expandedValue values nodes classes name = .error f) (hrange : f.IsClassRange) :
    RangeFault "Parameter" name classes value f := by
  rw [expandedValue, hvalue, Option.getD_some, bind_eq_error] at h
  obtain h | ⟨items, -, h⟩ := h
  · exact expandOne_classRange h hrange
  · obtain ⟨t, ht, -⟩ := Tensor.ofList?_length items
    simp [ht] at h

/-- If values are refused for the range of the index, the index gives every node its class, one of
the values is a vector without some of these classes, and the largest entry of the index is
reported. It is such a class exactly if some entry is too large or if all are negative. -/
theorem expandParams_classRange {values : List (String × Nested K)} {names : List String}
    {nodes k : Nat} {index : Option (Nested K)} {what name : String} {worst : Int}
    (h : expandParams values names (some nodes) index =
      .error (.configuration (.classRange what name k worst))) :
    what = "Parameter" ∧ name ∈ names ∧ ∃ classes value v, IndexFor nodes index (some classes) ∧
      values.lookup name = some value ∧ value.toTensor = .ok v ∧ v.shape = [k] ∧
      (∃ c ∈ classes, OutsideRange k c) ∧ classes.max? = some worst ∧
      (OutsideRange k worst ↔ (∃ c ∈ classes, (k : Int) ≤ c) ∨ ∀ c ∈ classes, c < 0) := by
  by_cases hpresent : ∀ name ∈ names, (values.lookup name).isSome = true
  · rw [expandParams_eq hpresent, bind_eq_error] at h
    obtain h | ⟨classes, hindex, h⟩ := h
    · cases index with
      | none => simp at h
      | some i =>
        have hclass : classIndex i nodes =
            .error (.configuration (.classRange what name k worst)) := by
          rw [Option.mapM_some] at h
          cases hi : classIndex i nodes with
          | ok cs => simp [hi] at h
          | error f => simpa [hi] using h
        exact (classIndex_not_isClassRange i nodes _ hclass trivial).elim
    · have hfail : FailsWith (fun f => f.IsClassRange → ∃ name ∈ names, ∃ value,
          values.lookup name = some value ∧ RangeFault "Parameter" name classes value f)
          (names.mapM (expandedValue values nodes classes)) := by
        refine FailsWith.mapM fun name hname f hf hrange => ?_
        obtain ⟨value, hvalue⟩ := Option.isSome_iff_exists.1 (hpresent name hname)
        exact ⟨name, hname, value, hvalue, expandedValue_classRange hvalue hf hrange⟩
      obtain ⟨name', hname, value, hvalue, cs, v, k', rfl, hv, hshape, hout, hf⟩ :=
        hfail _ h trivial
      simp only [Fault.configuration.injEq, Misconfiguration.classRange.injEq] at hf
      obtain ⟨rfl, rfl, rfl, rfl⟩ := hf
      have hne : cs ≠ [] := List.ne_nil_of_mem hout.choose_spec.1
      exact ⟨rfl, hname, cs, value, v, index_mapM_eq_ok.1 hindex, hvalue, hv, hshape, hout,
        max?_eq_largest hne, outsideRange_largest_iff hne⟩
  · obtain ⟨first, others, hmissing⟩ := expandParams_of_missing hpresent (some nodes) index
    simp [hmissing, misconfigured] at h

/-- Where a negative class is at fault, the fault names a class in range. -/
theorem negative_class_unreported :
    expandParams [("k", .ofTensor (.ofVector ![(1.0 : Float), 2.0]))] ["k"] (some (2 : Nat))
        (some (.list [.entry (.integer (-1)), .entry (.integer 0)])) =
      misconfigured (.classRange "Parameter" "k" 2 0) ∧
    OutsideRange 2 (-1) ∧ ¬ OutsideRange 2 0 :=
  ⟨by rfl, by decide, by decide⟩

end Catchment
