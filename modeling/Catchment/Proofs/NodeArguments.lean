import Catchment.Proofs.NodewiseRuns
import Catchment.Proofs.PreparedRows

/-!
# Arguments of a node

A value that is given once is the value of every node; a vector gives a node the value in its own
place, or in the place of its class. Arguments that are accepted for several nodes are accepted at
every one of them, and prepare the data of that node.
-/
namespace Catchment

variable {K : Type} [Scalar K] {m n t : Nat}

/-- The place of a node among the values of a vector: its own, or that of its class. -/
def vectorPlace (classes : Option (List Int)) (i : Nat) : Nat :=
  match classes with
  | none => i
  | some classes => (classes.getD i 0).toNat

/-- The value that a node is given. -/
def Nested.atNode (v : Nested K) (classes : Option (List Int)) (i : Nat) : Nested K :=
  match v.toTensor with
  | .ok ⟨[_], g⟩ => g.toList[vectorPlace classes i]?.elim v fun x => .entry (.real x)
  | _ => v

/-- The classes under an index of the nodes, if there is one. -/
def classesUnder (index : Option (Nested K)) (n : Nat) : Option (List Int) :=
  match index.mapM fun index => classIndex index n with
  | .ok classes => classes
  | .error _ => none

/-- The arguments of one of `n` nodes. -/
def RunArguments.atNode (args : RunArguments K) (s : Settings K) (i : Fin n) : RunArguments K where
  params := args.params.map fun p => (p.1, p.2.atNode (classesUnder s.paramIndex n) i)
  states := args.states.map fun p => (p.1, p.2.atNode (classesUnder s.stateIndex n) i)

theorem length_classIndex {index : Nested K} {classes : List Int}
    (h : classIndex index n = .ok classes) : classes.length = n := by
  obtain ⟨given, -, h⟩ := bind_eq_ok.1 h
  split at h
  · simp [mismatched] at h
  · rename_i hshape
    split at h
    · simp [misconfigured] at h
    · have hlen := (mapM_eq_ok.1 h).length_eq
      simp only [Bool.or_eq_true, bne_iff_ne, not_or, not_not] at hshape
      omega

theorem forall₂_filterMap {α β : Type} {f : α → Option β} {xs : List α}
    (h : ∀ x ∈ xs, (f x).isSome) : List.Forall₂ (fun x y => f x = some y) xs (xs.filterMap f) := by
  induction xs with
  | nil => exact .nil
  | cons x xs ih =>
    obtain ⟨y, hy⟩ := Option.isSome_iff_exists.1 (h x List.mem_cons_self)
    rw [List.filterMap_cons_some hy]
    exact .cons hy (ih fun z hz => h z (List.mem_cons_of_mem x hz))

omit [Scalar K] in
theorem forall₂_of_pickClasses {what name : String} {classes : List Int} {values items : List K}
    (h : pickClasses what name classes values = .ok items) :
    List.Forall₂ (fun c x => values[c.toNat]? = some x) classes items := by
  unfold pickClasses at h
  split at h
  · simp [misconfigured] at h
  · rename_i hrange
    obtain rfl := Except.ok.inj h
    refine forall₂_filterMap fun c hc => ?_
    have hin : ¬ (c < 0 ∨ (values.length : Int) ≤ c) := fun hout =>
      hrange (List.any_eq_true.2 ⟨c, hc, by simpa using hout⟩)
    have hlt : c.toNat < values.length := by omega
    simp [hlt]

theorem expandOne_real (what name : String) (x : K) :
    expandOne what name 1 none (.entry (.real x)) = .ok [x] := rfl

/-- A vector has the value of every node at the place of that node. -/
theorem getElem?_vectorPlace {what name : String} {classes : Option (List Int)} {v : Nested K}
    {g : Grid [m] K} {items : List K} (hv : v.toTensor = .ok ⟨[m], g⟩)
    (hclasses : ∀ cs ∈ classes, cs.length = n)
    (h : expandOne what name n classes v = .ok items) (hlen : items.length = n) (i : Fin n) :
    g.toList[vectorPlace classes i]? = items[i.val]? := by
  simp only [expandOne, hv, ok_bind] at h
  cases classes with
  | none =>
    dsimp only at h
    split at h
    · simp [mismatched] at h
    · rw [← Except.ok.inj h]
      rfl
  | some cs =>
    obtain ⟨hcs, hget⟩ := List.forall₂_iff_get.1 (forall₂_of_pickClasses h)
    have hi : i.val < cs.length := by rw [hclasses cs rfl]; exact i.isLt
    have hi' : i.val < items.length := by rw [hlen]; exact i.isLt
    have hplace : vectorPlace (some cs) i = (cs[i.val]).toNat := by
      rw [vectorPlace, List.getD_eq_getElem _ _ hi]
    rw [hplace, List.getElem?_eq_getElem hi']
    exact hget i hi hi'

theorem expandOne_atNode {what name : String} {classes : Option (List Int)} {v : Nested K}
    {items : List K} (hclasses : ∀ cs ∈ classes, cs.length = n)
    (h : expandOne what name n classes v = .ok items) (hlen : items.length = n) (i : Fin n) :
    ∃ x, items[i.val]? = some x ∧ expandOne what name 1 none (v.atNode classes i) = .ok [x] := by
  have hi : i.val < items.length := by rw [hlen]; exact i.isLt
  refine ⟨items[i.val], List.getElem?_eq_getElem hi, ?_⟩
  obtain ⟨⟨shape, g⟩, hv, hshape⟩ := bind_eq_ok.1 h
  cases shape with
  | nil =>
    have hsame : v.atNode classes i = v := by simp only [Nested.atNode, hv]
    have hone : (⟨[], g⟩ : Tensor K).toList.length = 1 := Vector.length_toList
    obtain ⟨x, hx⟩ := List.length_eq_one_iff.1 hone
    have hitems : items = List.replicate n x := by
      dsimp only at hshape
      split at hshape
      · omega
      · simpa [hx] using (Except.ok.inj hshape).symm
    simp only [hsame, expandOne, hv, ok_bind, hx, hitems]
    simp
  | cons m rest =>
    cases rest with
    | nil =>
      have hvalue : v.atNode classes i = .entry (.real items[i.val]) := by
        rw [Nested.atNode, hv]
        dsimp only
        rw [getElem?_vectorPlace hv hclasses h hlen i, List.getElem?_eq_getElem hi]
        rfl
      rw [hvalue, expandOne_real]
    | cons m' rest => simp [mismatched] at hshape

theorem Grid.length_toList {α : Type} (g : Grid [n] α) : g.toList.length = n := by
  simpa [Grid.toList, Shape.size] using g.cells.length_toList

theorem Grid.getElem?_toList {α : Type} (g : Grid [n] α) (i : Fin n) :
    g.toList[i.val]? = some (g.get (.node i)) := by
  have hi : i.val < g.toList.length := by rw [g.length_toList]; exact i.isLt
  have hrank : (Index.node i).rank.val = i.val := Nat.mul_one i.val
  rw [List.getElem?_eq_getElem hi]
  simp only [Grid.get, Grid.toList, Vector.getElem_toList, Fin.getElem_fin, hrank]

omit [Scalar K] in
theorem toList_of_nodeRow {items : List K} {g : Grid [n] K}
    (h : RunData.nodeRow n items = .ok g) : g.toList = items := by
  have h := orFault_eq_ok.1 h
  unfold Grid.ofList? at h
  split at h
  · rw [← Option.some.inj h]
    rfl
  · simp at h

omit [Scalar K] in
theorem nodeRow_single (x : K) : RunData.nodeRow 1 [x] = .ok (Grid.replicate x) := by
  have hone : [x].length = Shape.size [1] := rfl
  rw [RunData.nodeRow, Grid.ofList?, dif_pos hone]
  refine congrArg Except.ok (Grid.ext_get fun j => ?_)
  have hrank : j.rank.val = 0 := Nat.lt_one_iff.1 j.rank.isLt
  simp only [Grid.get, Fin.getElem_fin, hrank]
  rfl

/-- The row of a name over all nodes is, at a node, the row of the value of that node. -/
theorem expandedRow_atNode {what name : String} {index : Option (Nested K)} {v : Nested K}
    {g : Grid [n] K} (h : (do
      let classes ← index.mapM fun index => classIndex index n
      RunData.nodeRow n (← expandOne what name n classes v)) = .ok g) (i : Fin n) :
    (do RunData.nodeRow 1 (← expandOne what name (1 : Nat) none
      (v.atNode (classesUnder index n) i))) = .ok (g.pick (.atNode i)) := by
  obtain ⟨classes, hclasses, h⟩ := bind_eq_ok.1 h
  obtain ⟨items, hitems, h⟩ := bind_eq_ok.1 h
  have hunder : classesUnder index n = classes := by rw [classesUnder, hclasses]
  have hcount : ∀ cs ∈ classes, cs.length = n := by
    rintro cs rfl
    cases index with
    | none => simp at hclasses
    | some index =>
      obtain ⟨cs', hcs, h⟩ := bind_eq_ok.1 hclasses
      obtain rfl := Option.some.inj (Except.ok.inj h)
      exact length_classIndex hcs
  obtain rfl := toList_of_nodeRow h
  obtain ⟨x, hx, hone⟩ := expandOne_atNode hcount hitems g.length_toList i
  have hget : x = g.get (.node i) := Option.some.inj (hx.symm.trans (g.getElem?_toList i))
  rw [hunder, Nat.cast_one, hone, ok_bind, nodeRow_single, hget]
  exact congrArg Except.ok (Grid.ext_get fun j => by simp [Index.atNode])

section

variable {args : RunArguments K} {s : Settings K}

namespace RunArguments

theorem lookup_params_atNode (i : Fin n) (k : String) :
    (args.atNode s i).params.lookup k =
      (args.params.lookup k).map fun v => v.atNode (classesUnder s.paramIndex n) i :=
  lookup_map_snd (fun v : Nested K => v.atNode (classesUnder s.paramIndex n) i) args.params k

theorem lookup_states_atNode (i : Fin n) (v : String) :
    (args.atNode s i).states.lookup v =
      (args.states.lookup v).map fun v => v.atNode (classesUnder s.stateIndex n) i :=
  lookup_map_snd (fun v : Nested K => v.atNode (classesUnder s.stateIndex n) i) args.states v

theorem paramRow_atNode {k : String} {g : Grid [n] K} (h : args.paramRow s n k = .ok g)
    (i : Fin n) :
    (args.atNode s i).paramRow s.withoutClasses 1 k = .ok (g.pick (.atNode i)) := by
  have hrow := expandedRow_atNode h i
  have hvalue : ((args.atNode s i).params.lookup k).getD (.list []) =
      ((args.params.lookup k).getD (.list [])).atNode (classesUnder s.paramIndex n) i := by
    rw [lookup_params_atNode]
    cases args.params.lookup k <;> rfl
  rw [paramRow, hvalue]
  exact hrow

theorem stateRow_atNode {v : String} {g : Grid [n] K} (h : args.stateRow s n v = .ok g)
    (i : Fin n) :
    (args.atNode s i).stateRow s.withoutClasses 1 v = .ok (g.pick (.atNode i)) := by
  have hrow := expandedRow_atNode h i
  have hvalue : initialValue (args.atNode s i).states v =
      (initialValue args.states v).atNode (classesUnder s.stateIndex n) i := by
    rw [initialValue, initialValue, lookup_states_atNode]
    cases args.states.lookup v <;> rfl
  rw [stateRow, hvalue]
  exact hrow

end RunArguments

theorem RunData.prepare_atNode {sig : Signature} {d : RunData n t K} (hnetworks : sig.networks = [])
    (h : prepare sig n t args s = .ok d) (i : Fin n) :
    prepare sig 1 t (args.atNode s i) s.withoutClasses = .ok (d.atNode i) := by
  obtain ⟨htimes, rfl, ⟨hpresent, -, hparams⟩, hweights, -, hstates⟩ := prepare_eq_ok_iff.1 h
  rw [missingNames_eq_nil] at hpresent
  rw [hnetworks] at hweights
  refine prepare_eq_ok_iff.2 ⟨htimes, rfl, ⟨missingNames_eq_nil.2 fun k hk => ?_, ⟨none, rfl⟩, ?_⟩,
    ?_, ⟨none, rfl⟩, ?_⟩
  · rw [RunArguments.lookup_params_atNode, Option.isSome_map]
    exact hpresent k hk
  · refine List.forall₂_map_right_iff.2 (hparams.imp fun k p hp => ?_)
    exact ⟨RunArguments.paramRow_atNode hp.1 i, hp.2⟩
  · rw [hnetworks]
    exact hweights
  · exact List.forall₂_map_right_iff.2 (hstates.imp fun v g hg => RunArguments.stateRow_atNode hg i)

end

end Catchment
