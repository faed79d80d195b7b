import Catchment.FlowGrid
import Catchment.Proofs.ExactArithmetic
import Catchment.Proofs.Outcomes
import Catchment.Proofs.Tributaries

/-!
# Totals of flow

In exact arithmetic the nodes of a network together receive what each node gives, once for every
distinct node that it drains into. So the total of what the nodes give that are no outlets arrives,
whatever they give, exactly if no node drains into two nodes. Acceptance does not ask for that: a
node of an accepted network may drain into several. On a flow direction grid no node does.
-/
namespace Catchment

namespace Topology

variable {t : Topology} {n : Nat}

def downstream (t : Topology) (n j : Nat) : List (Fin n) :=
  (List.finRange n).filter fun i => t.drains j i

/-- Each node drains into at most one node. -/
def Unbranched (t : Topology) : Prop :=
  ∀ j i i' : Fin t.size, t.drains j i = true → t.drains j i' = true → i = i'

instance (t : Topology) : Decidable t.Unbranched :=
  inferInstanceAs (Decidable (∀ j i i' : Fin t.size, t.drains j i = true →
    t.drains j i' = true → i = i'))

theorem mem_downstream {j : Nat} {i : Fin n} : i ∈ t.downstream n j ↔ t.drains j i = true := by
  simp [downstream]

theorem lt_size_of_drains {j i : Nat} (h : t.drains j i = true) : i < t.size := by
  simp only [drains, List.any_eq_true, Bool.and_eq_true] at h
  obtain ⟨e, -, -, h⟩ := h
  obtain ⟨x, hx, -⟩ := (Option.any_eq_true ..).1 h
  exact (List.getElem?_eq_some_iff.1 hx).1

theorem node_injective (t : Topology) : Function.Injective t.node := by
  intro i j h
  have hkeys : Function.Injective fun i : Fin t.nodes.length => (t.nodes.get i).key := by
    have hkeys := t.nodes_distinct
    rwa [← List.ofFn_get t.nodes, List.map_ofFn, List.nodup_ofFn] at hkeys
  exact hkeys (congrArg NodeId.key h)

theorem isEmpty_downstreamOf (j : Fin t.size) :
    (downstreamOf t.links j).isEmpty = true ↔ t.downstream t.size j = [] := by
  rw [List.isEmpty_iff, List.eq_nil_iff_forall_not_mem, List.eq_nil_iff_forall_not_mem]
  simp only [mem_downstream, drains_iff_mem_links, mem_downstreamOf]
  exact ⟨fun h i => h i, fun h i hl => h ⟨i, lt_size_of_drains (drains_iff_mem_links.2 hl)⟩ hl⟩

/-- An outlet is a node that drains into none. -/
theorem node_mem_outlets (j : Fin t.size) :
    t.node j ∈ t.outlets ↔ t.downstream t.size j = [] := by
  rw [outlets, List.mem_map_of_injective t.node_injective, List.mem_filter,
    ← isEmpty_downstreamOf]
  simp

section

attribute [local instance] ExactSums.addCommGroup

variable {K : Type} [Scalar K] [ExactSums K]

theorem inflowSum_eq (xs : Fin n → K) (i : Nat) :
    t.inflowSum xs i = ∑ j : Fin n, if t.drains j i then xs j else 0 := by
  have hsum : t.inflowSum xs i = ((t.upstream n i).map xs).sum := by
    rw [inflowSum, ← Scalar.sum_eq, Scalar.sum, List.foldl_map]
  rw [hsum, upstream, Fin.sum_univ_def]
  induction List.finRange n with
  | nil => rfl
  | cons j js ih =>
    rw [List.map_cons, List.sum_cons, ← ih, List.filter_cons]
    split <;> simp

/-- Together the nodes receive what each node gives, once for every node that it drains into. -/
theorem total_inflowSum (t : Topology) (xs : Fin n → K) :
    Scalar.total (fun i : Fin n => t.inflowSum xs i) =
      Scalar.total fun j : Fin n =>
        Scalar.sum (List.replicate (t.downstream n j).length (xs j)) := by
  have hgiven (j : Fin n) : ∑ i : Fin n, (if t.drains j i then xs j else 0) =
      Scalar.sum (List.replicate (t.downstream n j).length (xs j)) := by
    rw [Scalar.sum_eq, List.sum_replicate, downstream, Fin.sum_univ_def]
    induction List.finRange n with
    | nil => simp
    | cons i is ih =>
      rw [List.map_cons, List.sum_cons, ih, List.filter_cons]
      split
      · rw [List.length_cons, succ_nsmul']
      · rw [zero_add]
  simp only [Scalar.total_eq, inflowSum_eq]
  rw [Finset.sum_comm]
  exact Finset.sum_congr rfl fun j _ => hgiven j

theorem length_downstream_le (h : t.Unbranched) (hsize : t.size = n) (j : Fin n) :
    (t.downstream n j).length ≤ 1 := by
  subst hsize
  match hdown : t.downstream t.size j with
  | [] => simp
  | [_] => simp
  | i :: i' :: is =>
    have hi : t.drains j i = true := mem_downstream.1 (by simp [hdown])
    have hi' : t.drains j i' = true := mem_downstream.1 (by simp [hdown])
    have hnodup : (t.downstream t.size j).Nodup := (List.nodup_finRange _).filter _
    rw [hdown, h j i i' hi hi'] at hnodup
    simp at hnodup

/-- Where no node drains into two nodes, all that the nodes give arrives that are no outlets. -/
theorem total_inflowSum_of_unbranched (h : t.Unbranched) (hsize : t.size = n) (xs : Fin n → K) :
    Scalar.total (fun i : Fin n => t.inflowSum xs i) =
      Scalar.total fun j : Fin n =>
        if (t.downstream n j).isEmpty then Scalar.zero else xs j := by
  rw [total_inflowSum]
  congr 1
  funext j
  have hle := length_downstream_le h hsize j
  match hdown : t.downstream n j with
  | [] => rfl
  | [_] => exact Scalar.zero_add (xs j)
  | _ :: _ :: _ => simp [hdown] at hle

end

theorem get_aggregate {K : Type} [Scalar K] (t : Topology) {s : Shape} (q : Grid (t.size :: s) K)
    (i : Fin t.size) (k : Index s) :
    (t.aggregate q).get (.cons i k) =
      t.inflowSum (fun j : Fin t.size => q.get (.cons j k)) i := by
  rw [aggregate, get_gatherRows, inflowSum]
  congr 1
  exact t.feeders_cast rfl i

theorem get_matrix {K : Type} [Scalar K] (t : Topology) (i j : Fin t.size) :
    (t.matrix : Grid [t.size, t.size] K).get (.cons i (.cons j .nil)) =
      if t.drains j i then Scalar.one else Scalar.zero := by
  have hentry : (t.tributaryPlaces i).contains j = t.drains j i := by
    rw [Bool.eq_iff_iff, List.contains_iff_mem, mem_tributaryPlaces]
  refine (Grid.get_ofRows _ i (.cons j .nil)).trans ((Grid.get_ofFn _ _).trans ?_)
  exact congrArg Scalar.ofBool hentry

section

open ExactArithmetic

attribute [local instance] ExactSums.addCommGroup

/-- In exact arithmetic the inflows are the matrix times the outflows. -/
theorem aggregate_eq_matrix_mul {K : Type} [Scalar K] [ExactArithmetic K] (t : Topology) {s : Shape}
    (q : Grid (t.size :: s) K) (i : Fin t.size) (k : Index s) :
    (t.aggregate q).get (.cons i k) =
      Scalar.total fun j => t.matrix.get (.cons i (.cons j .nil)) * q.get (.cons j k) := by
  rw [get_aggregate, inflowSum_eq, Scalar.total_eq]
  refine Finset.sum_congr rfl fun j _ => toReal_injective (K := K) ?_
  rw [get_matrix, toReal_mul]
  by_cases h : t.drains j i = true
  · rw [if_pos h, if_pos h, toReal_one, one_mul]
  · rw [if_neg h, if_neg h, toReal_zero, zero_mul]
    exact toReal_zero

end

/-- A network gathers what each node gives, once for every node that it drains into. -/
theorem total_aggregate {K : Type} [Scalar K] [ExactSums K] (t : Topology) {s : Shape}
    (q : Grid (t.size :: s) K) (k : Index s) :
    Scalar.total (fun i => (t.aggregate q).get (.cons i k)) =
      Scalar.total fun j =>
        Scalar.sum (List.replicate (t.downstream t.size j).length (q.get (.cons j k))) := by
  simp only [get_aggregate]
  exact t.total_inflowSum _

/-- A network keeps the total of what its nodes give that are no outlets, whatever they give, exactly
if none of them drains into two nodes. -/
theorem aggregate_conserves_iff (t : Topology) :
    (∀ q : Grid [t.size] ExactReal,
      Scalar.total (fun i => (t.aggregate q).get (.cons i .nil)) =
        Scalar.total fun j =>
          if t.node j ∈ t.outlets then Scalar.zero else q.get (.cons j .nil)) ↔
      t.Unbranched := by
  have hflow (j : Fin t.size) (x : ExactReal) : (if t.node j ∈ t.outlets then Scalar.zero else x) =
      if (t.downstream t.size j).isEmpty then Scalar.zero else x := by
    simp only [node_mem_outlets, List.isEmpty_iff]
  simp only [hflow]
  constructor
  · intro h j i i' hi hi'
    -- only the node at `j` gives something
    have hone (k : Fin t.size) : (Grid.ofFn fun k : Index [t.size] =>
        if k.head = j then Scalar.one else (Scalar.zero : ExactReal)).get (.cons k .nil) =
          if k = j then Scalar.one else Scalar.zero := Grid.get_ofFn _ _
    have hq := h (Grid.ofFn fun k => if k.head = j then Scalar.one else Scalar.zero)
    simp only [total_aggregate, hone] at hq
    rw [Scalar.total_single j fun k hk => by rw [if_neg hk, Scalar.sum_replicate_zero],
      Scalar.total_single j fun k hk => by simp [hk], if_pos rfl, ExactReal.sum_replicate_one,
      if_neg (by simp [List.ne_nil_of_mem (mem_downstream.2 hi)]), ExactReal.one_eq] at hq
    obtain ⟨k, hk⟩ := List.length_eq_one_iff.1 (Nat.cast_eq_one.1 hq)
    have hmem := mem_downstream.2 hi
    have hmem' := mem_downstream.2 hi'
    rw [hk, List.mem_singleton] at hmem hmem'
    rw [hmem, hmem']
  · intro h q
    simp only [get_aggregate]
    exact total_inflowSum_of_unbranched h rfl _

example : ∃ t, ofEdges [.text "a", .text "b", .text "c"]
    [(.text "a", .text "b"), (.text "a", .text "c")] = .ok t ∧ ¬ t.Unbranched :=
  ⟨{ nodes := _, edges := _, accepted := rfl, links := _, links_eq := rfl }, rfl, by decide⟩

theorem mem_flowLinks {cells : List (Location × Int)} {j i : Nat} : (j, i) ∈ flowLinks cells ↔
    ∃ p target, cells[j]? = some p ∧ flowTarget? p.2 p.1 = some target ∧
      cells.findIdx? (fun q => q.1 = target) = some i := by
  rw [flowLinks, List.mem_filterMap]
  constructor
  · rintro ⟨⟨p, k⟩, hp, h⟩
    obtain ⟨target, htarget, h⟩ := Option.bind_eq_some_iff.1 h
    obtain ⟨down, hdown, h⟩ := Option.bind_eq_some_iff.1 h
    obtain ⟨rfl, rfl⟩ := Prod.mk.inj (Option.some.inj h)
    exact ⟨p, target, List.mem_zipIdx_iff_getElem?.1 hp, htarget, hdown⟩
  · rintro ⟨p, target, hp, htarget, hdown⟩
    exact ⟨(p, j), List.mem_zipIdx_iff_getElem?.2 hp, Option.bind_eq_some_iff.2
      ⟨target, htarget, Option.bind_eq_some_iff.2 ⟨i, hdown, rfl⟩⟩⟩

/-- A cell points at one cell at most, and at most one node counts as the node there. -/
theorem flowLinks_functional {cells : List (Location × Int)} {j i i' : Nat}
    (h : (j, i) ∈ flowLinks cells) (h' : (j, i') ∈ flowLinks cells) : i = i' := by
  obtain ⟨p, target, hp, htarget, hi⟩ := mem_flowLinks.1 h
  obtain ⟨p', target', hp', htarget', hi'⟩ := mem_flowLinks.1 h'
  obtain rfl := Option.some.inj (hp.symm.trans hp')
  obtain rfl := Option.some.inj (htarget.symm.trans htarget')
  exact Option.some.inj (hi.symm.trans hi')

theorem ofDraft_eq_ok {d : TopologyDraft} {t : Topology} (h : ofDraft d = .ok t) :
    t.toTopologyDraft = d := by
  unfold ofDraft at h
  split at h
  · rw [← Except.ok.inj h]
  · simp [misconfigured] at h

/-- On a flow direction grid no node drains into two nodes. -/
theorem ofFlowGrid_unbranched {K : Type} [Scalar K] {grid : FlowGrid K}
    {positions : List (List (Entry K))} {t : Topology} (h : ofFlowGrid grid positions = .ok t) :
    t.Unbranched := by
  obtain ⟨cells, -, h⟩ := bind_eq_ok.1 h
  dsimp only at h
  split at h
  · simp [misconfigured] at h
  split at h
  · simp [misconfigured] at h
  obtain ⟨codes, -, h⟩ := bind_eq_ok.1 h
  have hdraft := ofDraft_eq_ok h
  have hplace {k j : Nat} (h : ((List.range cells.length).map fun i : Nat =>
      NodeId.integer (i : Int))[j]?.any (NodeId.integer (k : Int)).same = true) : k = j := by
    obtain ⟨x, hx, hsame⟩ := (Option.any_eq_true ..).1 h
    obtain ⟨hj, rfl⟩ := List.getElem?_eq_some_iff.1 hx
    simpa [NodeId.same, NodeId.key] using hsame
  have hlink {j i : Nat} (h : t.drains j i = true) : (j, i) ∈ flowLinks (cells.zip codes) := by
    rw [drains, hdraft, List.any_eq_true] at h
    obtain ⟨e, he, h⟩ := h
    obtain ⟨l, hl, rfl⟩ := List.mem_map.1 he
    obtain ⟨hj, hi⟩ := Bool.and_eq_true_iff.1 h
    rw [← hplace hj, ← hplace hi]
    exact hl
  intro j i i' hi hi'
  exact Fin.ext (flowLinks_functional (hlink hi) (hlink hi'))

end Topology

end Catchment
