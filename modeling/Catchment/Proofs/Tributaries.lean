import Catchment.Topology
import Catchment.Proofs.Broadcasting
import Catchment.Proofs.DependencyOrders

/-!
# Tributaries

A place drains into another if an edge joins their nodes. The inflow of a place is the sum of what
the distinct places that drain into it give, from zero on and in node order.
-/
namespace Catchment

namespace NodeId

theorem same_iff {a b : NodeId} : a.same b = true ↔ a.key = b.key := by simp [same]

end NodeId

namespace Topology

/-- Some edge leads from the node at the first place to the node at the second. -/
def drains (t : Topology) (j i : Nat) : Bool :=
  t.edges.any fun e => t.nodes[j]?.any e.1.same && t.nodes[i]?.any e.2.same

def upstream (t : Topology) (n i : Nat) : List (Fin n) :=
  (List.finRange n).filter fun j => t.drains j i

/-- The sum over the places that drain into a place. -/
def inflowSum {K : Type} [Scalar K] (t : Topology) {n : Nat} (xs : Fin n → K) (i : Nat) : K :=
  (t.upstream n i).foldl (fun total j => total + xs j) Scalar.zero

theorem mem_upstream {t : Topology} {n i : Nat} {j : Fin n} :
    j ∈ t.upstream n i ↔ t.drains j i = true := by
  simp [upstream]

/-- What flows in depends on the places that drain into the place alone. -/
theorem inflowSum_congr {K : Type} [Scalar K] {t : Topology} {n i : Nat} {xs ys : Fin n → K}
    (h : ∀ j : Fin n, t.drains j i = true → xs j = ys j) :
    t.inflowSum xs i = t.inflowSum ys i := by
  refine List.foldl_ext _ _ _ fun total j hj => ?_
  rw [h j (mem_upstream.1 hj)]

end Topology

theorem mem_downstreamOf {links : List (Nat × Nat)} {j i : Nat} :
    i ∈ downstreamOf links j ↔ (j, i) ∈ links := by
  simp only [downstreamOf, List.mem_filterMap, Option.ite_none_right_eq_some, Option.some.injEq]
  constructor
  · rintro ⟨⟨_, _⟩, hl, rfl, rfl⟩
    exact hl
  · exact fun hl => ⟨_, hl, rfl, rfl⟩

theorem mem_tributariesOf {links : List (Nat × Nat)} {j i : Nat} :
    j ∈ tributariesOf links i ↔ (j, i) ∈ links := by
  simp only [tributariesOf, List.mem_filterMap, Option.ite_none_right_eq_some, Option.some.injEq]
  constructor
  · rintro ⟨⟨_, _⟩, hl, rfl, rfl⟩
    exact hl
  · exact fun hl => ⟨_, hl, rfl, rfl⟩

theorem mem_addLink {links : List (Nat × Nat)} {j i j' i' : Nat} :
    (j', i') ∈ addLink links j i ↔ (j', i') ∈ links ∨ j = j' ∧ i = i' := by
  rw [addLink]
  split
  · rename_i h
    rw [List.contains_iff_mem, mem_downstreamOf] at h
    refine ⟨.inl, fun h' => h'.elim id ?_⟩
    rintro ⟨rfl, rfl⟩
    exact h
  · simp [eq_comm]

theorem nodup_addLink {links : List (Nat × Nat)} (h : links.Nodup) (j i : Nat) :
    (addLink links j i).Nodup := by
  rw [addLink]
  split
  · exact h
  · rename_i hnew
    rw [List.contains_iff_mem, mem_downstreamOf] at hnew
    exact List.nodup_append.2 ⟨h, List.nodup_singleton _, fun l hl l' hl' hsame =>
      hnew (List.mem_singleton.1 hl' ▸ hsame ▸ hl)⟩

theorem nodup_tributariesOf {links : List (Nat × Nat)} (h : links.Nodup) (i : Nat) :
    (tributariesOf links i).Nodup := by
  refine h.filterMap fun l l' j hl hl' => ?_
  simp only [Option.mem_def, Option.ite_none_right_eq_some, Option.some.injEq] at hl hl'
  exact Prod.ext (hl.2.trans hl'.2.symm) (hl.1.trans hl'.1.symm)

theorem matrixRow_eq (links : List (Nat × Nat)) (i : Nat) :
    matrixRow links i = (tributariesOf links i).insertionSort (· ≤ ·) := by
  have hinsert (j : Nat) (ks : List Nat) : insertPlace j ks = ks.orderedInsert (· ≤ ·) j := by
    induction ks with
    | nil => rfl
    | cons k ks ih => rw [insertPlace, List.orderedInsert, ih]
  rw [matrixRow, List.insertionSort, funext₂ hinsert]

theorem mem_matrixRow {links : List (Nat × Nat)} {j i : Nat} :
    j ∈ matrixRow links i ↔ (j, i) ∈ links := by
  rw [matrixRow_eq, List.mem_insertionSort, mem_tributariesOf]

/-- Where no link is repeated, the columns of a row increase. -/
theorem pairwise_matrixRow {links : List (Nat × Nat)} (h : links.Nodup) (i : Nat) :
    (matrixRow links i).Pairwise (· < ·) := by
  have hsorted := List.pairwise_insertionSort (· ≤ ·) (tributariesOf links i)
  have hnodup := (List.perm_insertionSort (· ≤ ·) _).nodup_iff.2 (nodup_tributariesOf h i)
  rw [matrixRow_eq]
  exact (hsorted.and hnodup).imp fun hle => Nat.lt_of_le_of_ne hle.1 hle.2

namespace TopologyDraft

variable {d : TopologyDraft}

theorem any_same (n : NodeId) (nodes : List NodeId) :
    nodes.any n.same = (nodes.map NodeId.key).contains n.key := by
  induction nodes with
  | nil => rfl
  | cons a nodes ih =>
    rw [List.any_cons, List.map_cons, List.contains_cons, ih]
    rfl

theorem nodeTwice?_eq_none : d.nodeTwice? = none ↔ (d.nodes.map NodeId.key).Nodup := by
  rw [nodeTwice?, Option.map_eq_none_iff, ← find?_zipIdx_eq_none NodeId.key]
  simp only [any_same]

/-- Of distinct nodes, a node has the place at which it stands. -/
theorem place?_eq_some (h : (d.nodes.map NodeId.key).Nodup) {n : NodeId} {j : Nat} :
    d.place? n = some j ↔ d.nodes[j]?.any n.same = true := by
  rw [place?, List.findIdx?_eq_some_iff_getElem]
  constructor
  · rintro ⟨hj, hn, -⟩
    rw [List.getElem?_eq_getElem hj]
    exact hn
  · intro hn
    obtain ⟨x, hx, hn⟩ := (Option.any_eq_true ..).1 hn
    obtain ⟨hj, rfl⟩ := List.getElem?_eq_some_iff.1 hx
    refine ⟨hj, hn, fun k hk hsame => ?_⟩
    have hkey : (d.nodes[k]).key = (d.nodes[j]).key :=
      (NodeId.same_iff.1 hsame).symm.trans (NodeId.same_iff.1 hn)
    exact List.pairwise_iff_getElem.1 (List.pairwise_map.1 h) k j _ hj hk hkey

theorem mem_addEdge {links : List (Nat × Nat)} {e : NodeId × NodeId} {j i : Nat} :
    (j, i) ∈ d.addEdge links e ↔
      (j, i) ∈ links ∨ d.place? e.1 = some j ∧ d.place? e.2 = some i := by
  rw [addEdge]
  cases d.place? e.1 <;> cases d.place? e.2 <;> simp [mem_addLink]

theorem nodup_addEdge {links : List (Nat × Nat)} (h : links.Nodup) (e : NodeId × NodeId) :
    (d.addEdge links e).Nodup := by
  unfold addEdge
  split
  · exact nodup_addLink h _ _
  · exact h

theorem mem_links_iff_place? {j i : Nat} :
    (j, i) ∈ d.links ↔ ∃ e ∈ d.edges, d.place? e.1 = some j ∧ d.place? e.2 = some i := by
  have hloop (edges : List (NodeId × NodeId)) (links : List (Nat × Nat)) :
      (j, i) ∈ edges.foldl d.addEdge links ↔
        (j, i) ∈ links ∨ ∃ e ∈ edges, d.place? e.1 = some j ∧ d.place? e.2 = some i := by
    induction edges generalizing links with
    | nil => simp
    | cons e edges ih =>
      rw [List.foldl_cons, ih, List.exists_mem_cons_iff, mem_addEdge, or_assoc]
  exact (hloop d.edges []).trans (or_iff_right List.not_mem_nil)

theorem nodup_links (d : TopologyDraft) : d.links.Nodup :=
  List.foldlRecOn d.edges _ List.nodup_nil fun _ h e _ => nodup_addEdge h e

theorem mem_links (h : (d.nodes.map NodeId.key).Nodup) {j i : Nat} :
    (j, i) ∈ d.links ↔ ∃ e ∈ d.edges, d.nodes[j]?.any e.1.same ∧ d.nodes[i]?.any e.2.same := by
  simp only [mem_links_iff_place?, place?_eq_some h]

theorem fault?_eq_none : d.fault? = none ↔ d.nodeTwice? = none ∧
    d.edges.findSome? d.edgeFault? = none ∧ d.networkCycle? = none := by
  rw [fault?]
  cases d.nodeTwice? <;> cases d.edges.findSome? d.edgeFault? <;> simp

end TopologyDraft

namespace Topology

theorem nodes_distinct (t : Topology) : (t.nodes.map NodeId.key).Nodup :=
  TopologyDraft.nodeTwice?_eq_none.1 (TopologyDraft.fault?_eq_none.1 t.accepted).1

theorem drains_iff_mem_links {t : Topology} {j i : Nat} : t.drains j i = true ↔ (j, i) ∈ t.links := by
  rw [t.links_eq, TopologyDraft.mem_links t.nodes_distinct]
  simp [drains]

theorem mem_tributaryPlaces (t : Topology) {i j : Fin t.size} :
    j ∈ t.tributaryPlaces i ↔ t.drains j i = true := by
  rw [drains_iff_mem_links, ← mem_matrixRow, tributaryPlaces, List.mem_filterMap]
  constructor
  · rintro ⟨k, hk, hj⟩
    obtain ⟨hk', hj⟩ := Option.dite_none_right_eq_some.1 hj
    obtain rfl := Option.some.inj hj
    exact hk
  · exact fun hj => ⟨j, hj, dif_pos j.isLt⟩

/-- The tributaries of a place stand in node order, each once. -/
theorem tributaryPlaces_eq (t : Topology) (i : Fin t.size) :
    t.tributaryPlaces i = t.upstream t.size i := by
  have hrow := pairwise_matrixRow (t.links_eq ▸ t.nodup_links) i
  refine List.Pairwise.eq_of_mem_iff (r := (· < ·)) (hrow.filterMap _ fun j j' hlt k hk k' hk' => ?_)
    ((List.pairwise_lt_finRange t.size).filter _) fun j => ?_
  · obtain ⟨hj, hk⟩ := Option.dite_none_right_eq_some.1 hk
    obtain ⟨hj', hk'⟩ := Option.dite_none_right_eq_some.1 hk'
    rwa [← Option.some.inj hk, ← Option.some.inj hk']
  · rw [mem_tributaryPlaces]
    exact mem_upstream.symm

theorem feeders_cast (t : Topology) {n : Nat} (h : t.size = n) (i : Fin n) :
    (h ▸ t.feeders : Vector (List (Fin n)) n)[i] = t.upstream n i := by
  subst h
  simp [feeders, tributaryPlaces_eq]

end Topology

theorem get_gatherRows {K : Type} [Scalar K] {n : Nat} {s : Shape}
    (feeders : Fin n → List (Fin n)) (q : Grid (n :: s) K) (i : Fin n) (k : Index s) :
    (gatherRows feeders q).get (.cons i k) =
      (feeders i).foldl (fun total j => total + q.get (.cons j k)) Scalar.zero := by
  have hfold (js : List (Fin n)) (total : Grid s K) :
      (js.foldl (fun total j => total.zipWith (· + ·) (q.row j)) total).get k =
        js.foldl (fun total j => total + q.get (.cons j k)) (total.get k) := by
    induction js generalizing total with
    | nil => rfl
    | cons j js ih => simp only [List.foldl_cons, ih, Grid.get_zipWith, Grid.get_row]; rfl
  refine (Grid.get_ofRows _ i k).trans ?_
  rw [hfold, Grid.get_replicate]

end Catchment
