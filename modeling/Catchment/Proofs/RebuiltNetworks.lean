import Catchment.Proofs.AcyclicNetworks

/-!
# Rebuilt networks

What a network does follows from its nodes in their order and from which edges there are. The
tributaries of a node are the nodes from which an edge leads to it, in node order, its inflow is the
sum of what they give, and an outlet is a node without an edge to another one. So a network that is
built again from the same edges in any order, or from the tributaries of its nodes, does the same.
So does one of which the nodes have other names that are told apart alike.
-/
namespace Catchment

instance (edges : List (NodeId × NodeId)) (a b : NodeId) : Decidable (Joins edges a b) :=
  inferInstanceAs (Decidable (∃ e ∈ edges, e.1.same a = true ∧ e.2.same b = true))

theorem NodeId.same_congr {a b n : NodeId} (h : a.key = b.key) : n.same a = n.same b := by
  rw [same, same, h]

theorem Joins.congr {edges : List (NodeId × NodeId)} {a a' b b' : NodeId} (ha : a.key = a'.key)
    (hb : b.key = b'.key) : Joins edges a b ↔ Joins edges a' b' := by
  simp only [Joins, NodeId.same_congr ha, NodeId.same_congr hb]

theorem IsNetwork.congr {nodes : List NodeId} {edges edges' : List (NodeId × NodeId)}
    (h : IsNetwork nodes edges) (hjoins : ∀ a b, Joins edges' a b ↔ Joins edges a b) :
    IsNetwork nodes edges' := by
  have hends (e : NodeId × NodeId) (he : e ∈ edges') :
      ∃ e' ∈ edges, e'.1.key = e.1.key ∧ e'.2.key = e.2.key := by
    obtain ⟨e', he', h1, h2⟩ := (hjoins e.1 e.2).1
      ⟨e, he, NodeId.same_iff.2 rfl, NodeId.same_iff.2 rfl⟩
    exact ⟨e', he', NodeId.same_iff.1 h1, NodeId.same_iff.1 h2⟩
  refine ⟨h.distinct, fun e he => ?_, fun e he => ?_, ?_⟩
  · obtain ⟨e', he', h1, h2⟩ := hends e he
    rw [← NodeId.same_of_key_eq h1, ← NodeId.same_of_key_eq h2]
    exact h.known e' he'
  · obtain ⟨e', he', h1, h2⟩ := hends e he
    rw [NodeId.same_eq_false, ← h1, ← h2]
    exact NodeId.same_eq_false.1 (h.proper e' he')
  · have hsame : Joins edges' = Joins edges := funext₂ fun a b => propext (hjoins a b)
    rw [hsame]
    exact h.acyclic

namespace TopologyDraft

def rename (d : TopologyDraft) (f : NodeId → NodeId) : TopologyDraft where
  nodes := d.nodes.map f
  edges := d.edges.map fun e => (f e.1, f e.2)

variable {d : TopologyDraft} {f : NodeId → NodeId} (hf : ∀ a b, (f a).same (f b) = a.same b)

include hf

theorem place?_rename (n : NodeId) : (d.rename f).place? (f n) = d.place? n := by
  rw [place?, place?, rename, List.findIdx?_map]
  exact congrArg (List.findIdx? · d.nodes) (funext (hf n))

theorem addEdge_rename (links : List (Nat × Nat)) (e : NodeId × NodeId) :
    (d.rename f).addEdge links (f e.1, f e.2) = d.addEdge links e := by
  simp only [addEdge, place?_rename hf]

theorem links_rename : (d.rename f).links = d.links := by
  have hedges : (d.rename f).links = d.edges.foldl
      (fun links e => (d.rename f).addEdge links (f e.1, f e.2)) [] := List.foldl_map
  simp only [addEdge_rename hf] at hedges
  exact hedges

theorem networkCycle?_rename : (d.rename f).networkCycle? = none ↔ d.networkCycle? = none := by
  have hsize : (d.rename f).nodes.length = d.nodes.length := List.length_map f
  have hcycle : (d.rename f).cycle? = d.cycle? := by
    rw [cycle?, cycle?, hsize, links_rename hf]
  simp only [networkCycle?, Option.map_eq_none_iff, hcycle]

theorem edgeFault?_rename (e : NodeId × NodeId) :
    (d.rename f).edgeFault? (f e.1, f e.2) = none ↔ d.edgeFault? e = none := by
  simp only [edgeFault?, place?_rename hf]
  cases d.place? e.1 <;> cases d.place? e.2 <;> simp

theorem nodeTwice?_rename : (d.rename f).nodeTwice? = none ↔ d.nodeTwice? = none := by
  have hkey (a b : NodeId) : (f a).key = (f b).key ↔ a.key = b.key := by
    rw [← NodeId.same_iff, hf, NodeId.same_iff]
  simp only [nodeTwice?_eq_none, rename, List.nodup_iff_pairwise_ne, List.pairwise_map, ne_eq, hkey]

/-- The names of the nodes matter to acceptance only as far as they are told apart. -/
theorem fault?_rename : (d.rename f).fault? = none ↔ d.fault? = none := by
  simp only [fault?_eq_none, nodeTwice?_rename hf, networkCycle?_rename hf,
    List.findSome?_eq_none_iff]
  have hedges : (∀ e ∈ (d.rename f).edges, (d.rename f).edgeFault? e = none) ↔
      ∀ e ∈ d.edges, d.edgeFault? e = none :=
    List.forall_mem_map.trans (forall₂_congr fun e _ => edgeFault?_rename hf e)
  rw [hedges]

end TopologyDraft

namespace Topology

/-- The nodes from which an edge leads to a node, in node order. -/
def above (t : Topology) (n : NodeId) : List NodeId :=
  t.nodes.filter fun m => Joins t.edges m n

theorem isNetwork (t : Topology) : IsNetwork t.nodes t.edges :=
  TopologyDraft.fault?_eq_none_iff_isNetwork.1 t.accepted

theorem finRange_map_node (t : Topology) : (List.finRange t.size).map t.node = t.nodes :=
  List.ofFn_eq_map.symm.trans (List.ofFn_get t.nodes)

variable (t : Topology)

theorem drains_iff {t : Topology} {j i : Nat} : t.drains j i = true ↔
    ∃ a b, t.nodes[j]? = some a ∧ t.nodes[i]? = some b ∧ Joins t.edges a b := by
  simp only [drains, List.any_eq_true, Bool.and_eq_true, Option.any_eq_true, Joins]
  constructor
  · rintro ⟨e, he, ⟨a, ha, hsame⟩, b, hb, hsame'⟩
    exact ⟨a, b, ha, hb, e, he, hsame, hsame'⟩
  · rintro ⟨a, b, ha, hb, e, he, hsame, hsame'⟩
    exact ⟨e, he, ⟨a, ha, hsame⟩, b, hb, hsame'⟩

theorem drains_iff_joins (j i : Fin t.size) :
    t.drains j i = true ↔ Joins t.edges (t.node j) (t.node i) := by
  have hget (k : Fin t.size) : t.nodes[k.val]? = some (t.node k) :=
    List.getElem?_eq_getElem k.isLt
  rw [drains_iff, hget, hget]
  simp

theorem map_node_upstream (i : Fin t.size) :
    (t.upstream t.size i).map t.node = t.above (t.node i) := by
  rw [above, ← t.finRange_map_node, List.filter_map, upstream]
  congr 2
  funext j
  rw [Bool.eq_iff_iff, t.drains_iff_joins, Function.comp_apply, decide_eq_true_iff]

/-- The tributaries of an identifier that is a node. -/
theorem tributaries_eq (n : NodeId) : t.tributaries n =
    if t.nodes.any n.same then .ok (t.above n) else .error .unknownName := by
  have hany : t.nodes.any n.same =
      ((List.finRange t.size).find? fun i => n.same (t.node i)).isSome := by
    rw [← t.finRange_map_node, List.any_map, List.isSome_find?]
    rfl
  rw [tributaries, hany]
  cases hfind : (List.finRange t.size).find? fun i => n.same (t.node i) with
  | none => rfl
  | some i =>
    have hsame : n.same (t.node i) = true := List.find?_some (p := fun i => n.same (t.node i)) hfind
    have hkey := NodeId.same_iff.1 hsame
    have habove : t.above n = t.above (t.node i) :=
      List.filter_congr fun m _ => by simp only [Joins.congr rfl hkey]
    simp only [Option.isSome_some, if_true, habove, tributaryPlaces_eq, map_node_upstream]

/-- The outlets are the nodes from which no edge leads to a node. -/
theorem outlets_eq :
    t.outlets = t.nodes.filter fun n => ∀ m ∈ t.nodes, ¬ Joins t.edges n m := by
  have hends (j : Fin t.size) : (downstreamOf t.links j).isEmpty = true ↔
      ∀ m ∈ t.nodes, ¬ Joins t.edges (t.node j) m := by
    rw [isEmpty_downstreamOf, List.eq_nil_iff_forall_not_mem]
    simp only [mem_downstream, drains_iff_joins, ← t.finRange_map_node, List.forall_mem_map,
      List.mem_finRange, true_imp_iff]
  conv_rhs => rw [← t.finRange_map_node, List.filter_map]
  rw [outlets]
  refine congrArg (List.map t.node) (List.filter_congr fun j _ => ?_)
  rw [Bool.eq_iff_iff, hends, Function.comp_apply, decide_eq_true_iff, t.finRange_map_node]

theorem aggregate_eq {K : Type} [Scalar K] {s : Shape} (q : Grid (t.size :: s) K) :
    t.aggregate q = gatherRows (t.upstream t.size ·) q := by
  rw [aggregate]
  congr 1
  exact funext fun i => t.feeders_cast rfl i

theorem aggregateTensor_cons {K : Type} [Scalar K] (n : Nat) (s : Shape) (g : Grid (n :: s) K) :
    t.aggregateTensor ⟨n :: s, g⟩ =
      if n = t.size then
        if s.length ≤ 1 then .ok (.ofGrid (gatherRows (t.upstream n ·) g)) else .error .value
      else mismatched (.outflowNodes [n] t.size) := by
  unfold aggregateTensor
  dsimp only
  by_cases h : n = t.size
  · subst h
    rw [dif_pos rfl, if_pos rfl, aggregate_eq]
  · rw [dif_neg h, if_neg h]

/-- The same nodes with the same tributaries, the same outlets and the same inflows. -/
structure Alike (t t' : Topology) : Prop where
  nodes : t'.nodes = t.nodes
  tributaries : ∀ n, t'.tributaries n = t.tributaries n
  outlets : t'.outlets = t.outlets
  aggregate : ∀ {K : Type} [Scalar K] (q : Tensor K), t'.aggregateTensor q = t.aggregateTensor q

variable {t} {t' : Topology}

theorem drains_congr (hnodes : t'.nodes = t.nodes)
    (hjoins : ∀ a b, Joins t'.edges a b ↔ Joins t.edges a b) : t'.drains = t.drains := by
  funext j i
  rw [Bool.eq_iff_iff, drains_iff, drains_iff, hnodes]
  simp only [hjoins]

theorem aggregateTensor_of_drains {K : Type} [Scalar K] (hsize : t'.size = t.size)
    (hdrains : t'.drains = t.drains) (q : Tensor K) :
    t'.aggregateTensor q = t.aggregateTensor q := by
  have hupstream (n i : Nat) : t'.upstream n i = t.upstream n i := by
    rw [upstream, upstream, hdrains]
  obtain ⟨shape, g⟩ := q
  cases shape with
  | nil => simp only [aggregateTensor, hsize]
  | cons n s => simp only [aggregateTensor_cons, hsize, hupstream]

/-- Networks with the same nodes whose edges join the same ones do the same. -/
theorem alike_of_joins (hnodes : t'.nodes = t.nodes)
    (hjoins : ∀ a b, Joins t'.edges a b ↔ Joins t.edges a b) : t.Alike t' where
  nodes := hnodes
  tributaries n := by
    rw [tributaries_eq, tributaries_eq, above, above, hnodes]
    simp only [hjoins]
  outlets := by
    rw [outlets_eq, outlets_eq, hnodes]
    simp only [hjoins]
  aggregate := aggregateTensor_of_drains (congrArg List.length hnodes) (drains_congr hnodes hjoins)

variable (t)

theorem ofEdges_of_joins {edges : List (NodeId × NodeId)}
    (hjoins : ∀ a b, Joins edges a b ↔ Joins t.edges a b) :
    ∃ t', ofEdges t.nodes edges = .ok t' ∧ t.Alike t' := by
  obtain ⟨t', ht'⟩ := ofEdges_exists_iff.2 (t.isNetwork.congr hjoins)
  have hdraft := ofDraft_eq_ok ht'
  have hnodes : t'.nodes = t.nodes := by rw [hdraft]
  have hedges : t'.edges = edges := by rw [hdraft]
  exact ⟨t', ht', alike_of_joins hnodes (hedges ▸ hjoins)⟩

/-- The edges to every node from its tributaries. -/
def tributaryEdges : List (NodeId × NodeId) :=
  t.nodes.flatMap fun n => (t.above n).map fun m => (m, n)

variable {t}

theorem mem_above {m n : NodeId} : m ∈ t.above n ↔ m ∈ t.nodes ∧ Joins t.edges m n := by
  simp [above]

theorem mem_tributaryEdges {m n : NodeId} :
    (m, n) ∈ t.tributaryEdges ↔ m ∈ t.nodes ∧ n ∈ t.nodes ∧ Joins t.edges m n := by
  simp only [tributaryEdges, List.mem_flatMap, List.mem_map, mem_above, Prod.mk.injEq]
  constructor
  · rintro ⟨n', hn, m', ⟨hm, hjoin⟩, rfl, rfl⟩
    exact ⟨hm, hn, hjoin⟩
  · rintro ⟨hm, hn, hjoin⟩
    exact ⟨n, hn, m, ⟨hm, hjoin⟩, rfl, rfl⟩

theorem joins_tributaryEdges (a b : NodeId) :
    Joins t.tributaryEdges a b ↔ Joins t.edges a b := by
  constructor
  · rintro ⟨⟨m, n⟩, he, ha, hb⟩
    exact (Joins.congr (NodeId.same_iff.1 ha) (NodeId.same_iff.1 hb)).1 (mem_tributaryEdges.1 he).2.2
  · rintro ⟨e, he, ha, hb⟩
    obtain ⟨hup, hdown⟩ := t.isNetwork.known e he
    obtain ⟨m, hm, hsame⟩ := List.any_eq_true.1 hup
    obtain ⟨n, hn, hsame'⟩ := List.any_eq_true.1 hdown
    have hma : m.key = a.key := (NodeId.same_iff.1 hsame).symm.trans (NodeId.same_iff.1 ha)
    have hnb : n.key = b.key := (NodeId.same_iff.1 hsame').symm.trans (NodeId.same_iff.1 hb)
    exact ⟨(m, n), mem_tributaryEdges.2 ⟨hm, hn, e, he, hsame, hsame'⟩, NodeId.same_iff.2 hma,
      NodeId.same_iff.2 hnb⟩

/-- Of distinct nodes, each takes the tributaries that are given with it. -/
theorem foldl_assignTributaries {pairs table : List (NodeId × List NodeId)}
    (h : ((table ++ pairs).map fun p => p.1.key).Nodup) :
    pairs.foldl (fun t p => assignTributaries t p.1 p.2) table = table ++ pairs := by
  induction pairs generalizing table with
  | nil => rw [List.append_nil, List.foldl_nil]
  | cons p pairs ih =>
    have hnew : (table.any fun q => q.1.same p.1) = false := by
      rw [List.any_eq_false]
      intro q hq hsame
      rw [List.map_append, List.nodup_append] at h
      exact h.2.2 _ (List.mem_map_of_mem hq) _ (by simp) (NodeId.same_iff.1 hsame)
    rw [List.append_cons] at h ⊢
    rw [List.foldl_cons, assignTributaries, hnew, if_neg Bool.false_ne_true]
    exact ih h

theorem ofTributaries_eq {pairs : List (NodeId × List NodeId)}
    (h : (pairs.map fun p => p.1.key).Nodup) : ofTributaries pairs =
      ofEdges (pairs.map Prod.fst) (pairs.flatMap fun p => p.2.map fun n => (n, p.1)) := by
  rw [ofTributaries, @foldl_assignTributaries pairs [] h, List.nil_append]

variable (t)

theorem mapM_tributaries : (t.nodes.mapM fun n => do return (n, ← t.tributaries n)) =
    .ok (t.nodes.map fun n => (n, t.above n)) := by
  refine mapM_eq_ok_map.2 fun n hn => ?_
  have hany : t.nodes.any n.same = true := List.any_eq_true.2 ⟨n, hn, NodeId.same_iff.2 rfl⟩
  rw [tributaries_eq, if_pos hany, ok_bind, pure_eq_ok]

theorem ofTributaries_tributaries : ∃ t', (do
    ofTributaries (← t.nodes.mapM fun n => do return (n, ← t.tributaries n))) = .ok t' ∧
      t.Alike t' := by
  have hkeys : ((t.nodes.map fun n => (n, t.above n)).map fun p => p.1.key).Nodup := by
    rw [List.map_map]
    exact t.nodes_distinct
  have hnodes : (t.nodes.map fun n => (n, t.above n)).map Prod.fst = t.nodes := by
    rw [List.map_map]
    exact List.map_id _
  rw [mapM_tributaries, ok_bind, ofTributaries_eq hkeys, hnodes, List.flatMap_map]
  exact t.ofEdges_of_joins joins_tributaryEdges

section

variable {K : Type} [Scalar K] {s : Shape}

/-- The inflow of a node is the sum of what its tributaries give, in node order. -/
theorem get_aggregate_eq_sum (q : Grid (t.size :: s) K) (i : Fin t.size) (k : Index s) :
    (t.aggregate q).get (.cons i k) =
      Scalar.sum (((List.finRange t.size).filter fun j => t.node j ∈ t.above (t.node i)).map
        fun j => q.get (.cons j k)) := by
  have hfilter : t.upstream t.size i =
      (List.finRange t.size).filter fun j => t.node j ∈ t.above (t.node i) := by
    refine List.filter_congr fun j _ => ?_
    have hnode : t.node j ∈ t.nodes := List.get_mem t.nodes j
    rw [Bool.eq_iff_iff, drains_iff_joins, decide_eq_true_iff, mem_above, and_iff_right hnode]
  rw [get_aggregate, inflowSum, hfilter, Scalar.sum, List.foldl_map]

/-- What a node receives does not depend on what other nodes give than its tributaries. -/
theorem row_aggregate_congr {q q' : Grid (t.size :: s) K} {i : Fin t.size}
    (h : ∀ j, t.node j ∈ t.above (t.node i) → q.row j = q'.row j) :
    (t.aggregate q).row i = (t.aggregate q').row i := by
  refine Grid.ext_get fun k => ?_
  have hget (g : Grid (t.size :: s) K) (j : Fin t.size) : g.get (.cons j k) = (g.row j).get k :=
    (Grid.get_row g j k).symm
  rw [← hget, ← hget, get_aggregate_eq_sum, get_aggregate_eq_sum]
  refine congrArg Scalar.sum (List.map_congr_left fun j hj => ?_)
  rw [hget, hget, h j (by simpa using (List.mem_filter.1 hj).2)]

end

/-- What a network does in terms of its nodes and edges, and the networks that do the same. -/
structure FollowsEdges (t : Topology) : Prop where
  distinct : t.nodes.Pairwise fun a b => a.same b = false
  tributaries : ∀ n, t.tributaries n =
    if t.nodes.any n.same then .ok (t.nodes.filter fun m => Joins t.edges m n)
    else .error .unknownName
  inflow : ∀ {K : Type} [Scalar K] {s : Shape} (q : Grid (t.size :: s) K) (i : Fin t.size)
    (k : Index s), (t.aggregate q).get (.cons i k) =
      Scalar.sum (((List.finRange t.size).filter fun j => t.node j ∈ t.above (t.node i)).map
        fun j => q.get (.cons j k))
  elsewhere : ∀ {K : Type} [Scalar K] {s : Shape} (q q' : Grid (t.size :: s) K) (i : Fin t.size),
    (∀ j, t.node j ∈ t.above (t.node i) → q.row j = q'.row j) →
      (t.aggregate q).row i = (t.aggregate q').row i
  sameEdges : ∀ edges, (∀ e, e ∈ edges ↔ e ∈ t.edges) →
    ∃ t', ofEdges t.nodes edges = .ok t' ∧ t.Alike t'
  fromTributaries : ∃ t', (do
    ofTributaries (← t.nodes.mapM fun n => do return (n, ← t.tributaries n))) = .ok t' ∧ t.Alike t'
  fromPairs : ∀ edges, (∀ e, e ∈ edges ↔ e ∈ t.tributaryEdges) →
    ∃ t', ofEdges t.nodes edges = .ok t' ∧ t.Alike t'

/-- A network depends only on its nodes in their order and on which edges there are. -/
theorem determined_by_edges (t : Topology) : t.FollowsEdges where
  distinct := t.isNetwork.distinct
  tributaries := t.tributaries_eq
  inflow := t.get_aggregate_eq_sum
  elsewhere _ _ _ := t.row_aggregate_congr
  sameEdges edges h := t.ofEdges_of_joins fun a b => by simp only [Joins, h]
  fromTributaries := t.ofTributaries_tributaries
  fromPairs edges h := t.ofEdges_of_joins fun a b => by
    rw [← joins_tributaryEdges]
    simp only [Joins, h]

/-- Under other names that are told apart alike, a network is accepted again, and the same inflows
arrive at the same places. -/
theorem ofDraft_rename (t : Topology) {f : NodeId → NodeId}
    (hf : ∀ a b, (f a).same (f b) = a.same b) : ∃ t', ofDraft (t.rename f) = .ok t' ∧
      t'.nodes = t.nodes.map f ∧
      ∀ {K : Type} [Scalar K] (q : Tensor K), t'.aggregateTensor q = t.aggregateTensor q := by
  obtain ⟨t', ht'⟩ := ofEdges_exists_iff.2
    (TopologyDraft.fault?_eq_none_iff_isNetwork.1 ((TopologyDraft.fault?_rename hf).2 t.accepted))
  have hdraft := ofDraft_eq_ok ht'
  have hsize : t'.size = t.size := by
    rw [size, size, hdraft]
    exact List.length_map f
  have hdrains : t'.drains = t.drains := by
    funext j i
    rw [Bool.eq_iff_iff, drains_iff_mem_links, drains_iff_mem_links, t'.links_eq, t.links_eq, hdraft,
      TopologyDraft.links_rename hf]
  exact ⟨t', ht', by rw [hdraft]; rfl, aggregateTensor_of_drains hsize hdrains⟩

end Topology

end Catchment
