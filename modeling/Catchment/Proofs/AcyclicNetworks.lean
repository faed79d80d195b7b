import Catchment.Proofs.FlowTotals
import Catchment.Proofs.WalkComponents

/-!
# Acyclic networks

A list of nodes and edges is accepted as a network exactly if the nodes differ, every edge joins two
of them, and no path along the edges returns to its start. In such a network water reaches an outlet:
what is gathered as many times as there are nodes is zero everywhere, whatever the nodes gave, and a
network with a node has an outlet.
-/
namespace Catchment

/-- An edge leads from the first node to the second. -/
def Joins (edges : List (NodeId × NodeId)) (a b : NodeId) : Prop :=
  ∃ e ∈ edges, e.1.same a = true ∧ e.2.same b = true

/-- Different nodes with edges between different ones, and no path that returns to its start. -/
structure IsNetwork (nodes : List NodeId) (edges : List (NodeId × NodeId)) : Prop where
  distinct : nodes.Pairwise fun a b => a.same b = false
  known : ∀ e ∈ edges, nodes.any e.1.same = true ∧ nodes.any e.2.same = true
  proper : ∀ e ∈ edges, e.1.same e.2 = false
  acyclic : ∀ n, ¬ Relation.TransGen (Joins edges) n n

namespace NodeId

theorem same_eq_false {a b : NodeId} : a.same b = false ↔ a.key ≠ b.key := by
  rw [← Bool.not_eq_true, same_iff]

theorem same_of_key_eq {a b : NodeId} (h : a.key = b.key) : a.same = b.same :=
  funext fun n => by rw [same, same, h]

end NodeId

namespace TopologyDraft

variable {d : TopologyDraft}

theorem distinct_iff : d.nodes.Pairwise (fun a b => a.same b = false) ↔
    (d.nodes.map NodeId.key).Nodup := by
  simp only [NodeId.same_eq_false, List.Nodup, List.pairwise_map]

theorem place?_congr {a b : NodeId} (h : a.key = b.key) : d.place? a = d.place? b := by
  rw [place?, place?, NodeId.same_of_key_eq h]

theorem exists_place {n : NodeId} : (∃ j, d.place? n = some j) ↔ d.nodes.any n.same = true := by
  rw [← Option.isSome_iff_exists, place?, List.findIdx?_isSome]

theorem key_of_place? {n : NodeId} {j : Nat} (h : d.place? n = some j) :
    (d.nodes[j]?.map NodeId.key) = some n.key := by
  obtain ⟨hj, hsame, -⟩ := List.findIdx?_eq_some_iff_getElem.1 h
  rw [List.getElem?_eq_getElem hj, Option.map_some, ← NodeId.same_iff.1 hsame]

theorem lt_length_of_place? {n : NodeId} {j : Nat} (h : d.place? n = some j) :
    j < d.nodes.length :=
  (List.findIdx?_eq_some_iff_getElem.1 h).1

theorem edgeFault?_eq_none {e : NodeId × NodeId} : d.edgeFault? e = none ↔
    (∃ j, d.place? e.1 = some j) ∧ (∃ i, d.place? e.2 = some i) ∧ e.1.same e.2 = false := by
  rw [edgeFault?, NodeId.same_eq_false]
  cases hj : d.place? e.1 with
  | none => simp
  | some j =>
    cases hi : d.place? e.2 with
    | none => simp
    | some i =>
      have hkey : j = i ↔ e.1.key = e.2.key := by
        constructor
        · rintro rfl
          exact Option.some.inj ((key_of_place? hj).symm.trans (key_of_place? hi))
        · intro h
          exact Option.some.inj (hj.symm.trans ((place?_congr h).trans hi))
      simp [hkey]

/-- No link closes a cycle exactly if no group of several places drain into each other. -/
theorem cycle?_eq_none (hproper : ∀ j, (j, j) ∉ d.links) :
    d.cycle? = none ↔ ∀ j, ¬ Relation.TransGen (fun j i => (j, i) ∈ d.links) j j := by
  have hplaces {j i : Nat} (h : (j, i) ∈ d.links) : j < d.nodes.length ∧ i < d.nodes.length := by
    obtain ⟨e, -, hj, hi⟩ := mem_links_iff_place?.1 h
    exact ⟨lt_length_of_place? hj, lt_length_of_place? hi⟩
  have hnext : ∀ j ∈ List.range d.nodes.length,
      downstreamOf d.links j ⊆ List.range d.nodes.length := fun j _ i hi =>
    List.mem_range.2 (hplaces (mem_downstreamOf.1 hi)).2
  have hparts := strongComponents_decomposes List.nodup_range hnext (List.length_range).le
  have hiff := hparts.length_le_one_iff List.nodup_range fun j hj => hproper j (mem_downstreamOf.1 hj)
  simp only [mem_downstreamOf] at hiff
  rw [cycle?, List.find?_eq_none]
  simp only [decide_eq_true_eq, Nat.not_lt, hiff]
  refine ⟨fun h j hcycle => ?_, fun h j _ => h j⟩
  obtain ⟨i, hi, -⟩ := Relation.TransGen.head'_iff.1 hcycle
  exact h j (List.mem_range.2 (hplaces hi).1) hcycle

/-- Paths of places are paths of nodes. -/
theorem acyclic_iff
    (hknown : ∀ e ∈ d.edges, d.nodes.any e.1.same = true ∧ d.nodes.any e.2.same = true) :
    (∀ j, ¬ Relation.TransGen (fun j i => (j, i) ∈ d.links) j j) ↔
      ∀ n, ¬ Relation.TransGen (Joins d.edges) n n := by
  constructor
  · intro h n hcycle
    have hstep (a b : NodeId) (hjoin : Joins d.edges a b) :
        ((d.place? a).getD 0, (d.place? b).getD 0) ∈ d.links := by
      obtain ⟨e, he, ha, hb⟩ := hjoin
      obtain ⟨j, hj⟩ := exists_place.2 (hknown e he).1
      obtain ⟨i, hi⟩ := exists_place.2 (hknown e he).2
      rw [← place?_congr (NodeId.same_iff.1 ha), ← place?_congr (NodeId.same_iff.1 hb), hj, hi]
      exact mem_links_iff_place?.2 ⟨e, he, hj, hi⟩
    exact h _ (hcycle.lift _ hstep)
  · intro h j hcycle
    have hstep (a b : Nat) (hlink : (a, b) ∈ d.links) :
        Joins d.edges (d.nodes.getD a .none) (d.nodes.getD b .none) := by
      obtain ⟨e, he, ha, hb⟩ := mem_links_iff_place?.1 hlink
      obtain ⟨halt, hsame, -⟩ := List.findIdx?_eq_some_iff_getElem.1 ha
      obtain ⟨hblt, hsame', -⟩ := List.findIdx?_eq_some_iff_getElem.1 hb
      rw [List.getD_eq_getElem _ _ halt, List.getD_eq_getElem _ _ hblt]
      exact ⟨e, he, hsame, hsame'⟩
    exact h _ (hcycle.lift (d.nodes.getD · .none) hstep)

theorem fault?_eq_none_iff_isNetwork : d.fault? = none ↔ IsNetwork d.nodes d.edges := by
  have hproper (h : ∀ e ∈ d.edges, e.1.same e.2 = false) (j : Nat) : (j, j) ∉ d.links := by
    intro hlink
    obtain ⟨e, he, hj, hi⟩ := mem_links_iff_place?.1 hlink
    exact NodeId.same_eq_false.1 (h e he)
      (Option.some.inj ((key_of_place? hj).symm.trans (key_of_place? hi)))
  rw [fault?_eq_none, nodeTwice?_eq_none, ← distinct_iff, List.findSome?_eq_none_iff, networkCycle?,
    Option.map_eq_none_iff]
  simp only [edgeFault?_eq_none, exists_place]
  constructor
  · rintro ⟨hdistinct, hedges, hcycle⟩
    have hknown (e : NodeId × NodeId) (he : e ∈ d.edges) := And.intro (hedges e he).1 (hedges e he).2.1
    have hapart (e : NodeId × NodeId) (he : e ∈ d.edges) := (hedges e he).2.2
    exact ⟨hdistinct, hknown, hapart,
      (acyclic_iff hknown).1 ((cycle?_eq_none (hproper hapart)).1 hcycle)⟩
  · intro h
    exact ⟨h.distinct, fun e he => ⟨(h.known e he).1, (h.known e he).2, h.proper e he⟩,
      (cycle?_eq_none (hproper h.proper)).2 ((acyclic_iff h.known).2 h.acyclic)⟩

end TopologyDraft

namespace Topology

variable {nodes : List NodeId} {edges : List (NodeId × NodeId)}

theorem ofDraft_eq (d : TopologyDraft) : (∃ t, ofDraft d = .ok t) ∧ d.fault? = none ∨
    ∃ cause, ofDraft d = misconfigured cause ∧ d.fault? = some cause := by
  unfold ofDraft
  split
  · exact .inl ⟨⟨_, rfl⟩, ‹_›⟩
  · exact .inr ⟨_, rfl, ‹_›⟩

theorem ofEdges_exists_iff :
    (∃ t, ofEdges nodes edges = .ok t) ↔ IsNetwork nodes edges := by
  rw [← TopologyDraft.fault?_eq_none_iff_isNetwork (d := ⟨nodes, edges⟩), ofEdges]
  rcases ofDraft_eq ⟨nodes, edges⟩ with ⟨hok, hfault⟩ | ⟨cause, herror, hfault⟩
  · simp [hok, hfault]
  · simp [herror, hfault, misconfigured]

theorem ofEdges_refused_iff :
    (∃ cause, ofEdges nodes edges = misconfigured cause) ↔ ¬ IsNetwork nodes edges := by
  rw [← TopologyDraft.fault?_eq_none_iff_isNetwork (d := ⟨nodes, edges⟩), ofEdges]
  rcases ofDraft_eq ⟨nodes, edges⟩ with ⟨⟨t, hok⟩, hfault⟩ | ⟨cause, herror, hfault⟩
  · simp [hok, hfault, misconfigured]
  · simp [herror, hfault, misconfigured]

/-- Two nodes that drain into each other are no network. -/
example : ¬ IsNetwork [.text "a", .text "b"] [(.text "a", .text "b"), (.text "b", .text "a")] :=
  ofEdges_refused_iff.1 ⟨_, rfl⟩

variable (t : Topology)

/-- The places of a network have ranks below their number that grow downstream. -/
theorem exists_rank : ∃ rank : Fin t.size → Nat, (∀ i, rank i < t.size) ∧
    ∀ j i : Fin t.size, t.drains j i = true → rank j < rank i := by
  have hlinks := (TopologyDraft.fault?_eq_none_iff_isNetwork.1 t.accepted)
  have hacyclic (i : Fin t.size) :
      ¬ Relation.TransGen (fun j i : Fin t.size => t.drains j i = true) i i := fun hcycle => by
    refine (TopologyDraft.acyclic_iff hlinks.known).2 hlinks.acyclic i
      (hcycle.lift Fin.val fun j i hdrains => ?_)
    rw [← t.links_eq]
    exact drains_iff_mem_links.1 hdrains
  obtain ⟨rank, hlt, hrank⟩ :=
    exists_rank_of_acyclic Finset.univ (fun _ _ _ => Finset.mem_univ _) hacyclic
  rw [Finset.card_fin] at hlt
  exact ⟨rank, fun i => hlt i (Finset.mem_univ i), hrank⟩

theorem outlets_eq_nil_iff : t.outlets = [] ↔ t.size = 0 := by
  constructor
  · intro hnone
    by_contra hsize
    obtain ⟨rank, -, hrank⟩ := t.exists_rank
    have : Nonempty (Fin t.size) := ⟨⟨0, Nat.pos_of_ne_zero hsize⟩⟩
    obtain ⟨j, hj⟩ := Finite.exists_max rank
    -- nothing is further downstream than the place of the highest rank
    have hout : t.node j ∈ t.outlets := (t.node_mem_outlets j).2 <|
      List.eq_nil_iff_forall_not_mem.2 fun i hi =>
        (hrank j i (mem_downstream.1 hi)).not_ge (hj i)
    rw [hnone] at hout
    exact absurd hout List.not_mem_nil
  · intro hsize
    refine List.eq_nil_iff_forall_not_mem.2 fun n hn => ?_
    obtain ⟨j, -, -⟩ := List.mem_map.1 hn
    exact absurd j.isLt (by omega)

variable {K : Type} [Scalar K] {s : Shape}

theorem inflowSum_eq_zero (hzero : (Scalar.zero + Scalar.zero : K) = Scalar.zero) {n : Nat}
    {xs : Fin n → K} {i : Nat} (h : ∀ j : Fin n, t.drains j i = true → xs j = Scalar.zero) :
    t.inflowSum xs i = Scalar.zero := by
  have hnone : t.inflowSum xs i = t.inflowSum (fun _ => Scalar.zero) i := inflowSum_congr h
  rw [hnone, inflowSum]
  induction t.upstream n i with
  | nil => rfl
  | cons j js ih => rw [List.foldl_cons, hzero, ih]

/-- After some rounds, nothing is left at the places of lower rank. -/
theorem iterate_aggregate_eq_zero (hzero : (Scalar.zero + Scalar.zero : K) = Scalar.zero)
    {rank : Fin t.size → Nat} (hrank : ∀ j i : Fin t.size, t.drains j i = true → rank j < rank i)
    (q : Grid (t.size :: s) K) {rounds : Nat} {i : Fin t.size} (hi : rank i < rounds) (k : Index s) :
    ((t.aggregate (s := s))^[rounds] q).get (.cons i k) = Scalar.zero := by
  induction rounds generalizing i with
  | zero => exact absurd hi (Nat.not_lt_zero _)
  | succ rounds ih =>
    rw [Function.iterate_succ_apply', get_aggregate]
    exact t.inflowSum_eq_zero hzero fun j hj => ih (by have := hrank j i hj; omega)

theorem iterate_aggregate (hzero : (Scalar.zero + Scalar.zero : K) = Scalar.zero)
    (q : Grid (t.size :: s) K) :
    (t.aggregate (s := s))^[t.size] q = Grid.replicate Scalar.zero := by
  obtain ⟨rank, hlt, hrank⟩ := t.exists_rank
  refine Grid.ext_get fun k => ?_
  rw [Grid.get_replicate]
  exact t.iterate_aggregate_eq_zero hzero hrank q (hlt k.head) k.tail

/-- Nodes and edges are accepted exactly if they are an acyclic network, and are misconfigured
otherwise. In an accepted network nothing is left of any outflow, missing and infinite ones included,
when it is gathered as many times as there are nodes, and there is an outlet if there is a node. -/
theorem acyclic_networks_run_dry (nodes : List NodeId) (edges : List (NodeId × NodeId)) :
    ((∃ t, ofEdges nodes edges = .ok t) ↔ IsNetwork nodes edges) ∧
      ((∃ cause, ofEdges nodes edges = misconfigured cause) ↔ ¬ IsNetwork nodes edges) ∧
      ∀ t : Topology,
        (∀ (s : Shape) (q : Grid (t.size :: s) Float),
          (t.aggregate (s := s))^[t.size] q = Grid.replicate Scalar.zero) ∧
        (t.outlets = [] ↔ t.size = 0) :=
  ⟨ofEdges_exists_iff, ofEdges_refused_iff, fun t =>
    ⟨fun _ q => t.iterate_aggregate (by decide) q, t.outlets_eq_nil_iff⟩⟩

end Topology

end Catchment
