import Catchment.Proofs.RebuiltNetworks

/-!
# Flow directions

The network on the cells of a grid is the one that the codes describe. A cell with one of the eight
codes points at a neighbour, and a node drains into the node on the cell that its own cell points
at. Places are accepted exactly if they are different cells of the grid and following the codes from
one of them to another never leads back. Listing the cells in another order renames the nodes.
-/
namespace Catchment

namespace FlowGrid

variable {K : Type} [Scalar K]

def code? (g : FlowGrid K) (c : Location) : Option Int :=
  (g.codeAt? c).bind fun e => e.truncate.toOption

/-- Every code of the grid is an integer, or a number with an integer part. -/
def IsWhole (g : FlowGrid K) : Prop := ∀ k, ∃ z, (g.codes.get k).truncate = .ok z

def ofIntegers (rows columns : Nat) (code : Index [rows, columns] → Int) : FlowGrid K :=
  ⟨rows, columns, Grid.ofFn fun k => .integer (code k)⟩

def positionOf (c : Location) : List (Entry K) := [.integer c.1, .integer c.2]

/-- The first cell has one of the eight codes, whose step leads from it to the second. -/
def Points (g : FlowGrid K) (c c' : Location) : Prop :=
  ∃ z d, g.code? c = some z ∧ flowStep? z = some d ∧ c' = (c.1 + d.1, c.2 + d.2)

/-- A step along the codes from one of some cells to another. -/
def Leads (g : FlowGrid K) (cells : List Location) (c c' : Location) : Prop :=
  c ∈ cells ∧ c' ∈ cells ∧ g.Points c c'

/-- The cell at the first place points at the cell at the second. -/
def Drains (g : FlowGrid K) (cells : List Location) (k m : Nat) : Prop :=
  ∃ c c', cells[k]? = some c ∧ cells[m]? = some c' ∧ g.Points c c'

/-- Different cells of the grid, from none of which the codes lead back to it through the others. -/
structure Drainable (g : FlowGrid K) (cells : List Location) : Prop where
  distinct : cells.Nodup
  inside : ∀ c ∈ cells, 0 ≤ c.1 ∧ c.1 < g.rows ∧ 0 ≤ c.2 ∧ c.2 < g.columns
  acyclic : ∀ c, ¬ Relation.TransGen (g.Leads cells) c c

variable {g : FlowGrid K} {cells cells' : List Location}

theorem isWhole_ofIntegers (rows columns : Nat) (code : Index [rows, columns] → Int) :
    (ofIntegers rows columns code : FlowGrid K).IsWhole :=
  fun k => ⟨code k, congrArg Entry.truncate (Grid.get_ofFn _ k)⟩

theorem mapM_cellOf (cells : List Location) :
    (cells.map positionOf).mapM (cellOf (K := K)) = .ok cells := map_mapM_eq_ok fun _ _ => rfl

theorem flowStep?_ne_zero {z : Int} {d : Location} (h : flowStep? z = some d) : d ≠ (0, 0) := by
  rintro rfl
  unfold flowStep? at h
  split at h <;> simp at h

theorem Points.ne {c c' : Location} (h : g.Points c c') : c ≠ c' := by
  obtain ⟨z, d, -, hstep, rfl⟩ := h
  intro heq
  have h1 := congrArg Prod.fst heq
  have h2 := congrArg Prod.snd heq
  simp only at h1 h2
  exact flowStep?_ne_zero hstep (Prod.ext (by simp; omega) (by simp; omega))

omit [Scalar K] in
theorem codeAt?_isSome {c : Location} : (g.codeAt? c).isSome = true ↔
    0 ≤ c.1 ∧ c.1 < g.rows ∧ 0 ≤ c.2 ∧ c.2 < g.columns := by
  unfold codeAt?
  split <;> simp_all

omit [Scalar K] in
theorem cellOutside?_eq_none : g.cellOutside? cells = none ↔
    ∀ c ∈ cells, 0 ≤ c.1 ∧ c.1 < g.rows ∧ 0 ≤ c.2 ∧ c.2 < g.columns := by
  simp only [cellOutside?, Option.map_eq_none_iff, List.find?_eq_none, ← codeAt?_isSome]
  constructor
  · intro h c hc
    obtain ⟨k, hk, rfl⟩ := List.mem_iff_getElem.1 hc
    simpa [Option.isSome_iff_ne_none] using
      h (cells[k], k) (List.mem_zipIdx_iff_getElem?.2 (List.getElem?_eq_getElem hk))
  · intro h p hp
    have hmem := List.mem_of_getElem? (List.mem_zipIdx_iff_getElem?.1 hp)
    simpa [Option.isSome_iff_ne_none] using h p.1 hmem

/-- A cell of a grid of integers has an integer. -/
theorem exists_code (hwhole : g.IsWhole) {c : Location} (hc : (g.codeAt? c).isSome = true) :
    ∃ e z, g.codeAt? c = some e ∧ e.truncate = .ok z ∧ g.code? c = some z := by
  have hcell := hc
  unfold codeAt? at hcell
  split at hcell
  · rename_i hin
    obtain ⟨z, hz⟩ := hwhole (⟨c.1.toNat, by omega⟩, ⟨c.2.toNat, by omega⟩, ())
    refine ⟨_, z, dif_pos hin, hz, ?_⟩
    rw [code?, codeAt?, dif_pos hin, Option.bind_some, hz]
    rfl
  · simp at hcell

theorem mapM_truncate (hwhole : g.IsWhole) (h : ∀ c ∈ cells, (g.codeAt? c).isSome = true) :
    (cells.filterMap g.codeAt?).mapM Entry.truncate =
      .ok (cells.map fun c => (g.code? c).getD 0) := by
  induction cells with
  | nil => rfl
  | cons c cells ih =>
    obtain ⟨e, z, he, hz, hcode⟩ := exists_code hwhole (h c List.mem_cons_self)
    rw [List.filterMap_cons_some he, List.mapM_cons, hz, ok_bind,
      ih fun c hc => h c (List.mem_cons_of_mem _ hc), List.map_cons, hcode]
    rfl

theorem points_iff (hwhole : g.IsWhole) {c c' : Location} (hc : (g.codeAt? c).isSome = true) :
    g.Points c c' ↔ flowTarget? ((g.code? c).getD 0) c = some c' := by
  obtain ⟨-, z, -, -, hcode⟩ := exists_code hwhole hc
  simp only [Points, flowTarget?, hcode, Option.getD_some, Option.map_eq_some_iff,
    Option.some.injEq]
  constructor
  · rintro ⟨_, d, rfl, hstep, rfl⟩
    exact ⟨d, hstep, rfl⟩
  · rintro ⟨d, hstep, rfl⟩
    exact ⟨z, d, rfl, hstep, rfl⟩

theorem findIdx?_eq_some {target : Location} {m : Nat} (hdistinct : cells.Nodup) :
    cells.findIdx? (fun c => c = target) = some m ↔ cells[m]? = some target := by
  rw [List.findIdx?_eq_some_iff_getElem, List.getElem?_eq_some_iff]
  constructor
  · rintro ⟨hm, htarget, -⟩
    exact ⟨hm, of_decide_eq_true htarget⟩
  · rintro ⟨hm, htarget⟩
    refine ⟨hm, decide_eq_true htarget, fun j hj hsame => ?_⟩
    have := (hdistinct.getElem_inj_iff).1 ((of_decide_eq_true hsame).trans htarget.symm)
    omega

def flowNodes (count : Nat) : List NodeId := (List.range count).map fun k : Nat => .integer k

def flowEdges (g : FlowGrid K) (cells : List Location) : List (NodeId × NodeId) :=
  (flowLinks (cells.map fun c => (c, (g.code? c).getD 0))).map fun l =>
    (.integer l.1, .integer l.2)

def cellOfNode (cells : List Location) (n : NodeId) : Location :=
  match n.key with
  | .integer k => cells.getD k.toNat (0, 0)
  | _ => (0, 0)

theorem flowNodes_getElem? {count k : Nat} {a : NodeId} :
    (flowNodes count)[k]? = some a ↔ k < count ∧ a = .integer k := by
  simp only [flowNodes, List.getElem?_map, Option.map_eq_some_iff, List.getElem?_eq_some_iff,
    List.getElem_range, List.length_range]
  constructor
  · rintro ⟨_, ⟨hk, rfl⟩, rfl⟩
    exact ⟨hk, rfl⟩
  · rintro ⟨hk, rfl⟩
    exact ⟨k, ⟨hk, rfl⟩, rfl⟩

theorem flowNodes_distinct (count : Nat) :
    (flowNodes count).Pairwise fun a b => a.same b = false := by
  refine List.pairwise_map.2 (List.nodup_range.imp fun hne => NodeId.same_eq_false.2 ?_)
  simpa [NodeId.key] using hne

theorem flowNodes_any {k : Nat} (hk : k < cells.length) :
    (flowNodes cells.length).any (NodeId.integer k).same = true :=
  List.any_eq_true.2 ⟨_, List.mem_of_getElem? (flowNodes_getElem?.2 ⟨hk, rfl⟩),
    NodeId.same_iff.2 rfl⟩

theorem cellOfNode_eq {n : NodeId} {k : Nat} {c : Location} (hn : n.key = .integer k)
    (hc : cells[k]? = some c) : cellOfNode cells n = c := by
  simp [cellOfNode, hn, hc]

theorem Drains.lt_length {k m : Nat} (h : g.Drains cells k m) :
    k < cells.length ∧ m < cells.length := by
  obtain ⟨c, c', hc, hc', -⟩ := h
  exact ⟨(List.getElem?_eq_some_iff.1 hc).1, (List.getElem?_eq_some_iff.1 hc').1⟩

theorem Drains.ne {k m : Nat} (h : g.Drains cells k m) : k ≠ m := by
  obtain ⟨c, c', hc, hc', hpoints⟩ := h
  rintro rfl
  exact hpoints.ne (Option.some.inj (hc.symm.trans hc'))

section

variable (hwhole : g.IsWhole) (hdistinct : cells.Nodup)
  (hinside : ∀ c ∈ cells, (g.codeAt? c).isSome = true)

include hwhole hdistinct hinside

theorem mem_flowLinks {k m : Nat} :
    (k, m) ∈ flowLinks (cells.map fun c => (c, (g.code? c).getD 0)) ↔ g.Drains cells k m := by
  simp only [Topology.mem_flowLinks, List.getElem?_map, Option.map_eq_some_iff, List.findIdx?_map,
    Function.comp_def, findIdx?_eq_some hdistinct]
  constructor
  · rintro ⟨_, c', ⟨c, hc, rfl⟩, htarget, hc'⟩
    exact ⟨c, c', hc, hc', (points_iff hwhole (hinside c (List.mem_of_getElem? hc))).2 htarget⟩
  · rintro ⟨c, c', hc, hc', hpoints⟩
    exact ⟨_, c', ⟨c, hc, rfl⟩,
      (points_iff hwhole (hinside c (List.mem_of_getElem? hc))).1 hpoints, hc'⟩

/-- A node drains into another exactly if the cell of the first points at the cell of the second. -/
theorem mem_flowEdges {a b : NodeId} : (a, b) ∈ g.flowEdges cells ↔
    ∃ k m : Nat, a = .integer k ∧ b = .integer m ∧ g.Drains cells k m := by
  have hlink {k m : Nat} := mem_flowLinks hwhole hdistinct hinside (k := k) (m := m)
  rw [flowEdges, List.mem_map]
  constructor
  · rintro ⟨⟨k, m⟩, hkm, heq⟩
    obtain ⟨rfl, rfl⟩ := Prod.mk.inj heq
    exact ⟨k, m, rfl, rfl, hlink.1 hkm⟩
  · rintro ⟨k, m, rfl, rfl, hdrains⟩
    exact ⟨(k, m), hlink.2 hdrains, rfl⟩

theorem joins_flowEdges {a b : NodeId} : Joins (g.flowEdges cells) a b ↔
    ∃ k m : Nat, a.key = .integer k ∧ b.key = .integer m ∧ g.Drains cells k m := by
  have hedge {a b : NodeId} := mem_flowEdges hwhole hdistinct hinside (a := a) (b := b)
  constructor
  · rintro ⟨⟨a', b'⟩, he, ha, hb⟩
    obtain ⟨k, m, rfl, rfl, hdrains⟩ := hedge.1 he
    exact ⟨k, m, (NodeId.same_iff.1 ha).symm, (NodeId.same_iff.1 hb).symm, hdrains⟩
  · rintro ⟨k, m, ha, hb, hdrains⟩
    exact ⟨_, hedge.2 ⟨k, m, rfl, rfl, hdrains⟩, NodeId.same_iff.2 ha.symm,
      NodeId.same_iff.2 hb.symm⟩

/-- Paths of nodes are paths of cells. -/
theorem acyclic_flowEdges : (∀ n, ¬ Relation.TransGen (Joins (g.flowEdges cells)) n n) ↔
    ∀ c, ¬ Relation.TransGen (g.Leads cells) c c := by
  have hjoins {a b : NodeId} := joins_flowEdges hwhole hdistinct hinside (a := a) (b := b)
  constructor
  · intro h c hcycle
    have hstep (c c' : Location) (hleads : g.Leads cells c c') :
        Joins (g.flowEdges cells) (.integer (cells.idxOf c)) (.integer (cells.idxOf c')) :=
      hjoins.2 ⟨_, _, rfl, rfl, c, c', List.getElem?_idxOf hleads.1,
        List.getElem?_idxOf hleads.2.1, hleads.2.2⟩
    exact h _ (hcycle.lift (fun c => NodeId.integer (cells.idxOf c)) hstep)
  · intro h n hcycle
    have hstep (a b : NodeId) (hab : Joins (g.flowEdges cells) a b) :
        g.Leads cells (cellOfNode cells a) (cellOfNode cells b) := by
      obtain ⟨k, m, ha, hb, c, c', hc, hc', hpoints⟩ := hjoins.1 hab
      rw [cellOfNode_eq ha hc, cellOfNode_eq hb hc']
      exact ⟨List.mem_of_getElem? hc, List.mem_of_getElem? hc', hpoints⟩
    exact h _ (hcycle.lift _ hstep)

/-- The nodes and edges of different cells are a network exactly if the codes do not lead from a
cell back to it. -/
theorem isNetwork_iff : IsNetwork (flowNodes cells.length) (g.flowEdges cells) ↔
    ∀ c, ¬ Relation.TransGen (g.Leads cells) c c := by
  rw [← acyclic_flowEdges hwhole hdistinct hinside]
  have hedge (e : NodeId × NodeId) (he : e ∈ g.flowEdges cells) :=
    (mem_flowEdges hwhole hdistinct hinside (a := e.1) (b := e.2)).1 he
  refine ⟨fun h => h.acyclic, fun h => ⟨flowNodes_distinct _, fun e he => ?_, fun e he => ?_, h⟩⟩
  · obtain ⟨k, m, h1, h2, hdrains⟩ := hedge e he
    rw [h1, h2]
    exact ⟨flowNodes_any hdrains.lt_length.1, flowNodes_any hdrains.lt_length.2⟩
  · obtain ⟨k, m, h1, h2, hdrains⟩ := hedge e he
    rw [h1, h2, NodeId.same_eq_false]
    simpa [NodeId.key] using hdrains.ne

end

theorem Drainable.of_perm (h : g.Drainable cells) (hperm : cells.Perm cells') :
    g.Drainable cells' := by
  have hleads : g.Leads cells' = g.Leads cells := by
    funext c c'
    rw [Leads, Leads, hperm.mem_iff, hperm.mem_iff]
  refine ⟨hperm.nodup h.distinct, fun c hc => h.inside c (hperm.mem_iff.2 hc), ?_⟩
  rw [hleads]
  exact h.acyclic

/-- The cells of positions in another order are the cells in that order. -/
theorem exists_cells {positions positions' : List (List (Entry K))}
    (hcells : positions.mapM cellOf = .ok cells)
    (σ : Fin positions'.length ≃ Fin positions.length)
    (hσ : ∀ k, positions'.get k = positions.get (σ k)) :
    ∃ cells', positions'.mapM cellOf = .ok cells' ∧ cells.Perm cells' ∧
      ∀ k, cells'[k.val]? = cells[(σ k).val]? := by
  obtain ⟨hlength, hget⟩ := List.forall₂_iff_get.1 (mapM_eq_ok.1 hcells)
  let cell (k : Fin positions.length) : Location := cells.get (k.cast hlength)
  have hcell : cells = (List.finRange positions.length).map cell :=
    List.ext_getElem (by simp [hlength]) fun k _ _ => by simp [cell]
  have hperm : (List.finRange positions.length).Perm ((List.finRange positions'.length).map σ) :=
    (List.perm_ext_iff_of_nodup (List.nodup_finRange _)
      ((List.nodup_finRange _).map σ.injective)).2 fun k => by simp [σ.surjective k]
  refine ⟨(List.finRange positions'.length).map (cell ∘ σ), ?_, ?_, fun k => ?_⟩
  · refine mapM_eq_ok.2 (List.forall₂_iff_get.2 ⟨by simp, fun k hk _ => ?_⟩)
    rw [hσ ⟨k, hk⟩]
    simpa [cell] using hget (σ ⟨k, hk⟩) (σ ⟨k, hk⟩).isLt (hlength ▸ (σ ⟨k, hk⟩).isLt)
  · rw [hcell, ← List.map_map]
    exact hperm.map cell
  · simp [cell]

theorem drains_congr {k m k' m' : Nat} (hk : cells'[k]? = cells[k']?)
    (hm : cells'[m]? = cells[m']?) : g.Drains cells' k m ↔ g.Drains cells k' m' := by
  rw [Drains, Drains, hk, hm]

end FlowGrid

namespace Topology

variable {K : Type} [Scalar K] {grid : FlowGrid K} {positions : List (List (Entry K))}
  {cells : List Location}

/-- The network that the codes of a grid describe on some of its cells: the nodes are named by their
places in the list of cells, and drain into the node on the cell that their own cell points at. -/
structure Follows (t : Topology) (grid : FlowGrid K) (cells : List Location) : Prop where
  nodes : t.nodes = (List.range cells.length).map fun k : Nat => .integer k
  edges : ∀ a b, (a, b) ∈ t.edges ↔
    ∃ k m : Nat, a = .integer k ∧ b = .integer m ∧ grid.Drains cells k m
  drains : ∀ k m : Nat, t.drains k m = true ↔ grid.Drains cells k m
  unbranched : t.Unbranched

theorem ofFlowGrid_eq (hwhole : grid.IsWhole) (hcells : positions.mapM FlowGrid.cellOf = .ok cells)
    (hdistinct : cells.Nodup) (hnone : grid.cellOutside? cells = none) :
    ofFlowGrid grid positions =
      ofEdges (FlowGrid.flowNodes cells.length) (grid.flowEdges cells) := by
  have hinside (c : Location) (hc : c ∈ cells) : (grid.codeAt? c).isSome = true :=
    FlowGrid.codeAt?_isSome.2 (FlowGrid.cellOutside?_eq_none.1 hnone c hc)
  rw [ofFlowGrid, hcells, ok_bind]
  simp only [hdistinct, decide_true, Bool.not_true, Bool.false_eq_true, if_false, hnone,
    FlowGrid.mapM_truncate hwhole hinside, ok_bind]
  rw [FlowGrid.flowEdges, List.map_prod_left_eq_zip]
  rfl

/-- Cells are accepted exactly if they can be drained, and are misconfigured otherwise. -/
theorem ofFlowGrid_cases (hwhole : grid.IsWhole)
    (hcells : positions.mapM FlowGrid.cellOf = .ok cells) :
    grid.Drainable cells ∧ (∃ t, ofFlowGrid grid positions = .ok t) ∨
      ¬ grid.Drainable cells ∧ ∃ cause, ofFlowGrid grid positions = misconfigured cause := by
  by_cases hdistinct : cells.Nodup
  swap
  · refine .inr ⟨fun h => hdistinct h.distinct, .sharedCell, ?_⟩
    rw [ofFlowGrid, hcells, ok_bind]
    simp only [hdistinct, decide_false, Bool.not_false, if_true]
    rfl
  cases hnone : grid.cellOutside? cells with
  | some cause =>
    refine .inr ⟨fun h => ?_, cause, ?_⟩
    · rw [FlowGrid.cellOutside?_eq_none.2 h.inside] at hnone
      simp at hnone
    · rw [ofFlowGrid, hcells, ok_bind]
      simp [hdistinct, hnone]
  | none =>
    have hbounds := FlowGrid.cellOutside?_eq_none.1 hnone
    have hnetwork := FlowGrid.isNetwork_iff hwhole hdistinct fun c hc =>
      FlowGrid.codeAt?_isSome.2 (hbounds c hc)
    rw [ofFlowGrid_eq hwhole hcells hdistinct hnone]
    by_cases hacyclic : ∀ c, ¬ Relation.TransGen (grid.Leads cells) c c
    · exact .inl ⟨⟨hdistinct, hbounds, hacyclic⟩, ofEdges_exists_iff.2 (hnetwork.2 hacyclic)⟩
    · exact .inr ⟨fun h => hacyclic h.acyclic,
        ofEdges_refused_iff.2 fun h => hacyclic (hnetwork.1 h)⟩

theorem ofFlowGrid_exists_iff (hwhole : grid.IsWhole)
    (hcells : positions.mapM FlowGrid.cellOf = .ok cells) :
    (∃ t, ofFlowGrid grid positions = .ok t) ↔ grid.Drainable cells := by
  obtain ⟨hdrainable, hok⟩ | ⟨hnot, cause, hrefused⟩ := ofFlowGrid_cases hwhole hcells
  · exact iff_of_true hok hdrainable
  · exact iff_of_false (by simp [hrefused, misconfigured]) hnot

theorem ofFlowGrid_refused_iff (hwhole : grid.IsWhole)
    (hcells : positions.mapM FlowGrid.cellOf = .ok cells) :
    (∃ cause, ofFlowGrid grid positions = misconfigured cause) ↔ ¬ grid.Drainable cells := by
  obtain ⟨hdrainable, t, ht⟩ | ⟨hnot, hrefused⟩ := ofFlowGrid_cases hwhole hcells
  · exact iff_of_false (by simp [ht, misconfigured]) (not_not_intro hdrainable)
  · exact iff_of_true hrefused hnot

theorem follows_of_ofFlowGrid (hwhole : grid.IsWhole)
    (hcells : positions.mapM FlowGrid.cellOf = .ok cells) {t : Topology}
    (h : ofFlowGrid grid positions = .ok t) : t.Follows grid cells := by
  have hdrainable := (ofFlowGrid_exists_iff hwhole hcells).1 ⟨t, h⟩
  have hinside (c : Location) (hc : c ∈ cells) : (grid.codeAt? c).isSome = true :=
    FlowGrid.codeAt?_isSome.2 (hdrainable.inside c hc)
  have hdraft := h
  rw [ofFlowGrid_eq hwhole hcells hdrainable.distinct
    (FlowGrid.cellOutside?_eq_none.2 hdrainable.inside)] at hdraft
  have hdraft := ofDraft_eq_ok hdraft
  have hnodes : t.nodes = FlowGrid.flowNodes cells.length := by rw [hdraft]
  have hedges : t.edges = grid.flowEdges cells := by rw [hdraft]
  refine ⟨hnodes, fun a b => ?_, fun k m => ?_, ofFlowGrid_unbranched h⟩
  · rw [hedges, FlowGrid.mem_flowEdges hwhole hdrainable.distinct hinside]
  · simp only [drains_iff, hnodes, hedges, FlowGrid.flowNodes_getElem?,
      FlowGrid.joins_flowEdges hwhole hdrainable.distinct hinside]
    constructor
    · rintro ⟨a, b, ⟨-, rfl⟩, ⟨-, rfl⟩, k', m', hk, hm, hdrains⟩
      obtain rfl : k = k' := by simpa [NodeId.key] using hk
      obtain rfl : m = m' := by simpa [NodeId.key] using hm
      exact hdrains
    · intro hdrains
      obtain ⟨hk, hm⟩ := hdrains.lt_length
      exact ⟨_, _, ⟨hk, rfl⟩, ⟨hm, rfl⟩, k, m, rfl, rfl, hdrains⟩

/-- The second network is the first one with its nodes in another order. -/
structure Renames {count count' : Nat} (σ : Fin count' ≃ Fin count) (t t' : Topology) : Prop where
  nodes : t'.nodes = t.nodes
  edges : ∀ k m : Fin count', ((.integer k.val, .integer m.val) ∈ t'.edges) ↔
    (.integer (σ k).val, .integer (σ m).val) ∈ t.edges
  drains : ∀ k m, t'.drains k.val m.val = t.drains (σ k).val (σ m).val

theorem Follows.renames {t t' : Topology} {cells' : List Location} {count count' : Nat}
    (h : t.Follows grid cells) (h' : t'.Follows grid cells') (hperm : cells.Perm cells')
    {σ : Fin count' ≃ Fin count} (hget : ∀ k : Fin count', cells'[k.val]? = cells[(σ k).val]?) :
    Renames σ t t' where
  nodes := by rw [h.nodes, h'.nodes, hperm.length_eq]
  edges k m := by
    rw [h.edges, h'.edges]
    simpa using FlowGrid.drains_congr (hget k) (hget m)
  drains k m := by
    rw [Bool.eq_iff_iff, h.drains, h'.drains]
    exact FlowGrid.drains_congr (hget k) (hget m)

def brook : FlowGrid Float :=
  .ofIntegers 2 3 fun (r, c, _) => (([[1, 4, 0], [0, 0, 16]] : List (List Int)).getD r []).getD c 0

def brookCells : List Location := [(0, 0), (0, 1), (1, 1), (1, 2)]

end Topology

end Catchment
