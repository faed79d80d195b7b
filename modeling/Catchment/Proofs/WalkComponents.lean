import Catchment.Proofs.DepthFirstWalks

/-!
# Components of walks

When all successors of a node are seen and it reaches nothing below itself on the stack, then it and
what is above it are a component; otherwise it stays on the stack. So a walk divides the nodes into
components: two nodes share one exactly if each leads to the other, and none leads from a component to
a later one.
-/
namespace Catchment

variable {α : Type} [DecidableEq α] {next : α → List α}

namespace Walk

variable {w w' : Walk α}

namespace Visiting

variable {nodes path seen : List α} {v : α} {low : Nat}

theorem number_self (h : Visiting next nodes path w v seen low w') (hv : v ∉ w.met) :
    w'.number v = w.met.length :=
  (number_eq h.suffix List.mem_cons_self).trans (number_enter hv)

theorem followed_off_path (h : Visiting next nodes path w v seen low w')
    (hseen : next v ⊆ seen) : ∀ x ∈ w'.met, x ∉ path → ∀ y ∈ next x, y ∈ w'.met := by
  intro x hx hpath y hy
  by_cases hxv : x = v
  · subst hxv
    exact (h.followed y (hseen hy)).1
  · exact h.consistent.followed x hx (by simp [hxv, hpath]) y hy

structure Top (next : α → List α) (w : Walk α) (v : α) (low : Nat) (w' : Walk α)
    (above : List α) : Prop where
  stack : w'.stack = above ++ v :: w.stack
  notMem : v ∉ above
  new : ∀ x ∈ above ++ [v], x ∉ w.met
  lowest : ∀ x ∈ above ++ [v], ∀ y ∈ next x, y ∈ w.stack → low ≤ w.number y

theorem exists_top (h : Visiting next nodes path w v seen low w') (hv : v ∉ w.met)
    (hseen : next v ⊆ seen) : ∃ above, Top next w v low w' above := by
  obtain ⟨above, hstack, habove⟩ := h.above
  have honce : (above ++ v :: w.stack).Nodup := by
    rw [← hstack]
    exact (List.nodup_append.1 (h.consistent.parts.nodup_iff.1 h.consistent.once)).1
  refine ⟨above, hstack, fun hmem => ?_, fun x hx => ?_, fun x hx y hy hystack => ?_⟩
  · exact (List.nodup_append.1 honce).2.2 v hmem v List.mem_cons_self rfl
  · rcases List.mem_append.1 hx with hx | hx
    · exact (habove x hx).1
    · rwa [List.mem_singleton.1 hx]
  · rcases List.mem_append.1 hx with hx | hx
    · exact (habove x hx).2 y hy hystack
    · rw [List.mem_singleton.1 hx] at hy
      exact (h.followed y (hseen hy)).2 hystack

theorem Top.mem_stack {above : List α} (h : Top next w v low w' above) {x : α}
    (hx : x ∈ above ++ [v]) : x ∈ w'.stack := by
  rw [h.stack]
  rcases List.mem_append.1 hx with hx | hx
  · exact List.mem_append_left _ hx
  · exact List.mem_append_right _ (by simp [List.mem_singleton.1 hx])

section

variable {above : List α} (h : Visiting next nodes path w v seen low w')
  (hw : w.Consistent next nodes path) (hv : v ∉ w.met) (hpath : ∀ g ∈ path, Leads next g v)
  (hseen : next v ⊆ seen) (htop : Top next w v low w' above)

include h hv hpath htop in
/-- The node leads to what is above it, and back. -/
theorem leads_top {x : α} (hx : x ∈ above ++ [v]) : Leads next v x ∧ Leads next x v := by
  have hstack := htop.mem_stack hx
  constructor
  · refine h.consistent.down v List.mem_cons_self x hstack ?_
    rw [h.number_self hv]
    exact length_le_number h.suffix_met (htop.new x hx)
  · obtain ⟨g, hg, -, hlead⟩ := h.consistent.up x hstack
    rcases List.mem_cons.1 hg with rfl | hg
    · exact hlead
    · exact hlead.trans (hpath g hg)

include h hw hseen htop in
/-- Where nothing below is reached, what the top leads to is part of it or finished. -/
theorem mem_next_top (hlow : low = w.met.length) {x y : α} (hx : x ∈ above ++ [v])
    (hy : y ∈ next x) : y ∈ above ++ [v] ∨ y ∈ w'.found.flatten := by
  have hoff : x ∉ path := fun hmem => htop.new x hx (hw.mem_of_mem_stack (hw.path_subset hmem))
  have hxmet := h.consistent.mem_of_mem_stack (htop.mem_stack hx)
  rcases h.consistent.mem_or_mem (h.followed_off_path hseen x hxmet hoff y hy) with hystack | hyfound
  · left
    rw [htop.stack, List.mem_append, List.mem_cons] at hystack
    rcases hystack with hyabove | rfl | hyold
    · exact List.mem_append_left _ hyabove
    · simp
    · have hle := htop.lowest x hx y hy hyold
      have hlt := number_lt (hw.mem_of_mem_stack hyold)
      omega
  · exact .inr hyfound

include h hw hv hpath hseen htop

theorem isComponent_top (hlow : low = w.met.length) : IsComponent next (above ++ [v]) := by
  refine ⟨by simp, fun x hx y => ⟨fun hy => ?_, fun hlead => ?_⟩⟩
  · obtain ⟨hvx, hxv⟩ := h.leads_top hv hpath htop hx
    obtain ⟨hvy, hyv⟩ := h.leads_top hv hpath htop hy
    exact ⟨hxv.trans hvy, hyv.trans hvx⟩
  · have hmem {z : α} (hxz : Leads next x z) : z ∈ above ++ [v] ∨ z ∈ w'.found.flatten := by
      induction hxz with
      | refl => exact .inl hx
      | tail _ hstep ih =>
        rcases ih with ih | ih
        · exact h.mem_next_top hw hseen htop hlow ih hstep
        · exact .inr (h.consistent.settled.mem_next ih hstep)
    -- what is finished does not lead back to the stack
    refine (hmem hlead.1).resolve_right fun hfound => ?_
    have hxfound := h.consistent.settled.mem_of_leads hfound hlead.2
    exact h.consistent.notMem_found (htop.mem_stack hx) hxfound

/-- A node that reaches nothing below itself closes a component. -/
theorem close (hlow : low = w.met.length) :
    Visited next nodes path w v low (w'.close v) := by
  have hnotMem : ∀ x ∈ above, decide (x ≠ v) = true := fun x hx =>
    decide_eq_true fun hxv => htop.notMem (hxv ▸ hx)
  have htake : w'.stack.takeWhile (· ≠ v) = above := by
    rw [htop.stack, List.takeWhile_append_of_pos hnotMem]
    simp
  have hdrop : (w'.stack.dropWhile (· ≠ v)).drop 1 = w.stack := by
    rw [htop.stack, List.dropWhile_append_of_pos hnotMem]
    simp
  have hclosed : w'.close v =
      { w' with stack := w.stack, found := (above ++ [v]) :: w'.found } := by
    rw [Walk.close, htake, hdrop]
  have hnumber {x : α} (hx : x ∈ w.stack) : w'.number x = w.number x :=
    number_eq h.suffix_met (hw.mem_of_mem_stack hx)
  have hparts : w'.met.Perm (w.stack ++ ((above ++ [v]) :: w'.found).flatten) := by
    refine h.consistent.parts.trans ?_
    rw [htop.stack, List.append_cons, List.flatten_cons, ← List.append_assoc]
    exact .append_right _ List.perm_append_comm
  rw [hclosed]
  refine ⟨⟨h.consistent.once, h.consistent.within, hparts, hw.path_subset,
    h.followed_off_path hseen, fun g hg x hx hle => ?_, fun x hx => ?_, ?_⟩, h.suffix_met,
    h.suffix.subset List.mem_cons_self, ⟨[], rfl, by simp⟩, .inl hlow⟩
  · have hle : w'.number g ≤ w'.number x := hle
    rw [hnumber (hw.path_subset hg), hnumber hx] at hle
    exact hw.down g hg x hx hle
  · obtain ⟨g, hg, hle, hlead⟩ := hw.up x hx
    refine ⟨g, hg, ?_, hlead⟩
    show w'.number g ≤ w'.number x
    rwa [hnumber (hw.path_subset hg), hnumber hx]
  · exact .cons (h.isComponent_top hw hv hpath hseen htop hlow)
      (fun x hx y hy => h.mem_next_top hw hseen htop hlow hx hy) h.consistent.settled

/-- A node that reaches something below itself stays on the stack. -/
theorem keep (hlow : low ≠ w.met.length) : Visited next nodes path w v low w' := by
  obtain ⟨y, hy, hynumber, hvy⟩ := h.reached.resolve_left hlow
  have hold {x : α} (hx : x ∈ w.stack) : x ∈ w'.stack := by
    rw [htop.stack]
    exact List.mem_append_right _ (List.mem_cons_of_mem v hx)
  refine ⟨⟨h.consistent.once, h.consistent.within, h.consistent.parts,
    fun g hg => hold (hw.path_subset hg), h.followed_off_path hseen,
    fun g hg => h.consistent.down g (List.mem_cons_of_mem v hg), fun x hx => ?_,
    h.consistent.settled⟩, h.suffix_met, h.suffix.subset List.mem_cons_self,
    ⟨above ++ [v], by rw [htop.stack, List.append_cons],
      fun x hx => ⟨htop.new x hx, htop.lowest x hx⟩⟩, h.reached⟩
  obtain ⟨g, hg, hle, hlead⟩ := h.consistent.up x hx
  rcases List.mem_cons.1 hg with rfl | hg
  · -- the node itself leads on to something on the path below it
    obtain ⟨g', hg', hle', hlead'⟩ := hw.up y hy
    refine ⟨g', hg', ?_, hlead.trans (hvy.trans hlead')⟩
    rw [h.number_self hv] at hle
    rw [number_eq h.suffix_met (hw.mem_of_mem_stack (hw.path_subset hg'))]
    have := number_lt (hw.mem_of_mem_stack hy)
    omega
  · exact ⟨g, hg, hle, hlead⟩

end

end Visiting

section

variable {nodes path seen : List α} {v : α} {low : Nat}

theorem visiting_foldl {visit : α → Walk α → Nat × Walk α}
    (hvisit : ∀ u ∈ next v, ∀ w', w'.Consistent next nodes (v :: path) →
      (w.enter v).met <:+ w'.met → u ∉ w'.met →
      Visited next nodes (v :: path) w' u (visit u w').1 (visit u w').2)
    (hw : w.Consistent next nodes path) (hv : v ∉ w.met) {us : List α} (hus : us ⊆ next v)
    {r : Nat × Walk α} (h : Visiting next nodes path w v seen r.1 r.2) :
    Visiting next nodes path w v (seen ++ us) (us.foldl (follow visit) r).1
      (us.foldl (follow visit) r).2 := by
  induction us generalizing seen r with
  | nil => simpa using h
  | cons u us ih =>
    obtain ⟨hu, hus⟩ := List.cons_subset.1 hus
    rw [List.append_cons, List.foldl_cons]
    refine ih hus ?_
    cases hnumber : r.2.number? u with
    | none =>
      have hnew := number?_eq_none.1 hnumber
      simp only [follow, hnumber]
      exact h.visited hw hv hu hnew (hvisit u hu r.2 h.consistent h.suffix hnew)
    | some k =>
      obtain ⟨hmet, rfl⟩ := number?_eq_some hnumber
      have hmet := h.met_before hw hv hu hmet
      simp only [follow, hnumber]
      split at hmet <;> rename_i hstack <;> simp only [hstack] <;> exact hmet

theorem visited_visit (hnext : ∀ x ∈ nodes, next x ⊆ nodes) {fuel : Nat}
    (hw : w.Consistent next nodes path) (hv : v ∉ w.met) (hnodes : v ∈ nodes)
    (hpath : ∀ g ∈ path, Leads next g v) (hfuel : nodes.length ≤ w.met.length + fuel) :
    Visited next nodes path w v (visit next fuel v w).1 (visit next fuel v w).2 := by
  induction fuel generalizing path v w with
  | zero =>
    have hlt := hw.length_met_lt hv hnodes
    omega
  | succ fuel ih =>
    have hvisit : ∀ u ∈ next v, ∀ w', w'.Consistent next nodes (v :: path) →
        (w.enter v).met <:+ w'.met → u ∉ w'.met →
        Visited next nodes (v :: path) w' u (visit next fuel u w').1 (visit next fuel u w').2 := by
      intro u hu w' hw' hsuffix hnew
      have hlen : w.met.length + 1 ≤ w'.met.length := hsuffix.length_le
      exact ih hw' hnew (hnext v hnodes hu) (leads_to_successor hpath hu) (by omega)
    have hstart : Visiting next nodes path w v [] (w.met.length, w.enter v).1
        (w.met.length, w.enter v).2 := .enter hw hv hnodes hpath
    have hall := visiting_foldl hvisit hw hv (List.Subset.refl _) hstart
    obtain ⟨above, htop⟩ := hall.exists_top hv (List.Subset.refl _)
    rw [visit_succ]
    dsimp only
    split
    · rename_i hlow
      exact hall.close hw hv hpath (List.Subset.refl _) htop hlow
    · rename_i hlow
      exact hall.keep hw hv hpath (List.Subset.refl _) htop hlow

end

end Walk

section

omit [DecidableEq α]

/-- A division of nodes into components of which none leads to a later one. -/
structure Decomposes (next : α → List α) (nodes : List α) (components : List (List α)) : Prop where
  partition : components.flatten.Perm nodes
  component : ∀ c ∈ components, IsComponent next c
  ordered : components.Pairwise fun c c' => ∀ x ∈ c, ∀ y ∈ c', y ∉ next x

/-- Distinct nodes of which none follows itself are components of their own exactly if no path leads
back to its start. -/
theorem Decomposes.length_le_one_iff {nodes : List α} {components : List (List α)}
    (h : Decomposes next nodes components) (hnodes : nodes.Nodup) (hproper : ∀ x, x ∉ next x) :
    (∀ c ∈ components, c.length ≤ 1) ↔
      ∀ x ∈ nodes, ¬ Relation.TransGen (fun x y => y ∈ next x) x x := by
  constructor
  · intro hall x hx hcycle
    obtain ⟨c, hc, hxc⟩ := List.mem_flatten.1 (h.partition.mem_iff.2 hx)
    obtain ⟨y, hy, hback⟩ := Relation.TransGen.head'_iff.1 hcycle
    have hyc : y ∈ c := ((h.component c hc).mem_iff x hxc y).2 ⟨.single hy, hback⟩
    obtain rfl : x = y := by
      match c, hall c hc, hxc, hyc with
      | [z], _, hxc, hyc => exact (List.mem_singleton.1 hxc).trans (List.mem_singleton.1 hyc).symm
    exact hproper x hy
  · intro hacyclic c hc
    have honce : c.Nodup :=
      (List.nodup_flatten.1 (h.partition.nodup_iff.2 hnodes)).1 c hc
    match c, hc, honce with
    | [], _, _ => simp
    | [_], _, _ => simp
    | x :: y :: _, hc, honce =>
      have hxy : x ≠ y := fun hxy => by simp [hxy] at honce
      obtain ⟨hlead, hback⟩ := ((h.component _ hc).mem_iff x (by simp) y).1 (by simp)
      have hforth := (Relation.reflTransGen_iff_eq_or_transGen.1 hlead).resolve_left hxy.symm
      have hxnodes : x ∈ nodes :=
        h.partition.mem_iff.1 (List.mem_flatten_of_mem hc List.mem_cons_self)
      exact absurd (hforth.trans_left hback) (hacyclic x hxnodes)

end

variable {nodes : List α}

namespace Walk

def walkAll (next : α → List α) (size : Nat) (vs : List α) (w : Walk α) : Walk α :=
  vs.foldl (fun w v => match w.number? v with
    | none => (visit next size v w).2
    | some _ => w) w

theorem consistent_walkAll (hnext : ∀ x ∈ nodes, next x ⊆ nodes) {size : Nat}
    (hsize : nodes.length ≤ size) {vs : List α} (hvs : vs ⊆ nodes) {w : Walk α}
    (hw : w.Consistent next nodes []) :
    (walkAll next size vs w).Consistent next nodes [] ∧ w.met ⊆ (walkAll next size vs w).met ∧
      vs ⊆ (walkAll next size vs w).met := by
  induction vs generalizing w with
  | nil => exact ⟨hw, List.Subset.refl _, List.nil_subset _⟩
  | cons v vs ih =>
    obtain ⟨hv, hvs⟩ := List.cons_subset.1 hvs
    rw [walkAll, List.foldl_cons]
    cases hnumber : w.number? v with
    | none =>
      have hvisited := visited_visit hnext hw (number?_eq_none.1 hnumber) hv (by simp)
        (hsize.trans (Nat.le_add_left size w.met.length))
      obtain ⟨hlast, hmet, hall⟩ := ih hvs hvisited.consistent
      exact ⟨hlast, List.Subset.trans hvisited.suffix.subset hmet,
        List.cons_subset.2 ⟨hmet hvisited.entered, hall⟩⟩
    | some k =>
      obtain ⟨hlast, hmet, hall⟩ := ih hvs hw
      exact ⟨hlast, hmet, List.cons_subset.2 ⟨hmet (number?_eq_some hnumber).1, hall⟩⟩

/-- Between visits nothing is on the stack. -/
theorem Consistent.stack_eq_nil {w : Walk α} (h : w.Consistent next nodes []) : w.stack = [] :=
  List.eq_nil_iff_forall_not_mem.2 fun x hx => by
    obtain ⟨g, hg, -⟩ := h.up x hx
    simp at hg

end Walk

theorem strongComponents_eq (size : Nat) (nodes : List α) (next : α → List α) :
    strongComponents size nodes next = (Walk.walkAll next size nodes .start).found.reverse := rfl

/-- Distinct nodes that only lead to each other are divided into their components. -/
theorem strongComponents_decomposes (hnodes : nodes.Nodup) (hnext : ∀ x ∈ nodes, next x ⊆ nodes)
    {size : Nat} (hsize : nodes.length ≤ size) :
    Decomposes next nodes (strongComponents size nodes next) := by
  obtain ⟨hlast, -, hall⟩ := Walk.consistent_walkAll hnext hsize (List.Subset.refl nodes)
    (Walk.consistent_start next nodes)
  rw [strongComponents_eq]
  have hparts := hlast.parts
  rw [hlast.stack_eq_nil, List.nil_append] at hparts
  have hmet := (List.perm_ext_iff_of_nodup hlast.once hnodes).2 fun x =>
    ⟨fun hx => hlast.within hx, fun hx => hall hx⟩
  refine ⟨?_, fun c hc => hlast.settled.isComponent c (List.mem_reverse.1 hc), ?_⟩
  · exact ((List.reverse_perm _).flatten.trans hparts.symm).trans hmet
  · rw [List.pairwise_reverse]
    exact hlast.settled.pairwise (hparts.nodup_iff.1 hlast.once)

end Catchment
