import Catchment.Proofs.WalkComponents

/-!
# Walks without a bound

The rules of the walk, with no bound on how deep it goes: a walk comes to an end if finitely many uses
of the rules make it up. They leave no choice, so it ends in one way if at all. A walk only goes on to
nodes that were not met before, so it is never deeper than there are nodes, and a bound of as many
steps is not reached: the bounded walk ends as the rules say, and so does the search through all nodes,
with their components.
-/
namespace Catchment

variable {α : Type} [DecidableEq α] {next : α → List α}

namespace Walk

def leave (w : Walk α) (v : α) (r : Nat × Walk α) : Nat × Walk α :=
  (r.1, if r.1 = w.met.length then r.2.close v else r.2)

/-- A round through successors of the present node comes to an end: the walk goes on from a new one
before it looks at the next. -/
inductive Rounds (next : α → List α) : List α → Nat × Walk α → Nat × Walk α → Prop
  | nil (r : Nat × Walk α) : Rounds next [] r r
  | new {u : α} {us : List α} {r below last : Nat × Walk α} (unmet : r.2.number? u = none)
      (deeper : Rounds next (next u) (r.2.met.length, r.2.enter u) below)
      (rest : Rounds next us (min r.1 (r.2.leave u below).1, (r.2.leave u below).2) last) :
      Rounds next (u :: us) r last
  | met {u : α} {us : List α} {r last : Nat × Walk α} {k : Nat} (met : r.2.number? u = some k)
      (rest : Rounds next us (if r.2.stack.contains u then (min r.1 k, r.2) else r) last) :
      Rounds next (u :: us) r last

def Visits (next : α → List α) (v : α) (w : Walk α) (r : Nat × Walk α) : Prop :=
  ∃ below, Rounds next (next v) (w.met.length, w.enter v) below ∧ w.leave v below = r

/-- Walks from those of some nodes that are not met before come to an end. -/
inductive Searches (next : α → List α) : List α → Walk α → Walk α → Prop
  | nil (w : Walk α) : Searches next [] w w
  | new {v : α} {vs : List α} {w last : Walk α} {r : Nat × Walk α} (unmet : w.number? v = none)
      (visit : Visits next v w r) (rest : Searches next vs r.2 last) :
      Searches next (v :: vs) w last
  | met {v : α} {vs : List α} {w last : Walk α} {k : Nat} (met : w.number? v = some k)
      (rest : Searches next vs w last) : Searches next (v :: vs) w last

end Walk

/-- The search through some nodes comes to an end with these components. -/
def FindsComponents (next : α → List α) (nodes : List α) (components : List (List α)) : Prop :=
  ∃ w, Walk.Searches next nodes Walk.start w ∧ w.found.reverse = components

namespace Walk

variable {w : Walk α} {nodes path seen : List α} {v : α}

theorem Rounds.unique {us : List α} {r last last' : Nat × Walk α} (h : Rounds next us r last)
    (h' : Rounds next us r last') : last = last' := by
  induction h generalizing last' with
  | nil r =>
    cases h'
    rfl
  | new unmet _ _ ihdeeper ihrest =>
    cases h' with
    | new _ deeper' rest' =>
      obtain rfl := ihdeeper deeper'
      exact ihrest rest'
    | met met' => simp [unmet] at met'
  | met met _ ih =>
    cases h' with
    | new unmet' => simp [met] at unmet'
    | met met' rest' =>
      obtain rfl := Option.some.inj (met.symm.trans met')
      exact ih rest'

theorem Visits.unique {r r' : Nat × Walk α} (h : Visits next v w r) (h' : Visits next v w r') :
    r = r' := by
  obtain ⟨below, hround, rfl⟩ := h
  obtain ⟨below', hround', rfl⟩ := h'
  rw [hround.unique hround']

theorem Searches.unique {vs : List α} {last last' : Walk α} (h : Searches next vs w last)
    (h' : Searches next vs w last') : last = last' := by
  induction h generalizing last' with
  | nil w =>
    cases h'
    rfl
  | new unmet visit _ ih =>
    cases h' with
    | new _ visit' rest' =>
      obtain rfl := visit.unique visit'
      exact ih rest'
    | met met' => simp [unmet] at met'
  | met met _ ih =>
    cases h' with
    | new unmet' => simp [met] at unmet'
    | met _ rest' => exact ih rest'

/-- Where the walks from new successors end, so does the round of all successors. -/
theorem rounds_foldl {visit : α → Walk α → Nat × Walk α}
    (hvisit : ∀ u ∈ next v, ∀ w', w'.Consistent next nodes (v :: path) →
      (w.enter v).met <:+ w'.met → u ∉ w'.met →
      Visited next nodes (v :: path) w' u (visit u w').1 (visit u w').2)
    (hends : ∀ u ∈ next v, ∀ w', w'.Consistent next nodes (v :: path) →
      (w.enter v).met <:+ w'.met → u ∉ w'.met → Visits next u w' (visit u w'))
    (hw : w.Consistent next nodes path) (hv : v ∉ w.met) {us : List α} (hus : us ⊆ next v)
    {r : Nat × Walk α} (h : Visiting next nodes path w v seen r.1 r.2) :
    Rounds next us r (us.foldl (follow visit) r) := by
  induction us generalizing seen r with
  | nil => exact .nil r
  | cons u us ih =>
    obtain ⟨hu, hus⟩ := List.cons_subset.1 hus
    have hseen : Visiting next nodes path w v (seen ++ [u]) (follow visit r u).1
        (follow visit r u).2 :=
      visiting_foldl hvisit hw hv (List.cons_subset.2 ⟨hu, List.nil_subset _⟩) h
    have hrest := ih hus hseen
    rw [List.foldl_cons]
    cases hnumber : r.2.number? u with
    | none =>
      obtain ⟨below, hdeeper, hleave⟩ :=
        hends u hu r.2 h.consistent h.suffix (number?_eq_none.1 hnumber)
      refine .new hnumber hdeeper ?_
      rw [hleave]
      simpa only [follow, hnumber] using hrest
    | some k =>
      refine .met hnumber ?_
      simpa only [follow, hnumber] using hrest

/-- With as many steps as there are nodes that are not met, the bound is not reached. -/
theorem visits_visit (hnext : ∀ x ∈ nodes, next x ⊆ nodes) {fuel : Nat}
    (hw : w.Consistent next nodes path) (hv : v ∉ w.met) (hnodes : v ∈ nodes)
    (hpath : ∀ g ∈ path, Leads next g v) (hfuel : nodes.length ≤ w.met.length + fuel) :
    Visits next v w (visit next fuel v w) := by
  induction fuel generalizing path v w with
  | zero =>
    have hlt := hw.length_met_lt hv hnodes
    omega
  | succ fuel ih =>
    -- a step is spent on the node that is entered
    have hleft {w' : Walk α} (hsuffix : (w.enter v).met <:+ w'.met) :
        nodes.length ≤ w'.met.length + fuel := by
      have hlen : w.met.length + 1 ≤ w'.met.length := hsuffix.length_le
      omega
    have hstart : Visiting next nodes path w v [] (w.met.length, w.enter v).1
        (w.met.length, w.enter v).2 := .enter hw hv hnodes hpath
    have hround := rounds_foldl
      (fun u hu w' hw' hsuffix hnew => visited_visit hnext hw' hnew (hnext v hnodes hu)
        (leads_to_successor hpath hu) (hleft hsuffix))
      (fun u hu w' hw' hsuffix hnew => ih hw' hnew (hnext v hnodes hu)
        (leads_to_successor hpath hu) (hleft hsuffix))
      hw hv (List.Subset.refl _) hstart
    exact ⟨_, hround, rfl⟩

theorem searches_walkAll (hnext : ∀ x ∈ nodes, next x ⊆ nodes) {size : Nat}
    (hsize : nodes.length ≤ size) {vs : List α} (hvs : vs ⊆ nodes)
    (hw : w.Consistent next nodes []) : Searches next vs w (walkAll next size vs w) := by
  induction vs generalizing w with
  | nil => exact .nil w
  | cons v vs ih =>
    obtain ⟨hv, hvs⟩ := List.cons_subset.1 hvs
    have hlast : (walkAll next size [v] w).Consistent next nodes [] :=
      (consistent_walkAll hnext hsize (List.cons_subset.2 ⟨hv, List.nil_subset _⟩) hw).1
    have hrest := ih hvs hlast
    have hcons : walkAll next size (v :: vs) w =
        walkAll next size vs (walkAll next size [v] w) := rfl
    rw [hcons]
    cases hnumber : w.number? v with
    | none =>
      have hvisit := visits_visit hnext hw (number?_eq_none.1 hnumber) hv (by simp)
        (hsize.trans (Nat.le_add_left size w.met.length))
      have hstep : walkAll next size [v] w = (visit next size v w).2 := by simp [walkAll, hnumber]
      rw [hstep] at hrest ⊢
      exact .new hnumber hvisit hrest
    | some k =>
      have hstep : walkAll next size [v] w = w := by simp [walkAll, hnumber]
      rw [hstep] at hrest ⊢
      exact .met hnumber hrest

end Walk

variable {nodes : List α}

theorem findsComponents_iff (hnext : ∀ x ∈ nodes, next x ⊆ nodes) {size : Nat}
    (hsize : nodes.length ≤ size) {components : List (List α)} :
    FindsComponents next nodes components ↔ components = strongComponents size nodes next := by
  have hends := Walk.searches_walkAll hnext hsize (List.Subset.refl nodes)
    (Walk.consistent_start next nodes)
  rw [strongComponents_eq]
  constructor
  · rintro ⟨w, hsearch, rfl⟩
    rw [hsearch.unique hends]
  · rintro rfl
    exact ⟨_, hends, rfl⟩

omit [DecidableEq α] in
/-- A node shares its component with just the nodes that it leads to and that lead back. -/
theorem Decomposes.share_iff {components : List (List α)} (h : Decomposes next nodes components)
    {x : α} (hx : x ∈ nodes) (y : α) :
    (∃ c ∈ components, x ∈ c ∧ y ∈ c) ↔ Leads next x y ∧ Leads next y x := by
  constructor
  · rintro ⟨c, hc, hxc, hyc⟩
    exact ((h.component c hc).mem_iff x hxc y).1 hyc
  · intro hleads
    obtain ⟨c, hc, hxc⟩ := List.mem_flatten.1 (h.partition.mem_iff.2 hx)
    exact ⟨c, hc, hxc, ((h.component c hc).mem_iff x hxc y).2 hleads⟩

/-- The search through distinct nodes that only lead to each other comes to an end, in one way, and
with a bound of at least as many steps it gives the same. Each node is in one of the components, once;
two share one exactly if each leads to the other, and no edge leads from a component to a later
one. -/
theorem search_divides_into_components (hnodes : nodes.Nodup)
    (hnext : ∀ x ∈ nodes, next x ⊆ nodes) :
    ∃ components, (∀ found, FindsComponents next nodes found ↔ found = components) ∧
      (∀ size, nodes.length ≤ size → strongComponents size nodes next = components) ∧
      components.flatten.Perm nodes ∧ [] ∉ components ∧
      (∀ x ∈ nodes, ∀ y, (∃ c ∈ components, x ∈ c ∧ y ∈ c) ↔ Leads next x y ∧ Leads next y x) ∧
      components.Pairwise fun c c' => ∀ x ∈ c, ∀ y ∈ c', y ∉ next x := by
  have hdivided := strongComponents_decomposes hnodes hnext (Nat.le_refl nodes.length)
  refine ⟨strongComponents nodes.length nodes next,
    fun found => findsComponents_iff hnext (Nat.le_refl nodes.length), fun size hsize => ?_,
    hdivided.partition, fun hempty => ?_, fun x hx y => hdivided.share_iff hx y, hdivided.ordered⟩
  · have hfound := (findsComponents_iff hnext hsize).2 rfl
    exact (findsComponents_iff hnext (Nat.le_refl nodes.length)).1 hfound
  · exact (hdivided.component [] hempty).nonempty rfl

/-- Two rings, the second downstream of the first, which is crossed by a shorter one; above both a
node that follows itself, and a node apart. -/
def twoRings : Nat → List Nat
  | 0 => [1]
  | 1 => [2, 0]
  | 2 => [0, 3]
  | 3 => [4]
  | 4 => [3]
  | 5 => [5, 4, 2]
  | _ => []

theorem twoRings_divided :
    [3, 1, 5, 0, 2, 4, 6].Nodup ∧
      (∀ x ∈ [3, 1, 5, 0, 2, 4, 6], twoRings x ⊆ [3, 1, 5, 0, 2, 4, 6]) ∧
      FindsComponents twoRings [3, 1, 5, 0, 2, 4, 6] [[4, 3], [0, 2, 1], [5], [6]] ∧
      (Leads twoRings 1 0 ∧ Leads twoRings 0 1) ∧ ¬ (Leads twoRings 5 3 ∧ Leads twoRings 3 5) := by
  have hnodes : [3, 1, 5, 0, 2, 4, 6].Nodup := by decide
  have hnext : ∀ x ∈ [3, 1, 5, 0, 2, 4, 6], twoRings x ⊆ [3, 1, 5, 0, 2, 4, 6] := by decide
  obtain ⟨components, hsearch, hsize, -, -, hshare, -⟩ :=
    search_divides_into_components hnodes hnext
  obtain rfl : components = [[4, 3], [0, 2, 1], [5], [6]] :=
    (hsize 7 (by decide)).symm.trans (by decide)
  refine ⟨hnodes, hnext, (hsearch _).2 rfl, (hshare 1 (by decide) 0).1 (by decide), fun hleads => ?_⟩
  exact absurd ((hshare 5 (by decide) 3).2 hleads) (by decide)

end Catchment
