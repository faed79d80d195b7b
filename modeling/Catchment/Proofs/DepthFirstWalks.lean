import Mathlib
import Catchment.StrongComponents

/-!
# Depth-first walks

What a walk keeps while it is under way. The nodes on the path from the start to the present node lead
to all that is above them on the stack, and everything on the stack leads to a node of the path at or
below it. What is off the path is followed to all its successors, and only finished components are
reached from a finished one. While a node is visited, the least number on the old stack that it reaches
is known for the successors seen so far.
-/
namespace Catchment

/-- A path, perhaps an empty one, leads from the first node to the second. -/
def Leads {α : Type} (next : α → List α) : α → α → Prop :=
  Relation.ReflTransGen fun x y => y ∈ next x

structure IsComponent {α : Type} (next : α → List α) (c : List α) : Prop where
  nonempty : c ≠ []
  mem_iff : ∀ x ∈ c, ∀ y, y ∈ c ↔ Leads next x y ∧ Leads next y x

inductive Settled {α : Type} (next : α → List α) : List (List α) → Prop
  | nil : Settled next []
  | cons {c : List α} {found : List (List α)} (component : IsComponent next c)
      (leaves : ∀ x ∈ c, ∀ y ∈ next x, y ∈ c ∨ y ∈ found.flatten) (earlier : Settled next found) :
      Settled next (c :: found)

variable {α : Type} {next : α → List α}

/-- What leads to a node, and the node itself, lead to what follows it. -/
theorem leads_to_successor {path : List α} {v u : α} (hpath : ∀ g ∈ path, Leads next g v)
    (hu : u ∈ next v) : ∀ g ∈ v :: path, Leads next g u := by
  intro g hg
  rcases List.mem_cons.1 hg with rfl | hg
  · exact .single hu
  · exact (hpath g hg).tail hu

namespace Settled

variable {found : List (List α)}

theorem mem_next (h : Settled next found) {x y : α} (hx : x ∈ found.flatten)
    (hy : y ∈ next x) : y ∈ found.flatten := by
  induction h with
  | nil => simp at hx
  | cons component leaves earlier ih =>
    rw [List.flatten_cons, List.mem_append] at hx ⊢
    rcases hx with hx | hx
    · exact leaves x hx y hy
    · exact .inr (ih hx)

theorem mem_of_leads (h : Settled next found) {x y : α} (hx : x ∈ found.flatten)
    (hlead : Leads next x y) : y ∈ found.flatten := by
  induction hlead with
  | refl => exact hx
  | tail _ hy ih => exact h.mem_next ih hy

theorem isComponent (h : Settled next found) : ∀ c ∈ found, IsComponent next c := by
  induction h with
  | nil => simp
  | cons component leaves earlier ih => exact List.forall_mem_cons.2 ⟨component, ih⟩

/-- No edge leads from an earlier component to a later one. -/
theorem pairwise (h : Settled next found) (once : found.flatten.Nodup) :
    found.Pairwise fun c c' => ∀ x ∈ c', ∀ y ∈ c, y ∉ next x := by
  induction h with
  | nil => exact .nil
  | cons component leaves earlier ih =>
    rw [List.flatten_cons, List.nodup_append] at once
    obtain ⟨-, honce, hdisjoint⟩ := once
    refine List.pairwise_cons.2 ⟨fun c' hc' x hx y hy hnext => ?_, ih honce⟩
    have hmem := earlier.mem_next (List.mem_flatten_of_mem hc' hx) hnext
    exact hdisjoint y hy y hmem rfl

end Settled

namespace Walk

variable [DecidableEq α] {w w' : Walk α}

def number (w : Walk α) (v : α) : Nat := w.met.reverse.idxOf v

theorem number?_eq_none {v : α} : w.number? v = none ↔ v ∉ w.met := by
  rw [number?, List.idxOf?_eq_none_iff, List.mem_reverse]

theorem number?_eq_some {v : α} {k : Nat} (h : w.number? v = some k) :
    v ∈ w.met ∧ w.number v = k := by
  have hmem : v ∈ w.met := by
    by_contra hv
    simp [number?_eq_none.2 hv] at h
  refine ⟨hmem, ?_⟩
  rw [number?] at h
  rw [number, List.idxOf_eq_getD_idxOf?, h, Option.getD_some]

theorem number_lt {v : α} (h : v ∈ w.met) : w.number v < w.met.length := by
  rw [← List.length_reverse]
  exact List.idxOf_lt_length_of_mem (List.mem_reverse.2 h)

theorem number_eq (h : w.met <:+ w'.met) {v : α} (hv : v ∈ w.met) :
    w'.number v = w.number v := by
  obtain ⟨new, hnew⟩ := h
  rw [number, ← hnew, List.reverse_append, List.idxOf_append_of_mem (List.mem_reverse.2 hv), number]

theorem length_le_number (h : w.met <:+ w'.met) {v : α} (hv : v ∉ w.met) :
    w.met.length ≤ w'.number v := by
  obtain ⟨new, hnew⟩ := h
  rw [number, ← hnew, List.reverse_append,
    List.idxOf_append_of_notMem (mt List.mem_reverse.1 hv), List.length_reverse]
  exact Nat.le_add_right _ _

theorem number_enter {v : α} (h : v ∉ w.met) : (w.enter v).number v = w.met.length := by
  rw [number, enter, List.reverse_cons, List.idxOf_append_of_notMem (mt List.mem_reverse.1 h)]
  simp

/-- A walk under way. What is off the path is followed to all its successors. -/
structure Consistent (next : α → List α) (nodes path : List α) (w : Walk α) : Prop where
  once : w.met.Nodup
  within : w.met ⊆ nodes
  parts : w.met.Perm (w.stack ++ w.found.flatten)
  path_subset : path ⊆ w.stack
  followed : ∀ x ∈ w.met, x ∉ path → ∀ y ∈ next x, y ∈ w.met
  down : ∀ g ∈ path, ∀ x ∈ w.stack, w.number g ≤ w.number x → Leads next g x
  up : ∀ x ∈ w.stack, ∃ g ∈ path, w.number g ≤ w.number x ∧ Leads next x g
  settled : Settled next w.found

theorem consistent_start (next : α → List α) (nodes : List α) :
    (start : Walk α).Consistent next nodes [] where
  once := .nil
  within := List.nil_subset _
  parts := .nil
  path_subset := List.nil_subset _
  followed := by simp [start]
  down := by simp
  up := by simp [start]
  settled := .nil

namespace Consistent

variable {nodes path : List α} {v : α}

theorem mem_of_mem_stack (h : w.Consistent next nodes path) {x : α} (hx : x ∈ w.stack) :
    x ∈ w.met :=
  h.parts.mem_iff.2 (List.mem_append_left _ hx)

theorem mem_or_mem (h : w.Consistent next nodes path) {x : α} (hx : x ∈ w.met) :
    x ∈ w.stack ∨ x ∈ w.found.flatten :=
  List.mem_append.1 (h.parts.mem_iff.1 hx)

theorem notMem_found (h : w.Consistent next nodes path) {x : α} (hx : x ∈ w.stack) :
    x ∉ w.found.flatten := fun hfound =>
  (List.nodup_append.1 (h.parts.nodup_iff.1 h.once)).2.2 x hx x hfound rfl

/-- As long as there is a new node, not all nodes are met. -/
theorem length_met_lt (h : w.Consistent next nodes path) (hv : v ∉ w.met) (hnodes : v ∈ nodes) :
    w.met.length < nodes.length := by
  have hsub : v :: w.met ⊆ nodes := List.cons_subset.2 ⟨hnodes, h.within⟩
  exact (List.subperm_of_subset (List.nodup_cons.2 ⟨hv, h.once⟩) hsub).length_le

theorem enter (h : w.Consistent next nodes path) (hv : v ∉ w.met) (hnodes : v ∈ nodes)
    (hpath : ∀ g ∈ path, Leads next g v) :
    (w.enter v).Consistent next nodes (v :: path) := by
  have hsuffix : w.met <:+ (w.enter v).met := List.suffix_cons v w.met
  have hnumber {x : α} (hx : x ∈ w.stack) : (w.enter v).number x = w.number x :=
    number_eq hsuffix (h.mem_of_mem_stack hx)
  refine ⟨List.nodup_cons.2 ⟨hv, h.once⟩, List.cons_subset.2 ⟨hnodes, h.within⟩, h.parts.cons v,
    List.cons_subset_cons v h.path_subset, fun x hx hnew y hy => ?_, fun g hg x hx hle => ?_,
    fun x hx => ?_, h.settled⟩
  · rw [List.mem_cons, not_or] at hnew
    have hmet := (List.mem_cons.1 hx).resolve_left hnew.1
    exact List.mem_cons_of_mem v (h.followed x hmet hnew.2 y hy)
  · rcases List.mem_cons.1 hg with rfl | hgpath <;> rcases List.mem_cons.1 hx with rfl | hx
    · exact .refl
    · -- the new node has the greatest number
      rw [number_enter hv, hnumber hx] at hle
      have := number_lt (h.mem_of_mem_stack hx)
      omega
    · exact hpath g hgpath
    · rw [hnumber (h.path_subset hgpath), hnumber hx] at hle
      exact h.down g hgpath x hx hle
  · rcases List.mem_cons.1 hx with rfl | hx
    · exact ⟨x, List.mem_cons_self, Nat.le_refl _, .refl⟩
    · obtain ⟨g, hg, hle, hlead⟩ := h.up x hx
      refine ⟨g, List.mem_cons_of_mem v hg, ?_, hlead⟩
      rwa [hnumber (h.path_subset hg), hnumber hx]

end Consistent

/-- A visit of a node has come back with the least number on the old stack that it reaches, or with
the node's own number. -/
structure Visited (next : α → List α) (nodes path : List α) (w : Walk α) (v : α) (low : Nat)
    (w' : Walk α) : Prop where
  consistent : w'.Consistent next nodes path
  suffix : w.met <:+ w'.met
  entered : v ∈ w'.met
  above : ∃ above, w'.stack = above ++ w.stack ∧
    ∀ x ∈ above, x ∉ w.met ∧ ∀ y ∈ next x, y ∈ w.stack → low ≤ w.number y
  reached : low = w.met.length ∨ ∃ y ∈ w.stack, w.number y = low ∧ Leads next v y

structure Visiting (next : α → List α) (nodes path : List α) (w : Walk α) (v : α)
    (seen : List α) (low : Nat) (w' : Walk α) : Prop where
  consistent : w'.Consistent next nodes (v :: path)
  suffix : (w.enter v).met <:+ w'.met
  above : ∃ above, w'.stack = above ++ v :: w.stack ∧
    ∀ x ∈ above, x ∉ w.met ∧ ∀ y ∈ next x, y ∈ w.stack → low ≤ w.number y
  followed : ∀ u ∈ seen, u ∈ w'.met ∧ (u ∈ w.stack → low ≤ w.number u)
  reached : low = w.met.length ∨ ∃ y ∈ w.stack, w.number y = low ∧ Leads next v y

def follow (visit : α → Walk α → Nat × Walk α) (r : Nat × Walk α) (u : α) : Nat × Walk α :=
  match r.2.number? u with
  | none => (min r.1 (visit u r.2).1, (visit u r.2).2)
  | some k => if r.2.stack.contains u then (min r.1 k, r.2) else r

theorem visit_succ (next : α → List α) (fuel : Nat) (v : α) (w : Walk α) :
    visit next (fuel + 1) v w =
      let r := (next v).foldl (follow (visit next fuel)) (w.met.length, w.enter v)
      (r.1, if r.1 = w.met.length then r.2.close v else r.2) := rfl

namespace Visiting

variable {nodes path seen : List α} {v u : α} {low : Nat}

theorem suffix_met (h : Visiting next nodes path w v seen low w') : w.met <:+ w'.met :=
  (List.suffix_cons v w.met).trans h.suffix

theorem low_le (h : Visiting next nodes path w v seen low w')
    (hw : w.Consistent next nodes path) : low ≤ w.met.length := by
  rcases h.reached with rfl | ⟨y, hy, rfl, -⟩
  · exact Nat.le_refl _
  · exact (number_lt (hw.mem_of_mem_stack hy)).le

/-- What is on the stack with a lower number than the present node was there before. -/
theorem mem_stack (h : Visiting next nodes path w v seen low w') (hv : v ∉ w.met) {x : α}
    (hx : x ∈ w'.stack) (hlt : w'.number x < w.met.length) :
    x ∈ w.stack ∧ w'.number x = w.number x := by
  have hmet : x ∈ w.met := by
    by_contra hnew
    have := length_le_number h.suffix_met hnew
    omega
  refine ⟨?_, number_eq h.suffix_met hmet⟩
  obtain ⟨above, hstack, habove⟩ := h.above
  rw [hstack, List.mem_append, List.mem_cons] at hx
  rcases hx with hx | rfl | hx
  · exact absurd hmet (habove x hx).1
  · exact absurd hmet hv
  · exact hx

theorem enter (hw : w.Consistent next nodes path) (hv : v ∉ w.met) (hnodes : v ∈ nodes)
    (hpath : ∀ g ∈ path, Leads next g v) :
    Visiting next nodes path w v [] w.met.length (w.enter v) where
  consistent := hw.enter hv hnodes hpath
  suffix := List.suffix_rfl
  above := ⟨[], rfl, by simp⟩
  followed := by simp
  reached := .inl rfl

/-- A successor that was not met before is visited next. -/
theorem visited {reached : Nat} {w'' : Walk α} (h : Visiting next nodes path w v seen low w')
    (hw : w.Consistent next nodes path) (hv : v ∉ w.met) (hu : u ∈ next v) (hnew : u ∉ w'.met)
    (hvisit : Visited next nodes (v :: path) w' u reached w'') :
    Visiting next nodes path w v (seen ++ [u]) (min low reached) w'' := by
  have hmet {x : α} (hx : x ∈ w.met) : x ∈ w'.met := h.suffix_met.subset hx
  refine ⟨hvisit.consistent, h.suffix.trans hvisit.suffix, ?_, fun x hx => ?_, ?_⟩
  · obtain ⟨above, hstack, habove⟩ := h.above
    obtain ⟨above', hstack', habove'⟩ := hvisit.above
    refine ⟨above' ++ above, by rw [hstack', hstack, List.append_assoc], fun x hx => ?_⟩
    rcases List.mem_append.1 hx with hx | hx
    · obtain ⟨hxnew, hlow⟩ := habove' x hx
      refine ⟨fun hxmet => hxnew (hmet hxmet), fun y hy hystack => ?_⟩
      have hle := hlow y hy (by simp [hstack, hystack])
      rw [number_eq h.suffix_met (hw.mem_of_mem_stack hystack)] at hle
      exact (min_le_right _ _).trans hle
    · obtain ⟨hxnew, hlow⟩ := habove x hx
      exact ⟨hxnew, fun y hy hystack => (min_le_left _ _).trans (hlow y hy hystack)⟩
  · rcases List.mem_append.1 hx with hx | hx
    · obtain ⟨hxmet, hlow⟩ := h.followed x hx
      exact ⟨hvisit.suffix.subset hxmet, fun hystack => (min_le_left _ _).trans (hlow hystack)⟩
    · rw [List.mem_singleton.1 hx]
      exact ⟨hvisit.entered, fun hustack => absurd (hmet (hw.mem_of_mem_stack hustack)) hnew⟩
  · rcases Nat.lt_or_ge reached low with hlt | hle
    · rw [min_eq_right hlt.le]
      have hlow := h.low_le hw
      have hlength := h.suffix_met.length_le
      rcases hvisit.reached with rfl | ⟨y, hy, rfl, hlead⟩
      · omega
      · obtain ⟨hystack, hynumber⟩ := h.mem_stack hv hy (by omega)
        exact .inr ⟨y, hystack, hynumber.symm, .head hu hlead⟩
    · rw [min_eq_left hle]
      exact h.reached

/-- A successor that was met before only counts while it is on the stack. -/
theorem met_before (h : Visiting next nodes path w v seen low w')
    (hw : w.Consistent next nodes path) (hv : v ∉ w.met) (hu : u ∈ next v) (hmet : u ∈ w'.met) :
    Visiting next nodes path w v (seen ++ [u])
      (if w'.stack.contains u then min low (w'.number u) else low) w' := by
  set low' := if w'.stack.contains u then min low (w'.number u) else low with hlow'
  have hle : low' ≤ low := by
    rw [hlow']
    split
    · exact min_le_left _ _
    · exact Nat.le_refl _
  refine ⟨h.consistent, h.suffix, ?_, fun x hx => ?_, ?_⟩
  · obtain ⟨above, hstack, habove⟩ := h.above
    exact ⟨above, hstack, fun x hx => ⟨(habove x hx).1, fun y hy hystack =>
      hle.trans ((habove x hx).2 y hy hystack)⟩⟩
  · rcases List.mem_append.1 hx with hx | hx
    · exact ⟨(h.followed x hx).1, fun hystack => hle.trans ((h.followed x hx).2 hystack)⟩
    · rw [List.mem_singleton.1 hx]
      refine ⟨hmet, fun hustack => ?_⟩
      obtain ⟨above, hstack, -⟩ := h.above
      rw [hlow', if_pos (by simp [hstack, hustack]),
        number_eq h.suffix_met (hw.mem_of_mem_stack hustack)]
      exact min_le_right _ _
  · rw [hlow']
    split
    · rename_i hstack
      rcases Nat.lt_or_ge (w'.number u) low with hlt | hle
      · rw [min_eq_right hlt.le]
        obtain ⟨hustack, hunumber⟩ := h.mem_stack hv (by simpa using hstack)
          (hlt.trans_le (h.low_le hw))
        exact .inr ⟨u, hustack, hunumber.symm, .single hu⟩
      · rw [min_eq_left hle]
        exact h.reached
    · exact h.reached

end Visiting

end Walk

end Catchment
