import Catchment.Proofs.CellwiseValues

/-!
# Slices along the last axis

Over a shape with a further last axis, a value has either no axis at all or a last axis that is
read at every position of that one, as it is or at its only item. Its slice is what it gives one
position. An operation on values acts on their slices: whatever shapes are joined, the slices of
the result are the results of the slices, and it is refused where that of some slice is.
-/
namespace Catchment

@[simp] theorem Index.snoc_init_last : {s : Shape} → {n : Nat} → (i : Index (s ++ [n])) →
    i.init.snoc i.last = i
  | [], _, _ => rfl
  | _ :: _, _, (i, j) => congrArg (Prod.mk i) (snoc_init_last j)

namespace Shape

def besideLast {s u : Shape} {m n : Nat} (f : Index u → Index s) (a : Fin n → Fin m)
    (i : Index (u ++ [n])) : Index (s ++ [m]) :=
  (f i.init).snoc (a i.last)

theorem align?_snoc (s u : Shape) (m n : Nat) : align? (s ++ [m]) (u ++ [n]) =
    (align? s u).bind fun f => (alignAxis? m n).map (besideLast f) := by
  induction s generalizing u with
  | nil => cases u with
    | nil =>
      refine (align?_cons m n [] []).trans ?_
      cases alignAxis? m n <;> rfl
    | cons k u =>
      refine (align?_cons m k [] (u ++ [n])).trans ?_
      cases u <;> cases alignAxis? m k <;> rfl
  | cons l s ih => cases u with
    | nil =>
      refine (align?_cons l n (s ++ [m]) []).trans ?_
      cases s <;> cases alignAxis? l n <;> rfl
    | cons k u =>
      refine (align?_cons l k (s ++ [m]) (u ++ [n])).trans ?_
      rw [align?_cons, ih]
      cases alignAxis? l k <;> cases align? s u <;> cases alignAxis? m n <;> rfl

theorem lift?_snoc (s u : Shape) (m n : Nat) : lift? (s ++ [m]) (u ++ [n]) =
    (lift? s u).bind fun f => (alignAxis? m n).map (besideLast f) := by
  induction u with
  | nil =>
    have hlt : ¬ (s ++ [m]).length ≤ ([] : Shape).length := by simp
    exact (if_neg hlt).trans (align?_snoc s [] m n)
  | cons k u ih =>
    by_cases hs : s.length ≤ u.length
    · have hs' : (s ++ [m]).length ≤ (u ++ [n]).length := by simpa using hs
      refine (lift?_cons_of_le k hs').trans ?_
      rw [lift?_cons_of_le k hs, ih]
      cases lift? s u <;> cases alignAxis? m n <;> rfl
    · have hs' : ¬ (s ++ [m]).length ≤ (u ++ [n]).length := by simpa using hs
      simp only [List.cons_append, lift?, hs, hs', if_false]
      exact align?_snoc s (k :: u) m n

theorem join?_snoc (s u : Shape) (m n : Nat) : join? (s ++ [m]) (u ++ [n]) =
    (joinLength? m n).bind fun k => (join? s u).map (· ++ [k]) := by
  simp only [join?, List.reverse_append, List.reverse_singleton, List.singleton_append,
    joinReversed?]
  cases joinLength? m n <;> cases joinReversed? s.reverse u.reverse <;> simp

theorem join?_nil_left (s : Shape) : join? [] s = some s := by
  simp [join?, joinReversed?]

theorem join?_nil_right (s : Shape) : join? s [] = some s := by
  rw [join?_comm, join?_nil_left]

end Shape

namespace Tensor

variable {α β γ : Type} {T : Nat}

/-- What a tensor gives each position of a last axis: itself if it has no axis, otherwise the
column that is read there. -/
inductive Sliced : Tensor α → (Fin T → Tensor α) → Prop
  | single (g : Grid [] α) : Sliced ⟨[], g⟩ fun _ => ⟨[], g⟩
  | along {s : Shape} {m : Nat} (g : Grid (s ++ [m]) α) {a : Fin T → Fin m}
      (reads : Shape.alignAxis? m T = some a) : Sliced ⟨s ++ [m], g⟩ fun t => ⟨s, g.column (a t)⟩

theorem sliced_ofGrid {s : Shape} (g : Grid (s ++ [T]) α) :
    Sliced (ofGrid g) fun t => ofGrid (g.column t) :=
  .along g (Shape.alignAxis?_self T)

theorem Sliced.map {v : Tensor α} {c : Fin T → Tensor α} (h : v.Sliced c) (f : α → β) :
    (v.map f).Sliced fun t => (c t).map f := by
  cases h with
  | single g => exact .single (g.map f)
  | @along s m g a ha =>
    have hcolumn (t : Fin T) : (g.map f).column (a t) = (g.column (a t)).map f :=
      Grid.ext_get fun i => by simp
    simp only [Tensor.map, ← hcolumn]
    exact .along (g.map f) ha

/-- An item of a tensor stands in some slice, and an item of a slice in the tensor. -/
theorem Sliced.any_toList {v : Tensor α} {c : Fin T → Tensor α} (h : v.Sliced c) (p : α → Bool)
    (hT : Nonempty (Fin T)) :
    v.toList.any p = true ↔ ∃ t, (c t).toList.any p = true := by
  obtain ⟨t₀⟩ := hT
  cases h with
  | single g => exact ⟨fun hp => ⟨t₀, hp⟩, fun ⟨_, hp⟩ => hp⟩
  | @along s m g a ha =>
    simp only [Tensor.any_toList, Grid.get_column]
    constructor
    · rintro ⟨i, hp⟩
      obtain ⟨t, ht⟩ := Shape.alignAxis?_surjective ha t₀ (Index.last i)
      exact ⟨t, Index.init i, by rwa [ht, Index.snoc_init_last]⟩
    · rintro ⟨t, i, hp⟩
      exact ⟨_, hp⟩

theorem zipWith?_eq (op : α → β → γ) (a : Tensor α) (b : Tensor β) : a.zipWith? op b =
    (Shape.join? a.shape b.shape).bind fun w => (Shape.lift? a.shape w).bind fun f =>
      (Shape.lift? b.shape w).map fun f' =>
        ⟨w, Grid.ofFn fun i => op (a.grid.get (f i)) (b.grid.get (f' i))⟩ := by
  unfold zipWith? Grid.repeat?
  cases Shape.join? a.shape b.shape with
  | none => rfl
  | some w =>
    simp only [Option.bind_eq_bind, Option.bind_some]
    cases Shape.lift? a.shape w with
    | none => rfl
    | some f =>
      cases Shape.lift? b.shape w with
      | none => rfl
      | some f' => simp [Grid.zipWith]

theorem zipWith?_single_left (op : α → β → γ) (g : Grid [] α) (b : Tensor β) :
    (⟨[], g⟩ : Tensor α).zipWith? op b = some (b.map (op (g.get Index.nil))) := by
  rw [zipWith?_eq]
  simp only [Shape.join?_nil_left, Shape.lift?_nil, Shape.lift?_self, Option.bind_some,
    Option.map_some]
  rfl

theorem zipWith?_single_right (op : α → β → γ) (a : Tensor α) (g : Grid [] β) :
    a.zipWith? op ⟨[], g⟩ = some (a.map (op · (g.get Index.nil))) := by
  rw [zipWith?_eq]
  simp only [Shape.join?_nil_right, Shape.lift?_nil, Shape.lift?_self, Option.bind_some]
  rfl

/-- The slices of tensors that are joined are the slices, joined. -/
theorem Sliced.zipWith? {a : Tensor α} {b : Tensor β} {c : Fin T → Tensor α}
    {d : Fin T → Tensor β} (ha : a.Sliced c) (hb : b.Sliced d) (op : α → β → γ) :
    Agree Sliced (Values.orFault .value (a.zipWith? op b)) fun t =>
      Values.orFault .value ((c t).zipWith? op (d t)) := by
  cases ha with
  | single g =>
    simp only [zipWith?_single_left, orFault_some]
    exact ⟨_, hb.map _, fun _ => rfl⟩
  | @along s m g p hp =>
    cases hb with
    | single h =>
      simp only [zipWith?_single_right, orFault_some]
      exact ⟨_, (Sliced.along g hp).map _, fun _ => rfl⟩
    | @along u n h q hq =>
      obtain ⟨k, p, q, r, hk, hpk, hqk, hr, rfl, rfl⟩ := Shape.joinLength?_of_alignAxis? hp hq
      simp only [zipWith?_eq, Shape.join?_snoc, hk, Option.bind_some]
      cases Shape.join? s u with
      | none => exact agree_error _ fun t => ⟨_, rfl⟩
      | some w =>
        simp only [Option.map_some, Option.bind_some, Shape.lift?_snoc, hpk, hqk]
        cases Shape.lift? s w with
        | none => exact agree_error _ fun t => ⟨_, rfl⟩
        | some f =>
          cases Shape.lift? u w with
          | none => exact agree_error _ fun t => ⟨_, rfl⟩
          | some f' =>
            refine ⟨_, Sliced.along _ hr, fun t => ?_⟩
            refine congrArg (fun g => Except.ok (Tensor.mk w g)) (Grid.ext_get fun i => ?_)
            simp [Shape.besideLast]

/-- Repeated over a shape with a further last axis, a tensor has its slices, repeated over that
shape, as columns. -/
theorem Sliced.repeat? {s : Shape} {v : Tensor α} {c : Fin T → Tensor α} (h : v.Sliced c) :
    Agree (fun (g : Grid (s ++ [T]) α) d => ∀ t, d t = g.column t)
      (Values.orFault .value (v.repeat? (s ++ [T]))) fun t =>
        Values.orFault .value ((c t).repeat? s) := by
  cases h with
  | single g =>
    simp only [Tensor.repeat?, Grid.repeat?, Shape.lift?_nil]
    exact ⟨_, fun t => Grid.ext_get fun i => by simp, fun t => rfl⟩
  | @along u m g a ha =>
    simp only [Tensor.repeat?, Grid.repeat?, Shape.lift?_snoc, ha]
    cases Shape.lift? u s with
    | none => exact agree_error _ fun t => ⟨_, rfl⟩
    | some f => exact ⟨_, fun t => Grid.ext_get fun i => by simp [Shape.besideLast], fun t => rfl⟩

end Tensor

variable {K : Type} {T : Nat}

namespace Values

/-- A value and its slices, of the same format. -/
def Sliced (v : Values K) (c : Fin T → Values K) : Prop :=
  ∃ d, v.tensor.Sliced d ∧ c = fun t => ⟨v.format, d t⟩

theorem sliced_ofGrid {s : Shape} (g : Grid (s ++ [T]) K) :
    (ofGrid g).Sliced fun t => ofGrid (g.column t) :=
  ⟨_, Tensor.sliced_ofGrid g, rfl⟩

theorem forall₂_sliced_ofGrid {s : Shape} (gs : List (Grid (s ++ [T]) K)) :
    List.Forall₂ Sliced (gs.map ofGrid) (gs.map fun g (t : Fin T) => ofGrid (g.column t)) := by
  rw [List.forall₂_map_left_iff, List.forall₂_map_right_iff, List.forall₂_same]
  exact fun g _ => sliced_ofGrid g

theorem sliced_literal (x : K) : (literal x).Sliced fun _ : Fin T => literal x :=
  ⟨_, .single _, rfl⟩

/-- Numbers computed item by item, unless some item is refused. -/
def fromItems {α : Type} (r : Format) (refuses : α → Bool) (f : α → K) (t : Tensor α) :
    Except Fault (Values K) :=
  if t.toList.any refuses then .error .value else .ok ⟨r, t.map f⟩

theorem fromItems_sliced {α : Type} {t : Tensor α} {c : Fin T → Tensor α} (h : t.Sliced c)
    (r : Format) (refuses : α → Bool) (f : α → K) :
    Agree Sliced (fromItems r refuses f t) fun i => fromItems r refuses f (c i) := by
  unfold fromItems
  by_cases hany : t.toList.any refuses = true
  · rw [if_pos hany]
    intro hT
    obtain ⟨i, hi⟩ := (h.any_toList refuses hT).1 hany
    exact ⟨i, .value, if_pos hi⟩
  · rw [if_neg hany]
    refine ⟨_, ⟨_, h.map f, rfl⟩, fun i => if_neg fun hi => ?_⟩
    exact hany ((h.any_toList refuses ⟨i⟩).2 ⟨i, hi⟩)

variable [Scalar K]

theorem unary_sliced (op : Unary) {v : Values K} {c : Fin T → Values K} (h : v.Sliced c) :
    Agree Sliced (unary op v) fun t => unary op (c t) := by
  obtain ⟨d, hd, rfl⟩ := h
  simp only [unary]
  refine agree_bind (agree_same (op.result v.format)) fun r r' hr => ?_
  simp only [hr]
  exact ⟨_, ⟨_, hd.map _, rfl⟩, fun _ => rfl⟩

theorem binary_eq (op : Binary) (v w : Values K) : binary op v w = (do
    let r ← op.result v.format w.format
    let c := v.format.join w.format
    let pairs ← orFault .value (v.tensor.zipWith? (fun x y => (c.store x, c.store y)) w.tensor)
    fromItems r (fun p => op.refuses c p.2) (fun p => r.store (op.compute c p.1 p.2)) pairs) :=
  rfl

theorem binary_sliced (op : Binary) {v w : Values K} {c d : Fin T → Values K} (hv : v.Sliced c)
    (hw : w.Sliced d) : Agree Sliced (binary op v w) fun t => binary op (c t) (d t) := by
  obtain ⟨c, hc, rfl⟩ := hv
  obtain ⟨d, hd, rfl⟩ := hw
  simp only [binary_eq]
  refine agree_bind (agree_same (op.result v.format w.format)) fun r r' hr => ?_
  simp only [hr]
  refine agree_bind (hc.zipWith? hd _) fun pairs slices hpairs => ?_
  exact fromItems_sliced hpairs r _ _

theorem choose_sliced {u v w : Values K} {b c d : Fin T → Values K} (hu : u.Sliced b)
    (hv : v.Sliced c) (hw : w.Sliced d) :
    Agree Sliced (choose u v w) fun t => choose (b t) (c t) (d t) := by
  obtain ⟨b, hb, rfl⟩ := hu
  obtain ⟨c, hc, rfl⟩ := hv
  obtain ⟨d, hd, rfl⟩ := hw
  refine agree_bind (hc.zipWith? hd Prod.mk) fun branches slices hbranches => ?_
  refine agree_bind (hb.zipWith? hbranches _) fun picked slices hpicked => ?_
  exact ⟨_, ⟨_, hpicked.map _, rfl⟩, fun _ => rfl⟩

end Values

def Bindings.Sliced (env : Bindings K) (envs : Fin T → Bindings K) : Prop :=
  ∀ name, match env.lookup name with
    | some v => ∃ c, v.Sliced c ∧ ∀ t, (envs t).lookup name = some (c t)
    | none => ∀ t, (envs t).lookup name = none

namespace Bindings.Sliced

variable {env : Bindings K} {envs : Fin T → Bindings K}

theorem nil : Sliced ([] : Bindings K) fun _ : Fin T => [] := fun _ _ => rfl

theorem cons (h : env.Sliced envs) {v : Values K} {c : Fin T → Values K} (hv : v.Sliced c)
    (name : String) : Sliced ((name, v) :: env) fun t => (name, c t) :: envs t := by
  intro w
  by_cases hw : w = name
  · subst hw
    rw [List.lookup_cons_self]
    exact ⟨c, hv, fun t => List.lookup_cons_self⟩
  · have hne : (w == name) = false := beq_eq_false_iff_ne.2 hw
    simp only [List.lookup_cons, hne]
    exact h w

theorem lookup_agree (h : env.Sliced envs) (name : String) :
    Agree Values.Sliced (Values.orFault .unknownName (env.lookup name)) fun t =>
      Values.orFault .unknownName ((envs t).lookup name) := by
  have h := h name
  cases hl : env.lookup name with
  | some v =>
    rw [hl] at h
    obtain ⟨c, hc, hlookup⟩ := h
    exact ⟨c, hc, fun t => congrArg (Values.orFault .unknownName) (hlookup t)⟩
  | none =>
    rw [hl] at h
    exact fun ⟨t⟩ => ⟨t, .unknownName, congrArg (Values.orFault .unknownName) (h t)⟩

end Bindings.Sliced

/-- An expression over values has the same expression over their slices as slices. -/
theorem Expr.eval_sliced [Scalar K] {vars params : Bindings K} {cells args : Fin T → Bindings K}
    (hv : vars.Sliced cells) (hp : params.Sliced args) (e : Expr K) :
    Agree Values.Sliced (e.eval vars params) fun t => e.eval (cells t) (args t) := by
  induction e with
  | var name => exact hv.lookup_agree name
  | par name => exact hp.lookup_agree name
  | const x => exact ⟨_, Values.sliced_literal x, fun _ => rfl⟩
  | unary op a iha => exact agree_bind iha fun v c hc => Values.unary_sliced op hc
  | binary op a b iha ihb =>
    exact agree_bind iha fun v c hc => agree_bind ihb fun w d hd => Values.binary_sliced op hc hd
  | choose e a b ihe iha ihb =>
    exact agree_bind ihe fun u c hc => agree_bind iha fun v d hd => agree_bind ihb fun w f hf =>
      Values.choose_sliced hc hd hf

end Catchment
