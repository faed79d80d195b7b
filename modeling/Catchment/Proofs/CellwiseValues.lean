import Catchment.Proofs.Broadcasting
import Catchment.Proofs.Outcomes
import Catchment.Values

/-!
# Values cell by cell

A value that is repeated over a shape holds one cell per index of the shape. Operations on values
act on these cells, whatever the shapes of the values are: an operation on values succeeds when it
succeeds on the cells of every index, and its result holds the results.
-/
namespace Catchment

variable {K : Type} {s : Shape}

theorem Grid.mem_toList {α : Type} {g : Grid s α} {x : α} : x ∈ g.toList ↔ ∃ i, g.get i = x := by
  rw [Grid.toList, List.mem_iff_getElem]
  constructor
  · rintro ⟨k, hk, rfl⟩
    have hk' : k < s.size := by simpa using hk
    exact ⟨Index.unrank ⟨k, hk'⟩, by simp [Grid.get, Index.rank_unrank]⟩
  · rintro ⟨i, rfl⟩
    exact ⟨i.rank, by simp, by simp [Grid.get]⟩

theorem Tensor.any_toList {α : Type} (t : Tensor α) (p : α → Bool) :
    t.toList.any p = true ↔ ∃ i, p (t.grid.get i) = true := by
  rw [List.any_eq_true]
  constructor
  · rintro ⟨x, hx, h⟩
    obtain ⟨i, rfl⟩ := Grid.mem_toList.1 hx
    exact ⟨i, h⟩
  · rintro ⟨i, h⟩
    exact ⟨_, Grid.mem_toList.2 ⟨i, rfl⟩, h⟩

theorem Tensor.zipWith?_of_lift? {α β γ : Type} (op : α → β → γ) {a : Tensor α} {b : Tensor β}
    {f : Index s → Index a.shape} {g : Index s → Index b.shape}
    (hf : Shape.lift? a.shape s = some f) (hg : Shape.lift? b.shape s = some g) :
    ∃ t r, a.zipWith? op b = some t ∧ Shape.lift? t.shape s = some r ∧
      ∀ i, t.grid.get (r i) = op (a.grid.get (f i)) (b.grid.get (g i)) := by
  obtain ⟨w, p, q, r, hw, hp, hq, hr, rfl, rfl⟩ := Shape.readsThroughJoin hf hg
  refine ⟨⟨w, (Grid.ofFn fun i => a.grid.get (p i)).zipWith op
    (Grid.ofFn fun i => b.grid.get (q i))⟩, r, ?_, hr, fun i => by simp⟩
  simp [Tensor.zipWith?, Grid.repeat?, hw, hp, hq]

namespace Values

/-- The value, repeated over a shape, holds these cells. -/
def Holds (v : Values K) (c : Index s → Cell K) : Prop :=
  ∃ f, Shape.lift? v.tensor.shape s = some f ∧ ∀ i, c i = ⟨v.format, v.tensor.grid.get (f i)⟩

theorem Holds.format {v : Values K} {c : Index s → Cell K} (h : v.Holds c) (i : Index s) :
    (c i).format = v.format := by
  obtain ⟨f, -, h⟩ := h
  rw [h]

theorem Holds.repeat? {v : Values K} {c : Index s → Cell K} (h : v.Holds c) :
    v.tensor.repeat? s = some (Grid.ofFn fun i => (c i).value) := by
  obtain ⟨f, hf, h⟩ := h
  simp [Tensor.repeat?, Grid.repeat?, hf, h]

theorem holds_ofGrid (g : Grid s K) : (ofGrid g).Holds fun i => Cell.double (g.get i) :=
  ⟨id, Shape.lift?_self s, fun _ => rfl⟩

theorem holds_literal (x : K) : (literal x).Holds fun _ : Index s => ⟨.literal, x⟩ := by
  refine ⟨_, Shape.lift?_nil s, fun _ => ?_⟩
  exact congrArg (Cell.mk .literal) (Grid.get_replicate x _).symm

variable [Scalar K]

theorem unary_agree (op : Unary) {v : Values K} {c : Index s → Cell K} (h : v.Holds c) :
    Agree Holds (unary op v) fun i => Cell.unary op (c i) := by
  unfold unary
  cases hr : op.result v.format with
  | error e =>
    rintro ⟨i⟩
    refine ⟨i, e, ?_⟩
    simp [Cell.unary, h.format i, hr]
  | ok r =>
    obtain ⟨f, hf, hc⟩ := h
    refine ⟨fun i => ⟨r, r.store (op.compute (c i).value)⟩, ⟨f, hf, fun i => ?_⟩, fun i => ?_⟩
    · simp [hc, Tensor.map]
    · simp [Cell.unary, hc, hr]

theorem binary_agree (op : Binary) {v w : Values K} {c d : Index s → Cell K} (hv : v.Holds c)
    (hw : w.Holds d) : Agree Holds (binary op v w) fun i => Cell.binary op (c i) (d i) := by
  unfold binary
  cases hr : op.result v.format w.format with
  | error e =>
    rintro ⟨i⟩
    refine ⟨i, e, ?_⟩
    simp [Cell.binary, hv.format i, hw.format i, hr]
  | ok r =>
    obtain ⟨f, hf, hc⟩ := hv
    obtain ⟨g, hg, hd⟩ := hw
    generalize hj : v.format.join w.format = j
    obtain ⟨t, p, ht, hp, hget⟩ :=
      Tensor.zipWith?_of_lift? (fun x y => (j.store x, j.store y)) hf hg
    have hcell (i : Index s) : Cell.binary op (c i) (d i) =
        if op.refuses j (t.grid.get (p i)).2 then .error .value
        else .ok ⟨r, r.store (op.compute j (t.grid.get (p i)).1 (t.grid.get (p i)).2)⟩ := by
      simp only [Cell.binary, hc, hd, hr, hj, ok_bind, hget]
      split <;> rfl
    simp only [ok_bind, ht, orFault_some, hcell]
    -- every item of the joined values stands at some index, so a refusal is seen there
    by_cases hany : t.toList.any (fun x => op.refuses j x.2) = true
    · rw [if_pos hany]
      rintro ⟨i₀⟩
      obtain ⟨x, hx⟩ := (t.any_toList _).1 hany
      obtain ⟨i, rfl⟩ := Shape.lift?_surjective hp i₀ x
      exact ⟨i, .value, if_pos hx⟩
    · rw [if_neg hany]
      have hnone (i : Index s) : ¬ op.refuses j (t.grid.get (p i)).2 = true :=
        fun hx => hany ((t.any_toList _).2 ⟨p i, hx⟩)
      refine ⟨_, ⟨p, hp, fun i => rfl⟩, fun i => ?_⟩
      exact (if_neg (hnone i)).trans (by simp [Tensor.map])

theorem choose_agree {u v w : Values K} {b c d : Index s → Cell K} (hu : u.Holds b)
    (hv : v.Holds c) (hw : w.Holds d) :
    Agree Holds (choose u v w) fun i => .ok ((b i).choose (c i) (d i)) := by
  obtain ⟨e, he, hb⟩ := hu
  obtain ⟨f, hf, hc⟩ := hv
  obtain ⟨g, hg, hd⟩ := hw
  obtain ⟨t, p, ht, hp, hget⟩ := Tensor.zipWith?_of_lift? Prod.mk hf hg
  obtain ⟨t', p', ht', hp', hget'⟩ :=
    Tensor.zipWith?_of_lift? (fun x (y : K × K) => if Scalar.truth x then y.1 else y.2) he hp
  simp only [choose, ht, ht', orFault_some, ok_bind]
  refine ⟨_, ⟨p', hp', fun i => rfl⟩, fun i => ?_⟩
  simp [Cell.choose, hb, hc, hd, hget', hget, Tensor.map]

end Values

def Bindings.Hold (env : Bindings K) (cells : Index s → String → Option (Cell K)) : Prop :=
  ∀ name, match env.lookup name with
    | some v => ∃ c, v.Holds c ∧ ∀ i, cells i name = some (c i)
    | none => ∀ i, cells i name = none

theorem Bindings.Hold.lookup_agree {env : Bindings K} {cells : Index s → String → Option (Cell K)}
    (h : env.Hold cells) (name : String) :
    Agree Values.Holds (Values.orFault .unknownName (env.lookup name)) fun i =>
      (cells i name).elim (.error .unknownName) .ok := by
  have h := h name
  cases hl : env.lookup name with
  | some v =>
    rw [hl] at h
    obtain ⟨c, hc, hcells⟩ := h
    exact ⟨c, hc, fun i => by simp [hcells]⟩
  | none =>
    rw [hl] at h
    rintro ⟨i⟩
    exact ⟨i, .unknownName, by simp [h i]⟩

/-- An expression over values is the expression over the cells of every index. -/
theorem Expr.eval_agree [Scalar K] {vars params : Bindings K}
    {cells args : Index s → String → Option (Cell K)} (hv : vars.Hold cells)
    (hp : params.Hold args) (e : Expr K) :
    Agree Values.Holds (e.eval vars params) fun i => e.evalCell (cells i) (args i) := by
  induction e with
  | var name => exact hv.lookup_agree name
  | par name => exact hp.lookup_agree name
  | const x => exact ⟨_, Values.holds_literal x, fun _ => rfl⟩
  | unary op a iha =>
    exact agree_bind (l := fun _ c => Cell.unary op c) iha fun v c hc =>
      Values.unary_agree op hc
  | binary op a b iha ihb =>
    refine agree_bind (l := fun i c => b.evalCell (cells i) (args i) >>= Cell.binary op c)
      iha fun v c hc => ?_
    exact agree_bind (l := fun i d => Cell.binary op (c i) d) ihb fun w d hd =>
      Values.binary_agree op hc hd
  | choose e a b ihe iha ihb =>
    refine agree_bind (l := fun i x => do
      let y ← a.evalCell (cells i) (args i)
      return x.choose y (← b.evalCell (cells i) (args i))) ihe fun u c hc => ?_
    refine agree_bind (l := fun i y => do
      return (c i).choose y (← b.evalCell (cells i) (args i))) iha fun v d hd => ?_
    exact agree_bind (l := fun i z => .ok ((c i).choose (d i) z)) ihb fun w f hf =>
      Values.choose_agree hc hd hf

end Catchment
