import Catchment.Proofs.BucketColumns
import Catchment.Proofs.SymbolicColumns

/-!
# Picked nodes

One node of rows over nodes is read by a map of indexes. Whatever is computed index by index commutes
with such a map: a program over all nodes runs, or fails, as its runs at the single nodes do, and so
does a fixed step and a march along the times. Nothing is assumed of the times but that they are
accepted.
-/
namespace Catchment

variable {α β γ K : Type} {s u : Shape} {m n t : Nat}

namespace Grid

def pick (φ : Index u → Index s) (g : Grid s α) : Grid u α := ofFn fun i => g.get (φ i)

@[simp] theorem get_pick (φ : Index u → Index s) (g : Grid s α) (i : Index u) :
    (g.pick φ).get i = g.get (φ i) :=
  get_ofFn _ i

theorem pick_map (φ : Index u → Index s) (f : α → β) (g : Grid s α) :
    (g.map f).pick φ = (g.pick φ).map f :=
  ext_get fun i => by simp

theorem pick_zipWith (φ : Index u → Index s) (f : α → β → γ) (g : Grid s α) (h : Grid s β) :
    (g.zipWith f h).pick φ = (g.pick φ).zipWith f (h.pick φ) :=
  ext_get fun i => by simp

theorem map_get_pick (φ : Index u → Index s) (rows : List (Grid s α)) (i : Index u) :
    (rows.map (pick φ)).map (·.get i) = rows.map (·.get (φ i)) := by
  simp

end Grid

namespace Index

/-- The only position of one node, at a node of several. -/
def atNode (i : Fin n) : Index [1] → Index [n] := fun _ => .node i

/-- The times of one node, at a node of several. -/
def alongNode (i : Fin n) : Index [1, t] → Index [n, t] := fun j => .nodeTime i j.tail.head

def below (φ : Index u → Index s) : Index (m :: u) → Index (m :: s) :=
  fun k => .cons k.head (φ k.tail)

end Index

theorem Grid.rows_pick_below (φ : Index u → Index s) (g : Grid (m :: s) α) :
    (g.pick (Index.below φ)).rows = g.rows.map (pick φ) := by
  refine List.ext_getElem (by simp [rows]) fun k hk hk' => ext_get fun i => ?_
  simp only [rows, List.getElem_ofFn, List.getElem_map, get_pick, get_row]
  exact get_pick _ g _

/-- Outcomes that agree with the same outcomes index by index agree with each other: all at once, and
picked by maps that together reach every index. -/
theorem agree_pick {ι : Type} {x : Except Fault (List (Grid s K))}
    {y : ι → Except Fault (List (Grid u K))} {c : Index s → Except Fault (List K)}
    {φ : ι → Index u → Index s} (hφ : ∀ k, ∃ i j, φ i j = k) (j₀ : Index u)
    (hx : Agree (fun outs d => ∀ k, d k = outs.map (·.get k)) x c)
    (hy : ∀ i, Agree (fun outs d => ∀ k, d k = outs.map (·.get k)) (y i) fun j => c (φ i j)) :
    Agree (fun outs d => ∀ i, d i = outs.map (Grid.pick (φ i))) x y := by
  cases x with
  | ok outs =>
    obtain ⟨d, hd, hc⟩ := hx
    refine ⟨fun i => outs.map (Grid.pick (φ i)), fun _ => rfl, fun i => ?_⟩
    obtain ⟨outs', hy', hget⟩ := (hy i).eq_ok ⟨j₀⟩ fun j => hc (φ i j)
    have hcolumns (j : Index u) : outs'.map (·.get j) = outs.map (·.get (φ i j)) :=
      (hget j).symm.trans (hd (φ i j))
    rw [hy']
    refine congrArg Except.ok (Grid.list_ext_get j₀ fun j => ?_)
    rw [hcolumns j, Grid.map_get_pick]
  | error e =>
    rintro ⟨i₀⟩
    obtain ⟨k, e', hk⟩ := hx ⟨φ i₀ j₀⟩
    obtain ⟨i, j, rfl⟩ := hφ k
    refine ⟨i, ?_⟩
    have hyi := hy i
    cases hcase : y i with
    | error e => exact ⟨e, rfl⟩
    | ok outs' =>
      rw [hcase] at hyi
      obtain ⟨d, -, hc⟩ := hyi
      have hj : Except.error e' = Except.ok (d j) := hk.symm.trans (hc j)
      simp at hj

variable [Scalar K]

def Scope.number (σ : Scope K) (k : String) : K := ((σ k).map Cell.value).getD Scalar.nan

namespace Program

variable {p : Program K} {params : Bindings K} {cells : Index s → Scope K}

def evalAt (p : Program K) (params : Scope K) (xs : List K) : Except Fault (List K) :=
  match p.backend with
  | .elementwise => evalOutputs params p.formulas p.outputs (scopeOf p.inputs xs)
  | .symbolic =>
    .ok (p.outputs.map (computed params.number p.formulas (numbersOf p.inputs xs)))

theorem run_agree (hp : p.ByFormulas) (hn : p.inputs.Nodup) (ha : params.Hold cells)
    (hargs : ∀ k ∈ p.params, ∀ i, ∃ x, cells i k = some (.double x)) (rows : List (Grid s K))
    (weights : Weights K) :
    Agree (fun outs d => ∀ i, d i = outs.map (·.get i)) (p.run rows params weights) fun i =>
      p.evalAt (cells i) (rows.map (·.get i)) := by
  unfold run evalAt
  cases p.backend with
  | elementwise => exact runElementwise_agree hp hn ha rows weights
  | symbolic =>
    have hnumber (k : String) (hk : k ∈ p.params) (i : Index s) :
        cells i k = some (.double ((cells i).number k)) := by
      obtain ⟨x, hx⟩ := hargs k hk i
      rw [Scope.number, hx]
      rfl
    obtain ⟨outs, hrun, -, hget⟩ := runSymbolic_exists hn ha hnumber rows
    dsimp only
    rw [hrun]
    exact ⟨_, fun i => (hget i).symm, fun i => rfl⟩

theorem evalAt_of_run (hp : p.ByFormulas) (hn : p.inputs.Nodup) (ha : params.Hold cells)
    (hargs : ∀ k ∈ p.params, ∀ i, ∃ x, cells i k = some (.double x)) {rows outs : List (Grid s K)}
    {weights : Weights K} (h : p.run rows params weights = .ok outs) (i : Index s) :
    p.evalAt (cells i) (rows.map (·.get i)) = .ok (outs.map (·.get i)) := by
  have ha := run_agree hp hn ha hargs rows weights
  rw [h] at ha
  obtain ⟨d, hd, hok⟩ := ha
  exact (hok i).trans (congrArg Except.ok (hd i))

/-- Over a shape with an index, rows that are given at every index are what a program returns. -/
theorem run_of_evalAt (hp : p.ByFormulas) (hn : p.inputs.Nodup) (ha : params.Hold cells)
    (hargs : ∀ k ∈ p.params, ∀ i, ∃ x, cells i k = some (.double x)) {rows outs : List (Grid s K)}
    (weights : Weights K) (i₀ : Index s)
    (h : ∀ i, p.evalAt (cells i) (rows.map (·.get i)) = .ok (outs.map (·.get i))) :
    p.run rows params weights = .ok outs := by
  obtain ⟨outs', hrun, hget⟩ := (run_agree hp hn ha hargs rows weights).eq_ok ⟨i₀⟩ h
  rw [hrun, Except.ok.injEq]
  exact Grid.list_ext_get i₀ fun i => (hget i).symm

/-- A program over all indexes runs as it does over the indexes picked by each of some maps. -/
theorem run_pick {ι : Type} {φ : ι → Index u → Index s} (hφ : ∀ k, ∃ i j, φ i j = k) (j₀ : Index u)
    (hp : p.ByFormulas) (hn : p.inputs.Nodup) (ha : params.Hold cells) {picked : ι → Bindings K}
    (hpicked : ∀ i, (picked i).Hold fun j => cells (φ i j))
    (hargs : ∀ k ∈ p.params, ∀ i, ∃ x, cells i k = some (.double x)) (rows : List (Grid s K))
    (weights : Weights K) :
    Agree (fun outs d => ∀ i, d i = outs.map (Grid.pick (φ i))) (p.run rows params weights) fun i =>
      p.run (rows.map (Grid.pick (φ i))) (picked i) weights := by
  refine agree_pick hφ j₀ (run_agree hp hn ha hargs rows weights) fun i => ?_
  have h := run_agree hp hn (hpicked i) (fun k hk j => hargs k hk (φ i j))
    (rows.map (Grid.pick (φ i))) weights
  simpa only [Grid.map_get_pick] using h

end Program

theorem raise_pick (minValue : Option K) (φ : Index u → Index s) (g : Grid s K) :
    (raise minValue g).pick φ = raise minValue (g.pick φ) := by
  cases minValue with
  | none => rfl
  | some m => exact Grid.pick_map φ _ g

section

variable {ι : Type} {φ : ι → Index u → Index s} {rate : Rate s K} {rates : ι → Rate u K}
  (hrate : ∀ v time, Agree (fun g d => ∀ i, d i = g.pick (φ i)) (checkedRate rate v time) fun i =>
    checkedRate (rates i) (v.pick (φ i)) time)

include hrate

/-- A step over all indexes is a step over the indexes picked by each map, if the rate is. -/
theorem advanceOnce_pick (minValue : Option K) (v : Grid s K) (time : K) :
    Agree (fun w d => ∀ i, d i = w.pick (φ i)) (advanceOnce minValue rate v time) fun i =>
      advanceOnce minValue (rates i) (v.pick (φ i)) time := by
  refine agree_bind (l := fun i r => pure (raise minValue ((v.pick (φ i)).zipWith (· + ·) r)))
    (hrate v time) fun g d hd => agree_pure fun i => ?_
  rw [hd, raise_pick, Grid.pick_zipWith]

theorem marchExplicit_pick (minValue : Option K) (v : Grid s K) (times : List K) :
    Agree (fun columns d => ∀ i, d i = columns.map (Grid.pick (φ i)))
      (marchExplicit minValue rate v times) fun i =>
      marchExplicit minValue (rates i) (v.pick (φ i)) times := by
  induction times generalizing v with
  | nil => exact ⟨fun _ => [], fun _ => rfl, fun _ => rfl⟩
  | cons time times ih => cases times with
    | nil => exact ⟨fun i => [v.pick (φ i)], fun _ => rfl, fun _ => rfl⟩
    | cons next rest =>
      simp only [marchExplicit]
      refine agree_bind
        (l := fun i w => do
          return v.pick (φ i) :: (← marchExplicit minValue (rates i) w (next :: rest)))
        (advanceOnce_pick hrate minValue v time) fun w d hd => ?_
      obtain rfl : d = fun i => w.pick (φ i) := funext hd
      refine agree_bind (l := fun i columns => pure (v.pick (φ i) :: columns)) (ih w)
        fun columns d hd => agree_pure fun i => ?_
      rw [hd, List.map_cons]

end

end Catchment
