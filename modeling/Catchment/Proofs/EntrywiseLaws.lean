import Catchment.LawCatalog
import Catchment.Proofs.IndependentNodes
import Catchment.Proofs.TimeSlices

/-!
# Laws that compute entry by entry

A law computes entry by entry if each output holds, at every index over which the arguments it
reads are repeated, what one function gives for their items there, and is refused where that
function refuses. Networks compute column by column. What is computed entry by entry computes slices
from slices.
-/
namespace Catchment

variable {K : Type} {T : Nat}

/-- The items of tensors at every index of the shape over which all are repeated. -/
def Tensor.zipAll? {α : Type} : List (Tensor α) → Option (Tensor (List α))
  | [] => some (.single [])
  | a :: as => (zipAll? as).bind fun rest => a.zipWith? List.cons rest

/-- An array that is computed from some arguments. At every index one function of what these hold
there gives the item or refuses it; the format depends on theirs alone. -/
structure EntryFunction (K : Type) where
  /-- The places of the arguments that are read. -/
  places : List Nat
  format : List Format → Option Format
  refuses : List (Cell K) → Bool
  value : List (Cell K) → K

def EntryFunction.apply (f : EntryFunction K) (args : List (Values K)) :
    Except Fault (Values K) := do
  let read ← f.places.mapM fun i => Values.orFault .value args[i]?
  let formats := read.map Values.format
  let r ← Values.orFault .value (f.format formats)
  let entries ← Values.orFault .value (Tensor.zipAll? (read.map Values.tensor))
  Values.fromItems r f.refuses f.value (entries.map (List.zipWith Cell.mk formats))

/-- Each of a number of outputs of a law is computed entry by entry from a number of arguments. -/
def Law.ActsEntrywise (law : Law K) (arguments outputs : Nat) : Prop :=
  ∃ fs : List (EntryFunction K), ∀ args : List (Values K), args.length = arguments →
    (law.apply args >>= fun result => result.parts outputs).toOption =
      (fs.mapM fun f : EntryFunction K => f.apply args).toOption

/-- Under some weights a network returns a table exactly if each column of it is what one function
gives for that column of the inputs. -/
def NetworkLaw.ActsOnColumns (law : NetworkLaw K) (theta : Tensor K) : Prop :=
  ∃ f : List K → Option (List K), ∀ {l m : Nat} (x : Grid [l, m] K), 0 < m →
    ∀ {k : Nat} (y : Grid [k, m] K), law.apply (.ofGrid x) theta = .ok (.ofGrid y) ↔
      ∀ j, f (x.nodeColumn j) = some (y.nodeColumn j)

theorem Tensor.zipAll?_sliced {α : Type} {vs : List (Tensor α)} {cs : List (Fin T → Tensor α)}
    (h : List.Forall₂ Sliced vs cs) :
    Agree Sliced (Values.orFault .value (zipAll? vs)) fun t =>
      Values.orFault .value (zipAll? (cs.map (· t))) := by
  induction h with
  | nil => exact ⟨_, .single _, fun _ => rfl⟩
  | cons hv _ ih =>
    simp only [List.map_cons, zipAll?, orFault_bind]
    exact agree_bind ih fun rest slices hrest => hv.zipWith? hrest List.cons

theorem EntryFunction.apply_sliced (f : EntryFunction K) {args : List (Values K)}
    {slices : List (Fin T → Values K)} (h : List.Forall₂ Values.Sliced args slices) :
    Agree Values.Sliced (f.apply args) fun t => f.apply (slices.map (· t)) := by
  have hplace (i : Nat) (_ : i ∈ f.places) : Agree Values.Sliced
      (Values.orFault .value args[i]?) fun t => Values.orFault .value (slices.map (· t))[i]? := by
    obtain ⟨hlen, hget⟩ := List.forall₂_iff_get.1 h
    by_cases hi : i < args.length
    · have hi' : i < slices.length := hlen ▸ hi
      rw [List.getElem?_eq_getElem hi]
      exact ⟨slices[i], hget i hi hi', fun t => by simp [hi']⟩
    · have hi' : ¬ i < slices.length := hlen ▸ hi
      simp only [List.getElem?_map, List.getElem?_eq_none (Nat.le_of_not_lt hi),
        List.getElem?_eq_none (Nat.le_of_not_lt hi')]
      exact agree_error _ fun t => ⟨_, rfl⟩
  refine agree_bind (agree_mapM hplace) fun read ds hread => ?_
  obtain ⟨cs, hcs, hds⟩ := hread
  have hformats (t : Fin T) : (ds t).map Values.format = read.map Values.format := by
    rw [hds, List.map_map, ← List.forall₂_eq_eq_eq, List.forall₂_map_left_iff,
      List.forall₂_map_right_iff]
    refine hcs.flip.imp fun c v hv => ?_
    obtain ⟨d, -, rfl⟩ := hv
    rfl
  have htensors : List.Forall₂ Tensor.Sliced (read.map Values.tensor)
      (cs.map fun c t => (c t).tensor) := by
    rw [List.forall₂_map_left_iff, List.forall₂_map_right_iff]
    refine hcs.imp fun v c hv => ?_
    obtain ⟨d, hd, rfl⟩ := hv
    exact hd
  have hslices (t : Fin T) : (ds t).map Values.tensor =
      (cs.map fun c t => (c t).tensor).map (· t) := by
    rw [hds, List.map_map, List.map_map]
    rfl
  simp only [hformats, hslices]
  refine agree_bind (agree_same _) fun r r' hr => ?_
  simp only [hr]
  refine agree_bind (Tensor.zipAll?_sliced htensors) fun entries es hentries => ?_
  exact Values.fromItems_sliced (hentries.map _) r f.refuses f.value

section

variable {α β γ δ : Type}

theorem Tensor.zipWith?_map_right (op : α → γ → δ) (f : β → γ) (a : Tensor α) (b : Tensor β) :
    a.zipWith? op (b.map f) = a.zipWith? (fun x y => op x (f y)) b := by
  simp only [zipWith?_eq, Tensor.map, Grid.get_map]

theorem Tensor.map_zipWith? (f : γ → δ) (op : α → β → γ) (a : Tensor α) (b : Tensor β) :
    (a.zipWith? op b).map (Tensor.map f) = a.zipWith? (fun x y => f (op x y)) b := by
  rw [zipWith?_eq, zipWith?_eq]
  cases Shape.join? a.shape b.shape with
  | none => rfl
  | some w =>
    cases hf : Shape.lift? a.shape w with
    | none => simp [hf]
    | some p => cases hg : Shape.lift? b.shape w with
      | none => simp [hf, hg]
      | some q =>
        simp only [Option.bind_some, hf, hg, Option.map_some, Tensor.map]
        exact congrArg (fun g => some (Tensor.mk w g)) (Grid.ext_get fun i => by simp)

theorem Tensor.zipAll?_pair (a b : Tensor α) :
    zipAll? [a, b] = a.zipWith? (fun x y => [x, y]) b := by
  simp only [zipAll?, Option.bind_some, Tensor.single, zipWith?_single_right, zipWith?_map_right]
  rfl

end

theorem Values.fromItems_map {α β : Type} (r : Format) (refuses : β → Bool) (f : β → K) (g : α → β)
    (t : Tensor α) : fromItems r refuses f (t.map g) =
      fromItems r (fun x => refuses (g x)) (fun x => f (g x)) t := by
  have hany : (t.map g).toList.any refuses = t.toList.any fun x => refuses (g x) := by
    rw [Bool.eq_iff_iff, Tensor.any_toList, Tensor.any_toList]
    simp only [Tensor.map, Grid.get_map]
  have hmap : (t.map g).map f = t.map fun x => f (g x) :=
    congrArg (Tensor.mk t.shape) (Grid.ext_get (s := t.shape) fun i => by simp [Tensor.map])
  rw [fromItems, fromItems, hany, hmap]

section

variable [Scalar K]

/-- An operation on the arguments at two places. -/
def EntryFunction.binary (op : Binary) (i j : Nat) : EntryFunction K where
  places := [i, j]
  format
    | [f, g] => (op.result f g).toOption
    | _ => none
  refuses
    | [x, y] =>
      let c := x.format.join y.format
      op.refuses c (c.store y.value)
    | _ => true
  value
    | [x, y] =>
      let c := x.format.join y.format
      ((op.result x.format y.format).toOption.getD c).store
        (op.compute c (c.store x.value) (c.store y.value))
    | _ => Scalar.nan

theorem EntryFunction.apply_binary (op : Binary) {args : List (Values K)} {i j : Nat}
    {v w : Values K} (hv : args[i]? = some v) (hw : args[j]? = some w) :
    ((EntryFunction.binary op i j).apply args).toOption = (Values.binary op v w).toOption := by
  have hread : ((EntryFunction.binary op i j : EntryFunction K).places.mapM fun k =>
      Values.orFault .value args[k]?) = .ok [v, w] := by
    simp [EntryFunction.binary, hv, hw]
  rw [apply, hread, Values.binary_eq]
  simp only [ok_bind, List.map_cons, List.map_nil, Tensor.zipAll?_pair]
  cases hr : op.result v.format w.format with
  | error e =>
    have hformat : (EntryFunction.binary op i j : EntryFunction K).format [v.format, w.format] =
        none := congrArg Except.toOption hr
    rw [hformat]
    rfl
  | ok r =>
    have hformat : (EntryFunction.binary op i j : EntryFunction K).format [v.format, w.format] =
        some r := congrArg Except.toOption hr
    rw [hformat, orFault_some, ok_bind, ok_bind,
      ← Tensor.map_zipWith? (fun p => [p.1, p.2]) Prod.mk, ← Tensor.map_zipWith?
        (fun p => ((v.format.join w.format).store p.1, (v.format.join w.format).store p.2)) Prod.mk]
    cases v.tensor.zipWith? Prod.mk w.tensor with
    | none => rfl
    | some t =>
      simp only [Option.map_some, orFault_some, ok_bind, Values.fromItems_map,
        EntryFunction.binary, List.zipWith_cons_cons, List.zipWith_nil_left, hr]
      rfl

/-- The law of the difference and the sum of two arguments computes entry by entry. -/
theorem Law.lohi_actsEntrywise (outputs : Nat) : (lohi : Law K).ActsEntrywise 2 outputs := by
  refine ⟨[.binary .sub 0 1, .binary .add 0 1], fun args hargs => ?_⟩
  obtain ⟨x, k, rfl⟩ := List.length_eq_two.1 hargs
  have hbinary (op : Binary) : ((EntryFunction.binary op 0 1).apply [x, k]).toOption =
      (Values.binary op x k).toOption := EntryFunction.apply_binary op rfl rfl
  simp only [lohi, List.mapM_cons, List.mapM_nil, toOption_bind, hbinary]
  cases Values.binary .sub x k <;> cases Values.binary .add x k <;> rfl

end

section

variable {l m k : Nat}

theorem Tensor.ofGrid_stack_iff {s : Shape} {gs : List (Grid s K)} {g : Grid (m :: s) K} :
    Tensor.ofGrid (Grid.stack gs) = .ofGrid g ↔ g.rows = gs := by
  refine ⟨fun h => ?_, ofGrid_stack⟩
  obtain ⟨hshape, hgrid⟩ := Tensor.mk.inj h
  obtain ⟨rfl, -⟩ := List.cons.inj hshape
  rw [← eq_of_heq hgrid, Grid.rows_stack]

/-- Rows over at least one node, stacked, are a table if its columns are theirs. -/
theorem Tensor.ofGrid_stack_iff_nodeColumn {gs : List (Grid [m] K)} {y : Grid [k, m] K}
    (hm : 0 < m) : Tensor.ofGrid (Grid.stack gs) = .ofGrid y ↔
      ∀ j, gs.map (·.get (.node j)) = y.nodeColumn j := by
  rw [ofGrid_stack_iff]
  constructor
  · rintro rfl j
    rfl
  · intro h
    have hlength : gs.length = k := by
      have hcolumn := congrArg List.length (h ⟨0, hm⟩)
      simpa [Grid.nodeColumn, Grid.rows] using hcolumn
    subst hlength
    obtain rfl : Grid.stack gs = y := Grid.ext_nodeColumn fun j => by
      rw [← h j, Grid.nodeColumn, Grid.rows_stack]
    exact Grid.rows_stack gs

theorem Tensor.item_eq_ok {α : Type} {l : Nat} {s : Shape} {g : Grid (l :: s) α} {i : Nat}
    {a : Tensor α} :
    (Tensor.ofGrid g).item i = .ok a ↔ ∃ h : i < l, a = .ofGrid (g.row ⟨i, h⟩) := by
  have hitem : (Tensor.ofGrid g).item i =
      Values.orFault .position ((List.ofFn g.row).map Tensor.ofGrid)[i]? := rfl
  rw [hitem, orFault_eq_ok, List.getElem?_map, Option.map_eq_some_iff]
  constructor
  · rintro ⟨row, hrow, rfl⟩
    obtain ⟨h, rfl⟩ := List.getElem?_eq_some_iff.1 hrow
    exact ⟨by simpa using h, by simp⟩
  · rintro ⟨h, rfl⟩
    exact ⟨_, by simp [h], rfl⟩

theorem Tensor.stack_map_ofGrid {s : Shape} {gs : List (Grid s K)} (h : gs ≠ []) :
    Tensor.stack (gs.map Tensor.ofGrid) = .ok (.ofGrid (Grid.stack gs)) := by
  cases gs with
  | nil => exact absurd rfl h
  | cons g gs =>
    have hgrids : ((g :: gs).map Tensor.ofGrid).mapM
        (fun u => Values.orFault .value (u.asShape? s)) = .ok (g :: gs) :=
      map_mapM_eq_ok fun g _ => congrArg (Values.orFault .value) (dif_pos rfl)
    exact bind_eq_ok.2 ⟨_, hgrids, rfl⟩

variable [Scalar K]

def NetworkLaw.scaledColumn (a b : K) : List K → Option (List K)
  | [] => none
  | x :: _ => some [x * a, x * b]

theorem NetworkLaw.scale2_actsOnColumns (theta : Grid [2] K) :
    scale2.ActsOnColumns (.ofGrid theta) := by
  refine ⟨scaledColumn (theta.get (.node 0)) (theta.get (.node 1)), ?_⟩
  intro l m x hm k y
  cases l with
  | zero =>
    have hcolumn : x.nodeColumn ⟨0, hm⟩ = [] := rfl
    have hitem : scale2.apply (.ofGrid x) (.ofGrid theta) = .error .position := rfl
    rw [hitem]
    refine iff_of_false (by simp) fun h => ?_
    have hnone := h ⟨0, hm⟩
    rw [hcolumn] at hnone
    cases hnone
  | succ l =>
    have hinput : (Tensor.ofGrid x).item 0 = .ok (.ofGrid (x.row 0)) :=
      Tensor.item_eq_ok.2 ⟨Nat.succ_pos l, rfl⟩
    have hfirst : (Tensor.ofGrid theta).item 0 = .ok (.ofGrid (theta.row 0)) :=
      Tensor.item_eq_ok.2 ⟨Nat.zero_lt_two, rfl⟩
    have hsecond : (Tensor.ofGrid theta).item 1 = .ok (.ofGrid (theta.row 1)) :=
      Tensor.item_eq_ok.2 ⟨Nat.one_lt_two, rfl⟩
    have hproduct (i : Fin 2) :
        combine (· * ·) (.ofGrid (x.row 0)) (.ofGrid (theta.row i)) =
          .ok (.ofGrid ((x.row 0).map (· * theta.get (.node i)))) := by
      rw [combine, Tensor.ofGrid, Tensor.ofGrid, Tensor.zipWith?_single_right, orFault_some,
        Grid.get_row]
      rfl
    have happly : scale2.apply (.ofGrid x) (.ofGrid theta) = .ok (.ofGrid (Grid.stack
        [(x.row 0).map (· * theta.get (.node 0)), (x.row 0).map (· * theta.get (.node 1))])) := by
      simp only [scale2, hinput, hfirst, hsecond, ok_bind, hproduct]
      exact Tensor.stack_map_ofGrid (List.cons_ne_nil _ [_])
    rw [happly, Except.ok.injEq, Tensor.ofGrid_stack_iff_nodeColumn hm]
    refine forall_congr' fun j => ?_
    rw [Grid.nodeColumn_eq_ofFn x, List.ofFn_succ]
    simp only [scaledColumn, Option.some.injEq, List.map_cons, List.map_nil, Grid.get_map,
      Grid.get_row]
    rfl

end

end Catchment
