/-!
# Grids

A grid holds one item per index of its shape, in row-major order. Rows are taken along the first
axis and columns along the last. A tensor is a grid of any shape; two shapes join when, aligned at
their last axes, the lengths agree or one of them is 1.
-/
namespace Catchment

abbrev Shape := List Nat

namespace Shape

/-- The number of indexes. -/
def size (s : Shape) : Nat := s.foldr (· * ·) 1

@[simp] theorem size_nil : size [] = 1 := rfl

@[simp] theorem size_cons (n : Nat) (s : Shape) : size (n :: s) = n * size s := rfl

theorem size_flat (s : Shape) : s.size = size [s.size] := (Nat.mul_one s.size).symm

end Shape

/-- A position in every axis. -/
def Index : Shape → Type
  | [] => Unit
  | n :: s => Fin n × Index s

namespace Index

/-- The row-major place of an index. -/
def rank : {s : Shape} → Index s → Fin s.size
  | [], _ => ⟨0, Nat.zero_lt_one⟩
  | n :: s, (i, j) => ⟨i * Shape.size s + rank (s := s) j, by
      have hj := (rank (s := s) j).isLt
      calc i * Shape.size s + rank (s := s) j
          < i * Shape.size s + Shape.size s := by omega
        _ = (i + 1) * Shape.size s := by rw [Nat.add_mul, Nat.one_mul]
        _ ≤ n * Shape.size s := Nat.mul_le_mul_right _ i.isLt⟩

/-- The index at a row-major place. -/
def unrank : {s : Shape} → Fin s.size → Index s
  | [], _ => ()
  | n :: s, k =>
    have hs : 0 < Shape.size s := by
      rcases Nat.eq_zero_or_pos (Shape.size s) with h | h
      · have := k.isLt
        simp [Shape.size_cons, h] at this
      · exact h
    (⟨k / Shape.size s, (Nat.div_lt_iff_lt_mul hs).2 k.isLt⟩,
      unrank (s := s) ⟨k % Shape.size s, Nat.mod_lt _ hs⟩)

theorem unrank_rank : {s : Shape} → (i : Index s) → unrank (rank i) = i
  | [], _ => rfl
  | n :: s, (i, j) => by
    have hj := (rank (s := s) j).isLt
    have hs : 0 < Shape.size s := Nat.lt_of_le_of_lt (Nat.zero_le _) hj
    have hd : (i * Shape.size s + (rank (s := s) j : Nat)) / Shape.size s = i := by
      rw [Nat.mul_comm, Nat.mul_add_div hs, Nat.div_eq_of_lt hj, Nat.add_zero]
    have hm : (i * Shape.size s + (rank (s := s) j : Nat)) % Shape.size s = rank (s := s) j := by
      rw [Nat.mul_comm, Nat.mul_add_mod, Nat.mod_eq_of_lt hj]
    simp only [rank, unrank, hd, hm, Fin.eta]
    rw [unrank_rank j]

theorem rank_unrank : {s : Shape} → (k : Fin s.size) → rank (unrank k) = k
  | [], k => by
    have := k.isLt
    apply Fin.ext
    simp only [Shape.size_nil] at this
    simp only [rank]
    omega
  | n :: s, k => by
    apply Fin.ext
    simp only [unrank, rank]
    rw [rank_unrank]
    exact Nat.div_add_mod' k (Shape.size s)

/-- The index with a further last position. -/
def snoc : {s : Shape} → {n : Nat} → Index s → Fin n → Index (s ++ [n])
  | [], _, _, t => (t, ())
  | _ :: s, _, (i, j), t => (i, snoc (s := s) j t)

/-- The positions but the last. -/
def init : {s : Shape} → {n : Nat} → Index (s ++ [n]) → Index s
  | [], _, _ => ()
  | _ :: s, _, (i, j) => (i, init (s := s) j)

/-- The last position. -/
def last : {s : Shape} → {n : Nat} → Index (s ++ [n]) → Fin n
  | [], _, (t, _) => t
  | _ :: s, _, (_, j) => last (s := s) j

@[simp] theorem init_snoc : {s : Shape} → {n : Nat} → (i : Index s) → (t : Fin n) →
    init (i.snoc t) = i
  | [], _, _, _ => rfl
  | _ :: _, _, (i, j), t => congrArg (Prod.mk i) (init_snoc j t)

@[simp] theorem last_snoc : {s : Shape} → {n : Nat} → (i : Index s) → (t : Fin n) →
    last (i.snoc t) = t
  | [], _, _, _ => rfl
  | _ :: _, _, (_, j), t => last_snoc j t

end Index

/-- One item per index. -/
structure Grid (s : Shape) (α : Type) where
  cells : Vector α s.size

namespace Grid

variable {s u : Shape} {α β γ : Type}

def get (g : Grid s α) (i : Index s) : α := g.cells[i.rank]

def ofFn (f : Index s → α) : Grid s α := ⟨Vector.ofFn fun k => f (Index.unrank k)⟩

@[simp] theorem get_ofFn (f : Index s → α) (i : Index s) : (ofFn f).get i = f i := by
  simp [get, ofFn, Index.unrank_rank]

theorem ext_get {g h : Grid s α} (w : ∀ i, g.get i = h.get i) : g = h := by
  cases g with | mk a =>
  cases h with | mk b =>
  congr 1
  apply Vector.ext
  intro k hk
  have := w (Index.unrank ⟨k, hk⟩)
  simpa [get, Index.rank_unrank] using this

def replicate (x : α) : Grid s α := ofFn fun _ => x

def map (f : α → β) (g : Grid s α) : Grid s β := ofFn fun i => f (g.get i)

def zipWith (f : α → β → γ) (g : Grid s α) (h : Grid s β) : Grid s γ :=
  ofFn fun i => f (g.get i) (h.get i)

@[simp] theorem get_replicate (x : α) (i : Index s) : (replicate x : Grid s α).get i = x := by
  simp [replicate]

@[simp] theorem get_map (f : α → β) (g : Grid s α) (i : Index s) :
    (g.map f).get i = f (g.get i) := by simp [map]

@[simp] theorem get_zipWith (f : α → β → γ) (g : Grid s α) (h : Grid s β) (i : Index s) :
    (g.zipWith f h).get i = f (g.get i) (h.get i) := by simp [zipWith]

/-- The items in row-major order. -/
def toList (g : Grid s α) : List α := g.cells.toList

/-- Items in row-major order, if there are as many as indexes. -/
def ofList? (s : Shape) (items : List α) : Option (Grid s α) :=
  if h : items.length = s.size then some ⟨⟨items.toArray, by simpa using h⟩⟩ else none

/-- The same items in another shape of the same size. -/
def reshape (g : Grid s α) (h : s.size = u.size) : Grid u α := ⟨g.cells.cast h⟩

def row {n : Nat} (g : Grid (n :: s) α) (i : Fin n) : Grid s α := ofFn fun j => g.get (i, j)

def ofRows {n : Nat} (f : Fin n → Grid s α) : Grid (n :: s) α :=
  ofFn fun (i, j) => (f i).get j

def column {n : Nat} (g : Grid (s ++ [n]) α) (t : Fin n) : Grid s α :=
  ofFn fun i => g.get (i.snoc t)

def ofColumns {n : Nat} (f : Fin n → Grid s α) : Grid (s ++ [n]) α :=
  ofFn fun i => (f i.last).get i.init

@[simp] theorem get_row {n : Nat} (g : Grid (n :: s) α) (i : Fin n) (j : Index s) :
    (g.row i).get j = g.get (i, j) := by simp [row]

@[simp] theorem get_ofRows {n : Nat} (f : Fin n → Grid s α) (i : Fin n) (j : Index s) :
    (ofRows f).get ((i, j) : Index (n :: s)) = (f i).get j := get_ofFn _ _

@[simp] theorem get_column {n : Nat} (g : Grid (s ++ [n]) α) (t : Fin n) (i : Index s) :
    (g.column t).get i = g.get (i.snoc t) := by simp [column]

@[simp] theorem get_ofColumns {n : Nat} (f : Fin n → Grid s α) (i : Index (s ++ [n])) :
    (ofColumns f).get i = (f i.last).get i.init := by simp [ofColumns]

def rows {n : Nat} (g : Grid (n :: s) α) : List (Grid s α) := List.ofFn g.row

def columns {n : Nat} (g : Grid (s ++ [n]) α) : List (Grid s α) := List.ofFn g.column

/-- Rows stacked along a new first axis. -/
def stack (gs : List (Grid s α)) : Grid (gs.length :: s) α := ofRows fun i => gs[i]

end Grid

namespace Shape

/-- Reads an index of a shape in one of the same number of axes: an axis of length 1 is read at
its only position. -/
def align? : (s u : Shape) → Option (Index u → Index s)
  | [], [] => some fun _ => ()
  | m :: s, n :: u =>
    if h : n = m then (align? s u).map fun f i => (h ▸ i.1, f i.2)
    else if h : m = 1 then (align? s u).map fun f i => (⟨0, h ▸ Nat.zero_lt_one⟩, f i.2)
    else none
  | _, _ => none

/-- Reads an index of a shape in one that is repeated over it, the last axes aligned. -/
def lift? (s : Shape) : (u : Shape) → Option (Index u → Index s)
  | [] => align? s []
  | n :: u =>
    if s.length ≤ u.length then (lift? s u).map fun f i => f i.2 else align? s (n :: u)

def joinLength? (m n : Nat) : Option Nat :=
  if m = n then some m else if m = 1 then some n else if n = 1 then some m else none

/-- The join of two shapes listed from the last axis. -/
def joinReversed? : Shape → Shape → Option Shape
  | [], u => some u
  | s, [] => some s
  | m :: s, n :: u => do
    let k ← joinLength? m n
    let rest ← joinReversed? s u
    pure (k :: rest)

/-- The least shape over which both are repeated. -/
def join? (s u : Shape) : Option Shape := (joinReversed? s.reverse u.reverse).map List.reverse

end Shape

/-- A grid repeated over a larger shape. -/
def Grid.repeat? {s : Shape} {α : Type} (g : Grid s α) (u : Shape) : Option (Grid u α) :=
  (Shape.lift? s u).map fun f => Grid.ofFn fun i => g.get (f i)

/-- A grid of any shape. -/
structure Tensor (α : Type) where
  shape : Shape
  grid : Grid shape α

namespace Tensor

variable {α β γ : Type}

def ofGrid {s : Shape} (g : Grid s α) : Tensor α := ⟨s, g⟩

def single (x : α) : Tensor α := ⟨[], Grid.replicate x⟩

def size (t : Tensor α) : Nat := t.shape.size

def toList (t : Tensor α) : List α := t.grid.toList

def ofList? (s : Shape) (items : List α) : Option (Tensor α) := (Grid.ofList? s items).map ofGrid

def map (f : α → β) (t : Tensor α) : Tensor β := ⟨t.shape, t.grid.map f⟩

def zipWith? (f : α → β → γ) (a : Tensor α) (b : Tensor β) : Option (Tensor γ) := do
  let u ← Shape.join? a.shape b.shape
  let x ← a.grid.repeat? u
  let y ← b.grid.repeat? u
  pure ⟨u, x.zipWith f y⟩

def repeat? (t : Tensor α) (u : Shape) : Option (Grid u α) := t.grid.repeat? u

/-- The grid, if the tensor has this shape. -/
def asShape? (t : Tensor α) (s : Shape) : Option (Grid s α) :=
  if h : t.shape = s then some (h ▸ t.grid) else none

/-- The rows of a tensor with a first axis. -/
def rows? : Tensor α → Option (List (Tensor α))
  | ⟨[], _⟩ => none
  | ⟨_ :: _, g⟩ => some (g.rows.map ofGrid)

/-- Grids of one shape as the columns of a tensor. -/
def ofColumns {s : Shape} (gs : List (Grid s α)) : Tensor α :=
  let table := gs.toArray
  ⟨s ++ [table.size], Grid.ofColumns fun t => table[t]⟩

end Tensor

/-- A tensor seen as columns of one shape along its last axis. -/
structure ColumnList (α : Type) where
  shape : Shape
  columns : List (Grid shape α)

/-- The columns of a tensor with a last axis. -/
def Tensor.columns? (t : Tensor α) : Option (ColumnList α) :=
  if h : t.shape = [] then none
  else
    have e : t.shape = t.shape.dropLast ++ [t.shape.getLast h] :=
      (List.dropLast_concat_getLast h).symm
    some ⟨t.shape.dropLast, (e ▸ t.grid : Grid (t.shape.dropLast ++ [t.shape.getLast h]) α).columns⟩

end Catchment
