import Catchment.Nested
import Catchment.Topology

/-!
# Flow direction grids

A grid of codes, each of which points at one of the eight neighbouring cells; any other code is a
sink. Nodes sit on distinct cells, and a node drains into the node of the cell that its own cell
points at, if there is one.
-/
namespace Catchment

/-- A row and a column. -/
abbrev Location := Int × Int

/-- The step to the cell that a code points at. -/
def flowStep? : Int → Option Location
  | 1 => some (0, 1)
  | 2 => some (1, 1)
  | 4 => some (1, 0)
  | 8 => some (1, -1)
  | 16 => some (0, -1)
  | 32 => some (-1, -1)
  | 64 => some (-1, 0)
  | 128 => some (-1, 1)
  | _ => none

/-- The cell that a code in a cell points at. -/
def flowTarget? (code : Int) (c : Location) : Option Location :=
  (flowStep? code).map fun d => (c.1 + d.1, c.2 + d.2)

/-- The places of nodes and the places they drain into, for cells with their codes. -/
def flowLinks (cells : List (Location × Int)) : List (Nat × Nat) :=
  cells.zipIdx.filterMap fun p => do
    let target ← flowTarget? p.1.2 p.1.1
    let down ← cells.findIdx? fun q => q.1 = target
    pure (p.2, down)

structure FlowGrid (K : Type) where
  rows : Nat
  columns : Nat
  codes : Grid [rows, columns] (Entry K)

namespace FlowGrid

variable {K : Type} [Scalar K]

def ofNested (a : Nested K) : Except Fault (FlowGrid K) := do
  let s ← a.shape
  let items ← a.entries.mapM fun e => e.elim (.error .value) .ok
  match s with
  | [rows, columns] =>
    match Grid.ofList? [rows, columns] items with
    | some codes => return { rows, columns, codes }
    | none => throw .value
  | s => mismatched (.gridRank s)

/-- The code in a cell of the grid. -/
def codeAt? (g : FlowGrid K) (c : Location) : Option (Entry K) :=
  if h : 0 ≤ c.1 ∧ c.1 < g.rows ∧ 0 ≤ c.2 ∧ c.2 < g.columns then
    some (g.codes.get (⟨c.1.toNat, by omega⟩, ⟨c.2.toNat, by omega⟩, ()))
  else none

/-- The integer parts of a row and a column. -/
def cellOf : List (Entry K) → Except Fault Location
  | [r, c] => do
    let r ← r.truncate
    return (r, ← c.truncate)
  | _ => .error .value

def cellOutside? (g : FlowGrid K) (cells : List Location) : Option Misconfiguration :=
  (cells.zipIdx.find? fun p => (g.codeAt? p.1).isNone).map fun p =>
    .cellOutside p.2 p.1.1 p.1.2 [g.rows, g.columns]

end FlowGrid

/-- The network of nodes on the cells of a grid, named by their positions in the list. -/
def Topology.ofFlowGrid {K : Type} [Scalar K] (grid : FlowGrid K)
    (positions : List (List (Entry K))) : Except Fault Topology := do
  let cells ← positions.mapM FlowGrid.cellOf
  if !decide cells.Nodup then misconfigured .sharedCell
  match grid.cellOutside? cells with
  | some cause => misconfigured cause
  | none =>
    let codes ← (cells.filterMap grid.codeAt?).mapM Entry.truncate
    let id (i : Nat) : NodeId := .integer i
    Topology.ofEdges ((List.range cells.length).map id)
      ((flowLinks (cells.zip codes)).map fun l => (id l.1, id l.2))

end Catchment
