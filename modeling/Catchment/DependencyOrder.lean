import Catchment.Fault
import Catchment.Flux
import Catchment.StrongComponents

/-!
# Dependency order

Items read and produce variables. An order is valid when what an item reads is produced by no item
or by an earlier one. Resolving counts, for every item, the items that it reads from and that are not
placed; the first one that has none left is placed next and no longer counts for its readers, so an
order that is valid already is kept.
-/
namespace Catchment

structure Item where
  name : String
  reads : List String
  produces : List String
  deriving DecidableEq, Repr

namespace Item

/-- Every product with the position of its item. -/
def products (items : List Item) : List (String × Nat) :=
  items.zipIdx.flatMap fun p => p.1.produces.map fun v => (v, p.2)

def producer? (items : List Item) (v : String) : Option Nat :=
  items.findIdx? fun item => item.produces.contains v

def nameAt (items : List Item) (i : Nat) : String := (items[i]?.map Item.name).getD ""

/-- The first variable with a second producer. -/
def producedTwice? (kind : String) (items : List Item) : Option Misconfiguration :=
  let ps := products items
  (ps.zipIdx.find? fun q => ((ps.take q.2).map Prod.fst).contains q.1.1).map fun q =>
    let first := (producer? items q.1.1).getD q.1.2
    .producedTwice q.1.1 kind (nameAt items first) (nameAt items q.1.2)

/-- Every read with the position of its item. -/
def allReads (items : List Item) : List (String × Nat) :=
  items.zipIdx.flatMap fun p => p.1.reads.map fun v => (v, p.2)

end Item

/-- The graph of producers and readers, by position. -/
structure ReadGraph where
  /-- For every position those that read its products, each once, as they are met. -/
  readers : List (List Nat)
  /-- The variables that pass from one position to another. -/
  via : List ((Nat × Nat) × List String)

namespace ReadGraph

def empty (size : Nat) : ReadGraph := ⟨List.replicate size [], []⟩

def size (g : ReadGraph) : Nat := g.readers.length

def readersOf (g : ReadGraph) (i : Nat) : List Nat := g.readers.getD i []

/-- A variable at the end of those of a pair, which is added if it is new. -/
def addVariable (table : List ((Nat × Nat) × List String)) (pair : Nat × Nat) (v : String) :
    List ((Nat × Nat) × List String) :=
  if table.any fun e => e.1 = pair then
    table.map fun e => if e.1 = pair then (e.1, e.2 ++ [v]) else e
  else table ++ [(pair, [v])]

/-- A variable passes from a position to another. -/
def connect (g : ReadGraph) (i j : Nat) (v : String) : ReadGraph where
  readers := g.readers.modify i fun js => if js.contains j then js else js ++ [j]
  via := addVariable g.via (i, j) v

/-- The number of positions that each position reads from. -/
def indegrees (g : ReadGraph) : List Int :=
  g.readers.flatten.foldl (fun ds j => ds.modify j (· + 1)) (List.replicate g.size 0)

end ReadGraph

/-- A sort in progress. -/
structure Sorting where
  /-- The numbers of positions that are read from and not placed yet. -/
  indegrees : List Int
  /-- The positions that can be placed next; the least one comes out first. -/
  ready : List Nat
  /-- The positions that are placed. -/
  order : List Nat

namespace Sorting

def start (g : ReadGraph) : Sorting where
  indegrees := g.indegrees
  ready := (List.range g.size).filter fun i => g.indegrees.getD i 0 = 0
  order := []

/-- One position less that a position has to wait for. -/
def release (s : Sorting) (j : Nat) : Sorting :=
  let left := s.indegrees.getD j 0 - 1
  { s with
    indegrees := s.indegrees.set j left
    ready := if left = 0 then s.ready ++ [j] else s.ready }

/-- Takes a position out and places it. -/
def place (s : Sorting) (g : ReadGraph) (i : Nat) : Sorting :=
  (g.readersOf i).foldl release { s with ready := s.ready.erase i, order := s.order ++ [i] }

/-- Places what is ready, at most `fuel` positions. -/
def run (g : ReadGraph) : Nat → Sorting → Sorting
  | 0, s => s
  | fuel + 1, s =>
    match s.ready.min? with
    | some i => run g fuel (s.place g i)
    | none => s

end Sorting

namespace ReadGraph

/-- The positions that can be placed, in the order in which they are. -/
def order (g : ReadGraph) : List Nat := (Sorting.run g g.size (.start g)).order

/-- The variables that pass from one of some positions to another. -/
def variablesWithin (g : ReadGraph) (members : List Nat) : List String :=
  sortedNames <|
    (g.via.filter fun e => members.contains e.1.1 && members.contains e.1.2).flatMap Prod.snd

/-- The first component of several positions among those that could not be placed. -/
def cycleMembers (g : ReadGraph) (remaining : List Nat) : List Nat :=
  let next (i : Nat) : List Nat := (g.readersOf i).filter remaining.contains
  match (strongComponents g.size remaining next).find? fun c => 1 < c.length with
  | some c => c.mergeSort fun i j => decide (i ≤ j)
  | none => remaining

end ReadGraph

namespace Item

/-- Connects the producer of what is read to its reader. -/
def addRead (kind : String) (items : List Item) (g : ReadGraph) (r : String × Nat) :
    Except Fault ReadGraph :=
  match producer? items r.1 with
  | none => .ok g
  | some i =>
    if i = r.2 then misconfigured (.readsOwnOutput kind (nameAt items i) r.1)
    else .ok (g.connect i r.2 r.1)

def readGraph (kind : String) (items : List Item) : Except Fault ReadGraph :=
  (allReads items).foldlM (addRead kind items) (.empty items.length)

/-- The positions of the items in dependency order. -/
def resolve (kind : String) (items : List Item) : Except Fault (List Nat) :=
  match producedTwice? kind items with
  | some cause => misconfigured cause
  | none => do
    let g ← readGraph kind items
    if g.order.length < items.length then
      let members := g.cycleMembers ((List.range items.length).filter (!g.order.contains ·))
      misconfigured (.cycle kind (members.map (nameAt items)) (g.variablesWithin members))
    else return g.order

def readBeforeProduced? (kind : String) (items : List Item) : Option Misconfiguration :=
  (allReads items).findSome? fun r =>
    match producer? items r.1 with
    | some i =>
      if r.2 ≤ i then
        some (.readBeforeProduced kind (nameAt items r.2) r.1 (nameAt items i))
      else none
    | none => none

/-- Whether the items stand in dependency order. -/
def checkOrder (kind : String) (items : List Item) : Except Fault Unit :=
  match producedTwice? kind items, readBeforeProduced? kind items with
  | some cause, _ => misconfigured cause
  | none, some cause => misconfigured cause
  | none, none => .ok ()

end Item

/-- Things that are items, in dependency order. -/
def sortItems {α : Type} (kind : String) (item : α → Item) (xs : List α) :
    Except Fault (List α) := do
  return (← Item.resolve kind (xs.map item)).filterMap fun i => xs[i]?

/-- Things that are items, sorted if asked for and otherwise as they stand if that is an order. -/
def orderItems {α : Type} (sort : Bool) (kind : String) (item : α → Item) (xs : List α) :
    Except Fault (List α) :=
  if sort then sortItems kind item xs
  else do
    Item.checkOrder kind (xs.map item)
    return xs

end Catchment
