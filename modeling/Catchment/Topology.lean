import Catchment.Fault
import Catchment.Fingerprint
import Catchment.Grid
import Catchment.Scalar
import Catchment.StrongComponents

/-!
# Drainage networks

Named nodes, and edges from a node to a node that it drains into. A topology is a draft without
fault: the nodes differ, every edge joins two of them, and no path returns to its start. Each edge
is linked once, however often it is given, and is one entry of a sparse matrix whose rows hold the
places that drain into a place, in node order. The inflow of a node is the sum of their outflows.
-/
namespace Catchment

/-- What identifies a node. A flag is the same identifier as the integer 0 or 1. -/
inductive NodeId where
  | text (s : String)
  | integer (n : Int)
  | flag (b : Bool)
  | none
  deriving DecidableEq, Repr

namespace NodeId

/-- The identifier with flags as integers. -/
def key : NodeId → NodeId
  | flag b => integer (if b then 1 else 0)
  | n => n

def same (a b : NodeId) : Bool := a.key = b.key

def literal : NodeId → Literal
  | text s => .text s
  | integer n => .integer n
  | flag b => .flag b
  | none => .none

def quoted (n : NodeId) : String := n.literal.render

/-- The text without quotes. -/
def plain : NodeId → String
  | text s => s
  | n => n.quoted

end NodeId

structure TopologyDraft where
  nodes : List NodeId
  /-- Pairs of a node and a node that it drains into. -/
  edges : List (NodeId × NodeId)

/-- The places that a place drains into, in the order of the links. -/
def downstreamOf (links : List (Nat × Nat)) (j : Nat) : List Nat :=
  links.filterMap fun l => if l.1 = j then some l.2 else none

/-- The places that drain into a place, in the order of the links. -/
def tributariesOf (links : List (Nat × Nat)) (i : Nat) : List Nat :=
  links.filterMap fun l => if l.2 = i then some l.1 else none

/-- A link after others, unless it is one of them. -/
def addLink (links : List (Nat × Nat)) (j i : Nat) : List (Nat × Nat) :=
  if (downstreamOf links j).contains i then links else links ++ [(j, i)]

/-- A place among ascending places. -/
def insertPlace (j : Nat) : List Nat → List Nat
  | [] => [j]
  | k :: ks => if j ≤ k then j :: k :: ks else k :: insertPlace j ks

/-- The columns of the entries in a row of the matrix, in ascending order. -/
def matrixRow (links : List (Nat × Nat)) (i : Nat) : List Nat :=
  (tributariesOf links i).foldr insertPlace []

namespace TopologyDraft

def place? (d : TopologyDraft) (n : NodeId) : Option Nat := d.nodes.findIdx? n.same

def nodeTwice? (d : TopologyDraft) : Option Misconfiguration :=
  (d.nodes.zipIdx.find? fun p => (d.nodes.take p.2).any p.1.same).map fun p =>
    .nodeTwice p.1.plain

def edgeFault? (d : TopologyDraft) (e : NodeId × NodeId) : Option Misconfiguration :=
  match d.place? e.1, d.place? e.2 with
  | none, _ => some (.unknownNode e.1.quoted e.2.quoted e.1.plain)
  | some _, none => some (.unknownNode e.1.quoted e.2.quoted e.2.plain)
  | some j, some i => if j = i then some (.drainsIntoItself e.1.plain) else none

def addEdge (d : TopologyDraft) (links : List (Nat × Nat)) (e : NodeId × NodeId) :
    List (Nat × Nat) :=
  match d.place? e.1, d.place? e.2 with
  | some j, some i => addLink links j i
  | _, _ => links

/-- The edges as pairs of places, each where it is first given. -/
def links (d : TopologyDraft) : List (Nat × Nat) := d.edges.foldl d.addEdge []

/-- The first group of several places that drain into each other. -/
def cycle? (d : TopologyDraft) : Option (List Nat) :=
  let size := d.nodes.length
  let links := d.links
  (strongComponents size (List.range size) (downstreamOf links)).find? fun c => 1 < c.length

def networkCycle? (d : TopologyDraft) : Option Misconfiguration :=
  d.cycle?.map fun c =>
    let places := c.mergeSort fun i j => decide (i ≤ j)
    .networkCycle (places.filterMap fun i => d.nodes[i]?.map NodeId.quoted)

def fault? (d : TopologyDraft) : Option Misconfiguration :=
  match d.nodeTwice?, d.edges.findSome? d.edgeFault? with
  | some cause, _ => some cause
  | none, some cause => some cause
  | none, none => d.networkCycle?

end TopologyDraft

structure Topology extends TopologyDraft where
  accepted : toTopologyDraft.fault? = none
  /-- The edges by place. -/
  links : List (Nat × Nat)
  links_eq : links = toTopologyDraft.links

/-- The sum of the rows at some places, for every place; a place without any has zeros. -/
def gatherRows {K : Type} [Scalar K] {n : Nat} {s : Shape} (feeders : Fin n → List (Fin n))
    (q : Grid (n :: s) K) : Grid (n :: s) K :=
  Grid.ofRows fun i =>
    (feeders i).foldl (fun total j => total.zipWith (· + ·) (q.row j)) (Grid.replicate Scalar.zero)

namespace Topology

def ofDraft (d : TopologyDraft) : Except Fault Topology :=
  match h : d.fault? with
  | none => .ok { d with accepted := h, links := d.links, links_eq := rfl }
  | some cause => misconfigured cause

def ofEdges (nodes : List NodeId) (edges : List (NodeId × NodeId)) : Except Fault Topology :=
  ofDraft { nodes, edges }

/-- A node that is present keeps its place and takes the later tributaries. -/
def assignTributaries (table : List (NodeId × List NodeId)) (node : NodeId) (given : List NodeId) :
    List (NodeId × List NodeId) :=
  if table.any fun p => p.1.same node then
    table.map fun p => if p.1.same node then (p.1, given) else p
  else table ++ [(node, given)]

/-- The network of nodes that are given with their tributaries. -/
def ofTributaries (pairs : List (NodeId × List NodeId)) : Except Fault Topology :=
  let table := pairs.foldl (fun t p => assignTributaries t p.1 p.2) []
  ofEdges (table.map Prod.fst) (table.flatMap fun p => p.2.map fun n => (n, p.1))

def size (t : Topology) : Nat := t.nodes.length

def node (t : Topology) (i : Fin t.size) : NodeId := t.nodes.get i

/-- The places of the tributaries, in node order. -/
def tributaryPlaces (t : Topology) (i : Fin t.size) : List (Fin t.size) :=
  (matrixRow t.links i).filterMap fun j => if h : j < t.size then some ⟨j, h⟩ else none

/-- The tributaries of a node, in node order. -/
def tributaries (t : Topology) (n : NodeId) : Except Fault (List NodeId) :=
  match (List.finRange t.size).find? fun i => n.same (t.node i) with
  | some i => .ok ((t.tributaryPlaces i).map t.node)
  | none => .error .unknownName

/-- The nodes that drain out of the network. -/
def outlets (t : Topology) : List NodeId :=
  let ends (j : Fin t.size) : Bool := (downstreamOf t.links j).isEmpty
  ((List.finRange t.size).filter ends).map t.node

variable {K : Type} [Scalar K]

/-- One where the second place drains into the first, zero elsewhere. -/
def matrix (t : Topology) : Grid [t.size, t.size] K :=
  Grid.ofRows fun i =>
    let above := t.tributaryPlaces i
    Grid.ofFn fun (j, _) => Scalar.ofBool (above.contains j)

/-- The tributaries of every place, ready for repeated use. -/
def feeders (t : Topology) : Vector (List (Fin t.size)) t.size := Vector.ofFn t.tributaryPlaces

/-- The inflow of every node; the first axis holds the outflows of the nodes. -/
def aggregate (t : Topology) {s : Shape} (q : Grid (t.size :: s) K) : Grid (t.size :: s) K :=
  let feeders := t.feeders
  gatherRows (fun i => feeders[i]) q

/-- The inflow for an array whose first axis should hold the nodes; it has one more axis at most. -/
def aggregateTensor (t : Topology) (q : Tensor K) : Except Fault (Tensor K) :=
  match q with
  | ⟨[], _⟩ => mismatched (.outflowNodes [] t.size)
  | ⟨n :: s, g⟩ =>
    if h : n = t.size then
      if s.length ≤ 1 then .ok (.ofGrid (t.aggregate (s := s) (h ▸ g))) else .error .value
    else mismatched (.outflowNodes [n] t.size)

end Topology

end Catchment
