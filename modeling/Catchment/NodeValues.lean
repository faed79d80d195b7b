import Catchment.Nested

/-!
# Values per node

A parameter or an initial state is given once for all nodes, once per node, or once per class with
an index from nodes to classes. Expansion gives every node its value; collapse reads the classes
back from the first node of each.
-/
namespace Catchment

variable {K : Type} [Scalar K]

/-- The classes of the nodes: one integer per node. -/
def classIndex (index : Nested K) (nodes : Int) : Except Fault (List Int) := do
  let given ← index.toIndex
  if given.shape.length != 1 || (given.items.length : Int) != nodes then
    mismatched (.classIndex nodes given.shape)
  else if given.format != .integers then misconfigured (.indexType given.format.name)
  else given.items.mapM Entry.truncate

/-- The largest of some integers. -/
def largest (classes : List Int) : Int := classes.tail.foldl max (classes.headD 0)

/-- The value of the class of each node. -/
def pickClasses (what name : String) (classes : List Int) (values : List K) :
    Except Fault (List K) :=
  if classes.any fun c => c < 0 || (values.length : Int) ≤ c then
    misconfigured (.classRange what name values.length (largest classes))
  else .ok (classes.filterMap fun c => values[c.toNat]?)

/-- The value of each node. -/
def expandOne (what name : String) (nodes : Int) (index : Option (List Int)) (value : Nested K) :
    Except Fault (List K) := do
  let v ← value.toTensor
  match v.shape with
  | [] => if nodes < 0 then throw .value else return v.toList.flatMap (List.replicate nodes.toNat)
  | [n] =>
    match index with
    | some classes => pickClasses what name classes v.toList
    | none =>
      if (n : Int) != nodes then mismatched (.nodeValues what name n nodes) else return v.toList
  | s => mismatched (.notVector what name s)

/-- The names without a value. -/
def missingNames (values : List (String × Nested K)) (names : List String) : List String :=
  names.filter fun n => (values.lookup n).isNone

/-- Each named value, for every node or as given when there are no nodes. -/
def expandParams (values : List (String × Nested K)) (names : List String) (nodes : Option Int)
    (index : Option (Nested K)) : Except Fault (List (String × Tensor K)) := do
  match missingNames values names with
  | first :: others => misconfigured (.missingParameter first others)
  | [] =>
    let valueOf (n : String) : Nested K := (values.lookup n).getD (.list [])
    match nodes with
    | none => names.mapM fun n => do return (n, ← (valueOf n).toTensor)
    | some nodes =>
      let classes ← index.mapM fun i => classIndex i nodes
      names.mapM fun n => do
        let items ← expandOne "Parameter" n nodes classes (valueOf n)
        return (n, ← (Tensor.ofList? [items.length] items).elim (.error .value) .ok)

/-- A state starts at zero unless it is given a value. -/
def initialValue (values : List (String × Nested K)) (name : String) : Nested K :=
  (values.lookup name).getD (.entry (.real Scalar.zero))

/-- The initial states as rows over the nodes. -/
def expandStates (values : List (String × Nested K)) (names : List String) (nodes : Int)
    (index : Option (Nested K)) : Except Fault (List (List K)) := do
  let classes ← index.mapM fun i => classIndex i nodes
  names.mapM fun n => expandOne "Initial state" n nodes classes (initialValue values n)

/-- The initial states of a run without nodes. -/
def singleStates (values : List (String × Nested K)) (names : List String) :
    Except Fault (List K) :=
  names.mapM fun n => do
    let v ← (initialValue values n).toTensor
    if v.shape.isEmpty then v.toList.head?.elim (.error .value) .ok else throw .operand

/-- Whether an entry of an index is a class. -/
def isClass (k : Nat) : Entry K → Bool
  | .flag b => (if b then 1 else 0) = k
  | .integer n => n = k
  | .real x => Scalar.eq x (Scalar.ofInt k)

/-- The largest entry of an index, as an integer; a missing entry is the largest. -/
def largestEntry (index : IndexArray K) : Except Fault Int := do
  match index.format, index.items with
  | .texts, _ => throw .operand
  | _, [] => throw .value
  | .reals, items =>
    let reals ← items.mapM Entry.toReal
    Entry.truncate (.real (reals.tail.foldl Scalar.maximum (reals.headD Scalar.nan)))
  | _, items => return largest (← items.mapM Entry.truncate)

/-- The first positions of some classes that follow each other, up to the first unused one. -/
def firstsFrom (items : List (Entry K)) : Nat → Nat → Except Fault (List Nat)
  | 0, _ => .ok []
  | count + 1, k =>
    match items.findIdx? (isClass k) with
    | some i => do return i :: (← firstsFrom items count (k + 1))
    | none => misconfigured (.unusedClass k)

/-- The first position of each class below a number of classes. -/
def firstOfClasses (items : List (Entry K)) (classes : Int) : Except Fault (List Nat) :=
  firstsFrom items classes.toNat 0

/-- The items of a tensor at some places of its first axis. -/
def pickRows (t : Tensor K) (places : List Nat) : Except Fault (Tensor K) := do
  match t with
  | ⟨[], _⟩ => throw .position
  | ⟨_ :: s, g⟩ =>
    let rows ← places.mapM fun i => g.rows[i]?.elim (.error .position) .ok
    return ⟨rows.length :: s, Grid.stack rows⟩

/-- The class values that were expanded: each value at the first node of every class. -/
def collapseParams (values : List (String × Nested K)) (index : Nested K) (classes : Option Int) :
    Except Fault (List (String × Tensor K)) := do
  let given ← index.toIndex
  let classes ← match classes with
    | some n => pure n
    | none => (do return (← largestEntry given) + 1)
  let first ← firstOfClasses given.items classes
  values.mapM fun p => do return (p.1, ← pickRows (← p.2.toTensor) first)

end Catchment
