import Catchment.Fault
import Catchment.Grid
import Catchment.Operand

/-!
# Nested lists

An array as a caller writes it: a number, lists of lists, or a tensor that is already there. Lists
of unequal shape and entries that are no numbers are found when the array is used.
-/
namespace Catchment

inductive Entry (K : Type) where
  | flag (b : Bool)
  | integer (n : Int)
  | real (x : K)

inductive Nested (K : Type) where
  | entry (e : Entry K)
  | text (s : String)
  | tensor (t : Tensor K)
  | list (items : List (Nested K))

namespace Entry

variable {K : Type} [Scalar K]

def toReal : Entry K → Except Fault K
  | flag b => .ok (Scalar.ofBool b)
  | integer n => Operand.numberOf n
  | real x => .ok x

/-- An integer taken from a number; a missing value has none and an infinite one is too large. -/
def wholeOf (x : K) : Option Int → Except Fault Int
  | some n => .ok n
  | none => .error (if Scalar.isNaN x then .value else .overflow)

/-- The integer part. -/
def truncate : Entry K → Except Fault Int
  | flag b => .ok (if b then 1 else 0)
  | integer n => .ok n
  | real x => wholeOf x (Scalar.truncate? x)

def text : Entry K → String
  | flag b => if b then "True" else "False"
  | integer n => toString n
  | real x => Scalar.text x

end Entry

/-- A class index as it was given: flags, integers or reals. -/
inductive IndexFormat where
  | flags | integers | reals | texts
  deriving DecidableEq, Repr

def IndexFormat.name : IndexFormat → String
  | flags => "bool"
  | integers => "int64"
  | reals => "float64"
  | texts => "<U1"

structure IndexArray (K : Type) where
  shape : Shape
  format : IndexFormat
  items : List (Entry K)

namespace Nested

instance {K : Type} : Inhabited (Nested K) := ⟨.list []⟩

variable {K : Type} [Scalar K]

def ofTensor (t : Tensor K) : Nested K := .tensor t

/-- The common shape; lists of unequal shape have none. -/
def shape : Nested K → Except Fault Shape
  | entry _ | text _ => .ok []
  | tensor t => .ok t.shape
  | list items => do
    let shapes ← shapes items
    match shapes with
    | [] => return [0]
    | s :: rest => if rest.all (· = s) then return (rest.length + 1) :: s else throw .value
where
  shapes : List (Nested K) → Except Fault (List Shape)
    | [] => .ok []
    | x :: xs => do
      let s ← x.shape
      return s :: (← shapes xs)

/-- The entries in row-major order; `none` for a text. -/
def entries : Nested K → List (Option (Entry K))
  | entry e => [some e]
  | text _ => [none]
  | tensor t => t.toList.map fun x => some (.real x)
  | list items => each items
where
  each : List (Nested K) → List (Option (Entry K))
    | [] => []
    | x :: xs => x.entries ++ each xs

/-- The array of reals. -/
def toTensor (a : Nested K) : Except Fault (Tensor K) :=
  match a with
  | .tensor t => .ok t
  | _ => do
    let s ← a.shape
    let items ← a.entries.mapM fun e => e.elim (.error .value) Entry.toReal
    (Tensor.ofList? s items).elim (.error .value) .ok

/-- The array in the format of its entries: reals if it has any or is empty, otherwise integers
unless all are flags. -/
def toIndex (a : Nested K) : Except Fault (IndexArray K) := do
  let s ← a.shape
  let items := a.entries
  let found := items.filterMap id
  let isReal : Entry K → Bool
    | .real _ => true
    | _ => false
  let isFlag : Entry K → Bool
    | .flag _ => true
    | _ => false
  let format : IndexFormat :=
    if found.length < items.length then .texts
    else if found.isEmpty || found.any isReal then .reals
    else if found.all isFlag then .flags
    else .integers
  return ⟨s, format, found⟩

end Nested

end Catchment
