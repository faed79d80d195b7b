import Catchment.Bucket
import Catchment.Route
import Catchment.UnitHydrograph

/-!
# Components

Whatever can be run: a bucket, a route, a unit hydrograph, or a model of other components. A model
is wired once, when it is composed. Its rows start with its inputs and gain the rows of each part in
turn; a part reads its inputs at known places among them, and the result is read from known places
at the end. All parts are checked before the first one is computed.
-/
namespace Catchment

/-- How a model stands toward its parts. -/
structure Wiring (K : Type) where
  signature : Signature
  /-- The names of the rows of the result. -/
  rowNames : List String
  /-- For each part, the places of its inputs among the rows before it. -/
  inputPlaces : List (List Nat)
  /-- The places of the rows of the result among all rows. -/
  outputPlaces : List Nat
  /-- The settings of single parts by name. -/
  settings : List (String × Settings K)

inductive Component (K : Type) [Scalar K] where
  | bucket (b : Bucket K)
  | route (r : Route K)
  | hydrograph (h : UnitHydrograph K)
  | model (w : Wiring K) (parts : List (Component K))

/-- The settings of a part: its own, or else those of the run. -/
def Wiring.settingsFor {K : Type} (w : Wiring K) (name : String) (s : Settings K) : Settings K :=
  (w.settings.lookup name).getD s

/-- The rows at some places. -/
def rowsAt {n t : Nat} {K : Type} (rows : List (Grid [n, t] K)) (places : List Nat) :
    Except Fault (List (Grid [n, t] K)) :=
  places.mapM fun k => Values.orFault .position rows[k]?

namespace Component

variable {K : Type} [Scalar K]

def signature : Component K → Signature
  | bucket b => b.signature
  | route r => r.signature
  | hydrograph h => h.signature
  | model w _ => w.signature

def name (c : Component K) : String := c.signature.name

/-- The names of the rows of the result. -/
def rowNames : Component K → List String
  | model w _ => w.rowNames
  | c => c.signature.states ++ c.signature.outputs

/-- Checks the arguments of a component without parts. -/
def prepareFor (c : Component K) (n t : Nat) (args : RunArguments K) (s : Settings K) :
    Except Fault (RunData n t K) :=
  match c with
  | route r =>
    match r.nodesFault? n with
    | some cause => mismatched cause
    | none => RunData.prepare r.signature n t args s
  | c => RunData.prepare c.signature n t args s

mutual

/-- Whether a run would be accepted. -/
def check (n t : Nat) (args : RunArguments K) : Component K → Settings K → Except Fault Unit
  | model w parts, s => checkAll n t args w parts s
  | c, s => do
    let _ ← c.prepareFor n t args s
    return

def checkAll (n t : Nat) (args : RunArguments K) (w : Wiring K) :
    List (Component K) → Settings K → Except Fault Unit
  | [], _ => .ok ()
  | c :: rest, s => do
    check n t args c (w.settingsFor c.name s)
    checkAll n t args w rest s

end

mutual

/-- The result over nodes and times for the rows of the inputs. -/
def compute {n t : Nat} (args : RunArguments K) :
    Component K → Settings K → List (Grid [n, t] K) → Except Fault (Outcome n t K)
  | bucket b, s, rows => do b.run (← (bucket b).prepareFor n t args s) rows
  | route r, s, rows => do r.run (← (route r).prepareFor n t args s) rows
  | hydrograph h, s, rows => do h.run (← (hydrograph h).prepareFor n t args s) rows
  | model w parts, s, rows =>
    match args.missing? w.signature with
    | some cause => misconfigured cause
    | none => do
      checkAll n t args w parts s
      let (rows, warnings) ← computeAll args w parts w.inputPlaces s rows
      return ⟨← rowsAt rows w.outputPlaces, warnings⟩

/-- The rows after some parts with the places of their inputs, and the warnings of the parts. -/
def computeAll {n t : Nat} (args : RunArguments K) (w : Wiring K) :
    List (Component K) → List (List Nat) → Settings K → List (Grid [n, t] K) →
      Except Fault (List (Grid [n, t] K) × List String)
  | c :: rest, places :: more, s, rows => do
    let result ← compute args c (w.settingsFor c.name s) (← rowsAt rows places)
    let (rows, warnings) ← computeAll args w rest more s (rows ++ result.rows)
    return (rows, result.warnings ++ warnings)
  | _, _, _, rows => .ok (rows, [])

end

end Component

end Catchment
