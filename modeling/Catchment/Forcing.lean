import Catchment.Settings

/-!
# Forcing

Columns of one shape, sampled at times that do not decrease, and their value at any time. Places on
the time axis are found by bisection, in which a missing value counts as larger than all others.
-/
namespace Catchment

namespace Scalar

variable {K : Type} [Scalar K]

/-- The number limited to the unit interval. -/
def clampUnit (x : K) : K := minimum (maximum x zero) one

end Scalar

/-- The end of the part of a range in which a condition holds, if it holds in an initial part. -/
def bisect (holds : Nat → Bool) (lo hi : Nat) : Nat :=
  if h : lo < hi then
    let mid := lo + (hi - lo) / 2
    if holds mid then bisect holds (mid + 1) hi else bisect holds lo mid
  else lo
termination_by hi - lo

variable {K : Type} [Scalar K]

def unorderedTimes : List K → Bool
  | a :: b :: rest => Scalar.le (b - a) Scalar.zero || unorderedTimes (b :: rest)
  | _ => false

/-- Columns of a shape at times of which none is followed by one that is not larger. -/
structure Forcing (s : Shape) (K : Type) [Scalar K] where
  times : Array K
  columns : Array (Grid s K)
  paired : columns.size = times.size
  nonempty : 0 < times.size
  ordered : unorderedTimes times.toList = false

namespace Forcing

variable {s : Shape}

def make (times : List K) (columns : List (Grid s K)) : Except Fault (Forcing s K) :=
  if paired : columns.length = times.length then
    if nonempty : 0 < times.length then
      if ordered : unorderedTimes times = false then
        .ok { times := times.toArray, columns := columns.toArray, paired, nonempty, ordered }
      else mismatched .unorderedTimes
    else mismatched .emptyTimeAxis
  else mismatched (.timeAxis columns.length times.length)

def last (f : Forcing s K) : Nat := f.times.size - 1

theorem min_last_lt (f : Forcing s K) (i : Nat) : min i f.last < f.times.size := by
  have := f.nonempty
  simp only [last]
  omega

/-- The column at a place, or the last one beyond the end. -/
def column (f : Forcing s K) (i : Nat) : Grid s K :=
  have h : min i f.last < f.columns.size := f.paired ▸ f.min_last_lt i
  f.columns[min i f.last]

def time (f : Forcing s K) (i : Nat) : K :=
  have h : min i f.last < f.times.size := f.min_last_lt i
  f.times[min i f.last]

/-- The first place whose time is not before `t`. -/
def placeBefore (f : Forcing s K) (t : K) : Nat :=
  bisect (fun i => Scalar.before (f.time i) t) 0 f.times.size

/-- The first place whose time is after `t`. -/
def placeAfter (f : Forcing s K) (t : K) : Nat :=
  bisect (fun i => !Scalar.before t (f.time i)) 0 f.times.size

def direct (f : Forcing s K) (t : K) : Grid s K := f.column (f.placeBefore t)

def linear (f : Forcing s K) (t : K) : Grid s K :=
  if f.last = 0 then f.column 0
  else
    let i := min (f.placeAfter t - 1) (f.last - 1)
    let w := Scalar.clampUnit ((t - f.time i) / (f.time (i + 1) - f.time i))
    if Scalar.eq w Scalar.zero then f.column i
    else if Scalar.eq w Scalar.one then f.column (i + 1)
    else (f.column i).zipWith (fun x y => x * (Scalar.one - w) + y * w) (f.column (i + 1))

/-- The value at a time. -/
def value (f : Forcing s K) (scheme : Interpolation) (t : K) : Grid s K :=
  match scheme with
  | .direct => f.direct t
  | .linear => f.linear t

end Forcing

/-- The forcing of an array whose last axis is time. -/
def forcingOf (values times : Nested K) : Except Fault ((s : Shape) × Forcing s K) := do
  let values ← values.toTensor
  let times ← times.toTensor
  match values.columns? with
  | none => throw .position
  | some ⟨s, columns⟩ =>
    if times.shape.length != 1 then mismatched (.timeAxis columns.length times.size)
    else return ⟨s, ← Forcing.make times.toList columns⟩

end Catchment
