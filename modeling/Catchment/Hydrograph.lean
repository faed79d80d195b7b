import Catchment.Grid
import Catchment.SCurve

/-!
# Unit hydrographs

The weights with which a pulse leaves over the time steps from its arrival on: the increments of a
curve of cumulative response, divided by their total. A lag that is not positive, or increments
without a positive total, pass the pulse on unchanged.
-/
namespace Catchment

variable {K : Type} [Scalar K]

/-- The increments from each number to the next. -/
def increments : List K → List K
  | a :: b :: rest => (b - a) :: increments (b :: rest)
  | _ => []

/-- Adds whole groups of eight to eight totals; also gives the numbers that are left. -/
def addEights (totals xs : List K) : List K × List K :=
  if xs.length < 8 then (totals, xs)
  else addEights (totals.zipWith (· + ·) (xs.take 8)) (xs.drop 8)
termination_by xs.length
decreasing_by simp; omega

/-- The sum of the numbers, as the sum of two halves while there are more than 128 of them and by
eight interleaved totals below that. -/
def pairwiseSum (xs : List K) : K :=
  if xs.length < 8 then Scalar.sum xs
  else if _small : xs.length ≤ 128 then
    match addEights (xs.take 8) (xs.drop 8) with
    | ([a, b, c, d, e, f, g, h], rest) =>
      rest.foldl (· + ·) (((a + b) + (c + d)) + ((e + f) + (g + h)))
    | (totals, rest) => Scalar.sum (totals ++ rest)
  else
    let middle := xs.length / 2 - xs.length / 2 % 8
    pairwiseSum (xs.take middle) + pairwiseSum (xs.drop middle)
termination_by xs.length
decreasing_by
  · simp; omega
  · simp; omega

namespace SCurve

/-- The share of a pulse that leaves in each time step. -/
def weights (c : SCurve K) (lag : K) : Except Fault (List K) :=
  if !Scalar.lt Scalar.zero lag then .ok [Scalar.one]
  else do
    let n := (max (← c.steps lag) 1).toNat
    let values ← (List.range (n + 1)).mapM fun (t : Nat) => c.value (Scalar.ofInt t) lag
    let shares := increments values
    let total := pairwiseSum shares
    return if Scalar.lt Scalar.zero total then shares.map (· / total) else [Scalar.one]

end SCurve

/-- Weight lists as rows of a grid, filled up with zeros. -/
structure WeightGrid (n : Nat) (K : Type) where
  width : Nat
  weights : Grid [n, width] K

namespace WeightGrid

def longest (rows : List (List K)) : Nat := (rows.map List.length).foldl max 0

def ofRows (rows : List (List K)) : WeightGrid rows.length K where
  width := longest rows
  weights := Grid.ofFn fun (i, j, _) => rows[i].getD j Scalar.zero

end WeightGrid

/-- The weights of every lag. -/
def weightsOf (c : SCurve K) (lags : Nested K) : Except Fault (Tensor K) := do
  let lags ← lags.toTensor
  match lags.shape with
  | [] | [_] =>
    let rows ← lags.toList.mapM c.weights
    if rows.isEmpty then throw .value
    return .ofGrid (WeightGrid.ofRows rows).weights
  | n :: _ => throw (if n = 0 then .value else .operand)

end Catchment
