import Catchment.Integrator
import Catchment.Scalar

/-!
# Embedded Runge–Kutta pairs

A pair of methods of neighbouring orders that share their stages: the difference of the two results
estimates the error of a step, and a polynomial through the stages gives the state inside it.

An integration by a pair chooses its steps so that the estimated error, in units of the tolerance
`atol + |state| rtol`, stays below 1; the state at the requested times is read from the dense output
of the step that contains them. A step that would have to be smaller than ten gaps between
neighbouring numbers ends the integration.
-/
namespace Catchment

structure RungeKutta (K : Type) where
  /-- The order of the error estimate. -/
  errorOrder : Nat
  /-- The offset of each stage after the first in units of the step, and its weights of the stages
  before. -/
  stages : List (K × List K)
  /-- The weights of the stages in the step. -/
  weights : List K
  /-- The weights of the stages and of the rate at the end of the step in the error. -/
  error : List K
  /-- For each stage, and the rate at the end, its coefficients of the powers of the offset. -/
  dense : List (List K)

namespace RungeKutta

variable {K : Type} [Scalar K]

def ratios (qs : List (Int × Nat)) : List K := qs.map fun q => Scalar.ratio q.1 q.2

/-- The Bogacki–Shampine pair of orders 3 and 2. -/
def bogackiShampine : RungeKutta K where
  errorOrder := 2
  stages := [
    (Scalar.ratio 1 2, ratios [(1, 2)]),
    (Scalar.ratio 3 4, ratios [(0, 1), (3, 4)])]
  weights := ratios [(2, 9), (1, 3), (4, 9)]
  error := ratios [(5, 72), (-1, 12), (-1, 9), (1, 8)]
  dense := [
    ratios [(1, 1), (-4, 3), (5, 9)],
    ratios [(0, 1), (1, 1), (-2, 3)],
    ratios [(0, 1), (4, 3), (-8, 9)],
    ratios [(0, 1), (-1, 1), (1, 1)]]

/-- The Dormand–Prince pair of orders 5 and 4. -/
def dormandPrince : RungeKutta K where
  errorOrder := 4
  stages := [
    (Scalar.ratio 1 5, ratios [(1, 5)]),
    (Scalar.ratio 3 10, ratios [(3, 40), (9, 40)]),
    (Scalar.ratio 4 5, ratios [(44, 45), (-56, 15), (32, 9)]),
    (Scalar.ratio 8 9, ratios [(19372, 6561), (-25360, 2187), (64448, 6561), (-212, 729)]),
    (Scalar.one,
      ratios [(9017, 3168), (-355, 33), (46732, 5247), (49, 176), (-5103, 18656)])]
  weights := ratios [(35, 384), (0, 1), (500, 1113), (125, 192), (-2187, 6784), (11, 84)]
  error := ratios [(-71, 57600), (0, 1), (71, 16695), (-71, 1920), (17253, 339200), (-22, 525),
    (1, 40)]
  dense := [
    ratios [(1, 1), (-8048581381, 2820520608), (8663915743, 2820520608),
      (-12715105075, 11282082432)],
    ratios [(0, 1), (0, 1), (0, 1), (0, 1)],
    ratios [(0, 1), (131558114200, 32700410799), (-68118460800, 10900136933),
      (87487479700, 32700410799)],
    ratios [(0, 1), (-1754552775, 470086768), (14199869525, 1410260304),
      (-10690763975, 1880347072)],
    ratios [(0, 1), (127303824393, 49829197408), (-318862633887, 49829197408),
      (701980252875, 199316789632)],
    ratios [(0, 1), (-282668133, 205662961), (2019193451, 616988883), (-1453857185, 822651844)],
    ratios [(0, 1), (40617522, 29380423), (-110615467, 29380423), (69997945, 29380423)]]

end RungeKutta

variable {K : Type} [Scalar K] {m : Nat}

namespace Scalar

/-- The earlier of two numbers unless the later is smaller. -/
def least (x y : K) : K := if lt y x then y else x

/-- The earlier of two numbers unless the later is larger. -/
def most (x y : K) : K := if lt x y then y else x

/-- Rounding of a double: the gap above 1. -/
def epsilon : K := ratio 1 4503599627370496

end Scalar

/-- What an integration keeps fixed. -/
structure Integration (K : Type) where
  pair : RungeKutta K
  /-- Whether time runs forward. -/
  forward : Bool
  stop : K
  rtol : K
  atol : K
  maxStep : K

/-- Where an integration stands. -/
structure Standing (m : Nat) (K : Type) where
  time : K
  state : Grid [m] K
  rate : Grid [m] K
  /-- The size of the next step. -/
  size : K

/-- A step that was taken: the stages with the rate at its end, and where it leads. -/
structure Step (m : Nat) (K : Type) where
  stages : List (Grid [m] K)
  next : Standing m K

namespace Integration

/-- The root mean square of the items. -/
def norm (g : Grid [m] K) : K :=
  Scalar.sqrt (Scalar.sum (g.toList.map fun x => x * x)) / Scalar.sqrt (Scalar.ofInt m)

/-- The sum of grids with weights. -/
def blend (gs : List (Grid [m] K)) (weights : List K) : Grid [m] K :=
  (gs.zip weights).foldl (fun total p => total.zipWith (fun x y => x + y * p.2) p.1)
    (Grid.replicate Scalar.zero)

def addScaled (g : Grid [m] K) (h : K) (d : Grid [m] K) : Grid [m] K :=
  g.zipWith (fun x y => x + h * y) d

def direction (p : Integration K) : K := if p.forward then Scalar.one else -Scalar.one

def errorExponent (p : Integration K) : K := Scalar.ratio 1 (p.pair.errorOrder + 1)

/-- The size of the first step, from the state, its rate and the rate after a small trial step. -/
def firstSize (p : Integration K) (t : K) (y f : Grid [m] K) : Inquiry m K K := do
  if m = 0 then return Scalar.infinity
  let length := Scalar.abs (p.stop - t)
  if Scalar.eq length Scalar.zero then return Scalar.zero
  let scaled (g : Grid [m] K) : Grid [m] K :=
    g.zipWith (fun x y => x / (p.atol + Scalar.abs y * p.rtol)) y
  let small : K := Scalar.ratio 1 100000
  let d0 := norm (scaled y)
  let d1 := norm (scaled f)
  let trial : K :=
    if Scalar.lt d0 small || Scalar.lt d1 small then Scalar.ratio 1 1000000
    else Scalar.ratio 1 100 * d0 / d1
  let h0 := Scalar.least trial length
  let g ← Inquiry.rate (t + h0 * p.direction) (addScaled y (h0 * p.direction) f)
  let d2 := norm (scaled (g.zipWith (· - ·) f)) / h0
  let tiny : K := Scalar.ratio 1 1000000000000000
  let h1 : K :=
    if Scalar.le d1 tiny && Scalar.le d2 tiny then
      Scalar.most (Scalar.ratio 1 1000000) (h0 * Scalar.ratio 1 1000)
    else Scalar.pow (Scalar.ratio 1 100 / Scalar.most d1 d2) p.errorExponent
  return Scalar.least (Scalar.least (Scalar.least (Scalar.ofInt 100 * h0) h1) length) p.maxStep

/-- The stages of a step of signed size `h`. -/
def stagesOf (p : Integration K) (at_ : Standing m K) (h : K) :
    Inquiry m K (List (Grid [m] K)) :=
  p.pair.stages.foldlM (fun ks stage => do
    let change := (blend ks stage.2).map (· * h)
    let k ← Inquiry.rate (at_.time + stage.1 * h) (at_.state.zipWith (· + ·) change)
    return ks ++ [k]) [at_.rate]

/-- Tries steps of decreasing size until one is accurate enough; `none` when it would be too small
or after `fuel` tries. -/
def tryStep (p : Integration K) (at_ : Standing m K) (minStep : K) :
    Nat → K → Bool → Inquiry m K (Option (Step m K))
  | 0, _, _ => return none
  | fuel + 1, size, rejected => do
    if Scalar.lt size minStep then return none
    let reached := at_.time + size * p.direction
    let reached :=
      if Scalar.lt Scalar.zero (p.direction * (reached - p.stop)) then p.stop else reached
    let h := reached - at_.time
    let size := Scalar.abs h
    let ks ← p.stagesOf at_ h
    let y := addScaled at_.state h (blend ks p.pair.weights)
    let f ← Inquiry.rate (at_.time + h) y
    let all := ks ++ [f]
    let tolerance := at_.state.zipWith (fun a b =>
      p.atol + Scalar.maximum (Scalar.abs a) (Scalar.abs b) * p.rtol) y
    let estimate := norm (((blend all p.pair.error).map (· * h)).zipWith (· / ·) tolerance)
    let scaling := Scalar.ratio 9 10 * Scalar.pow estimate (-p.errorExponent)
    if Scalar.lt estimate Scalar.one then
      let factor : K :=
        if Scalar.eq estimate Scalar.zero then Scalar.ofInt 10
        else Scalar.least (Scalar.ofInt 10) scaling
      let factor := if rejected then Scalar.least Scalar.one factor else factor
      return some ⟨all, ⟨reached, y, f, size * factor⟩⟩
    else p.tryStep at_ minStep fuel (size * Scalar.most (Scalar.ratio 1 5) scaling) true

/-- One step of the integration. -/
def step (p : Integration K) (at_ : Standing m K) : Inquiry m K (Option (Step m K)) :=
  let minStep := Scalar.ofInt 10 * Scalar.gap p.forward at_.time
  let size :=
    if Scalar.lt p.maxStep at_.size then p.maxStep
    else if Scalar.lt at_.size minStep then minStep
    else at_.size
  p.tryStep at_ minStep 20000 size false

/-- The state at a time inside a step. -/
def inside (p : Integration K) (at_ : Standing m K) (taken : Step m K) (t : K) : Grid [m] K :=
  let h := taken.next.time - at_.time
  let x := (t - at_.time) / h
  let orders := p.pair.dense.headD [] |>.length
  let powers := (List.range orders).map fun n => (List.range n).foldl (fun q _ => q * x) x
  let coefficients (n : Nat) : Grid [m] K :=
    blend taken.stages (p.pair.dense.map fun row => row.getD n Scalar.zero)
  let change := blend ((List.range orders).map coefficients) powers
  change.zipWith (fun d y => h * d + y) at_.state

/-- Whether a time is reached by the end of a step. -/
def reachedBy (p : Integration K) (reached t : K) : Bool :=
  if p.forward then !Scalar.before reached t else !Scalar.before t reached

/-- Extends states, latest first, by those at the requested times, over at most `fuel` steps; `none`
if a step fails. -/
def collect (p : Integration K) : Nat → Standing m K → List K → List (Grid [m] K) →
    Inquiry m K (Option (List (Grid [m] K)))
  | 0, _, _, _ => return none
  | fuel + 1, at_, times, found =>
    if m = 0 || Scalar.eq at_.time p.stop then
      return some (((times.filter (p.reachedBy p.stop)).map fun _ => at_.state) ++ found)
    else do
      match ← p.step at_ with
      | none => return none
      | some taken =>
        let reached := taken.next.time
        let now := (times.takeWhile (p.reachedBy reached)).map (p.inside at_ taken)
        let later := times.dropWhile (p.reachedBy reached)
        let found := now.reverse ++ found
        if Scalar.le Scalar.zero (p.direction * (reached - p.stop)) then return some found
        else p.collect fuel taken.next later found

end Integration

/-- Whether the times lie between the first and the last and never turn back. -/
def timesInOrder (first last : K) (times : List K) : Bool :=
  let low := Scalar.least first last
  let high := Scalar.most first last
  let turns (wrong : K → Bool) : Bool :=
    (times.zip (times.drop 1)).any fun p => wrong (p.2 - p.1)
  !(times.any fun t => Scalar.lt t low || Scalar.lt high t) &&
    !(Scalar.lt first last && turns fun d => Scalar.le d Scalar.zero) &&
    !(Scalar.lt last first && turns fun d => Scalar.le Scalar.zero d)

namespace RungeKutta

def named? (name : String) : Option (RungeKutta K) :=
  if name = "RK45" then some dormandPrince
  else if name = "RK23" then some bogackiShampine
  else none

def tooSmallStep : String := "Required step size is less than spacing between numbers."

def endReached : String := "The solver successfully reached the end of the integration interval."

/-- The integration of a request by a pair. -/
def integrate (pair : RungeKutta K) (q : Request m K) : Inquiry m K (Solution m K) :=
  if !timesInOrder q.first q.last q.times ||
      (q.initial.toList.any fun x => !Scalar.lt (Scalar.abs x) Scalar.infinity) ||
      Scalar.le q.maxStep Scalar.zero || Scalar.lt q.atol Scalar.zero then .refused
  else do
    let p : Integration K := {
      pair, forward := !Scalar.lt (q.last - q.first) Scalar.zero, stop := q.last
      rtol := Scalar.most q.rtol (Scalar.ofInt 100 * Scalar.epsilon)
      atol := q.atol
      maxStep := q.maxStep }
    let f ← Inquiry.rate q.first q.initial
    let size ← p.firstSize q.first q.initial f
    match ← p.collect 10000000 ⟨q.first, q.initial, f, size⟩ q.times [] with
    | none => return ⟨-1, tooSmallStep, []⟩
    | some found => return ⟨0, endReached, found.reverse⟩

/-- The integrator that knows the two pairs. -/
def integrator : Integrator K where
  solve name _ q :=
    match named? name with
    | some pair => pair.integrate q
    | none => .refused

end RungeKutta

end Catchment
