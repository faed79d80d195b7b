import Catchment.Nested

/-!
# Curves of cumulative response

A curve gives the part of a pulse that has left after a time, for a lag. It rises from 0 at time 0
to 1 at the end of the response. The two built-in curves are made of the power 5/2; a custom curve
is a law with the length of its response in lags.
-/
namespace Catchment

/-- A curve given as a function of the time and the lag. Laws of one name are the same. -/
structure CurveLaw (K : Type) where
  name : String
  apply : K → K → Except Fault K

inductive CurveKind where
  | half | full | custom
  deriving DecidableEq, Repr

inductive SCurve (K : Type) where
  /-- Rises up to the lag. -/
  | half (maxLag : Option (Entry K))
  /-- Rises up to twice the lag, symmetric about the lag. -/
  | full (maxLag : Option (Entry K))
  | custom (law : CurveLaw K) (maxLag : Entry K)

namespace SCurve

variable {K : Type} [Scalar K]

/-- A custom curve needs a law and a length, a built-in curve takes no law. -/
def make (kind : CurveKind) (law : Option (CurveLaw K)) (maxLag : Option (Entry K)) :
    Except Fault (SCurve K) :=
  match kind, law, maxLag with
  | .half, none, m => .ok (.half m)
  | .full, none, m => .ok (.full m)
  | .custom, some l, some m => .ok (.custom l m)
  | .custom, some _, none => misconfigured .curveLength
  | _, _, _ => misconfigured .curveAndKind

def standard : SCurve K := .half none

def kind : SCurve K → CurveKind
  | half _ => .half
  | full _ => .full
  | custom .. => .custom

def maxLag : SCurve K → Option (Entry K)
  | half m | full m => m
  | custom _ m => some m

def text (c : SCurve K) : String :=
  let kind := match c.kind with
    | .half => "UH_1_HALF"
    | .full => "UH_2_FULL"
    | .custom => "CUSTOM"
  "UHFunction(" ++ kind ++ ", max_lag=" ++ c.maxLag.elim "None" Entry.text ++ ")"

def quotient (x y : K) : Except Fault K :=
  if Scalar.eq y Scalar.zero then .error (.divisionByZero "") else .ok (x / y)

/-- Whether a number is neither missing nor infinite. -/
def isFinite (x : K) : Bool := (Scalar.truncate? x).isSome

/-- The power 5/2 of a number that is not negative, unless it is too large. -/
def halfPower (x : K) : Except Fault K :=
  let y := Scalar.pow x (Scalar.ratio 5 2)
  if isFinite x && Scalar.lt x Scalar.zero then .error .operand
  else if isFinite x && !isFinite y then .error .overflow
  else .ok y

/-- The cumulative response at a time. -/
def value (c : SCurve K) (t lag : K) : Except Fault K :=
  let one : K := Scalar.one
  let two : K := Scalar.ofInt 2
  match c with
  | half _ => if Scalar.lt lag t then .ok one else do halfPower (← quotient t lag)
  | full _ =>
    if Scalar.lt (two * lag) t then .ok one
    else do
      let x ← quotient t lag
      if Scalar.lt lag t then
        return one - Scalar.ratio 1 2 * (← halfPower (Scalar.abs (two - x)))
      else return Scalar.ratio 1 2 * (← halfPower (Scalar.abs x))
  | custom law _ => law.apply t lag

/-- The number of time steps that the response spans. -/
def steps (c : SCurve K) (lag : K) : Except Fault Int :=
  let ceiling (x : K) : Except Fault Int := Entry.wholeOf x (Scalar.ceiling? x)
  match c with
  | half _ => ceiling lag
  | full _ => do return 2 * (← ceiling lag)
  | custom _ m => do ceiling ((← m.toReal) * lag)

end SCurve

namespace CurveLaw

variable {K : Type} [Scalar K]

def atMostOne (x : K) : K := if Scalar.lt Scalar.one x then Scalar.one else x

def linear : CurveLaw K :=
  ⟨"linear", fun t lag => do return atMostOne (← SCurve.quotient t (Scalar.ofInt 2 * lag))⟩

def square : CurveLaw K := ⟨"square", fun t lag => do
  let x ← SCurve.quotient t lag
  return atMostOne (x * x)⟩

def flat : CurveLaw K := ⟨"flat", fun _ _ => .ok Scalar.zero⟩

def falling : CurveLaw K := ⟨"falling", fun t _ => .ok (Scalar.one - t)⟩

/-- The integer part of the time. -/
def whole : CurveLaw K := ⟨"int", fun t _ => do return Scalar.ofInt (← (Entry.real t).truncate)⟩

def catalog : List (CurveLaw K) := [linear, square, flat, falling, whole]

def named? (name : String) : Option (CurveLaw K) := catalog.find? fun l => l.name = name

end CurveLaw

end Catchment
