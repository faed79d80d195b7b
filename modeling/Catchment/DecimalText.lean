/-!
# Decimal text of doubles

A finite double is an integer times a power of two, so every question about its decimals is one
about integers. The text of a double has the fewest digits that read back, laid out positionally
for exponents from -4 to 15. A reported double is rounded to a number of digits or of places first.
-/
namespace Catchment

/-- The magnitude of a finite double, `significand * 2 ^ exponent`. -/
structure BinaryParts where
  significand : Nat
  exponent : Int
  /-- The next double below is half as far away as the next one above. -/
  atPowerOfTwo : Bool
  deriving DecidableEq, Repr

/-- A decimal, `digits * 10 ^ exponent`. -/
structure Decimal where
  digits : Nat
  exponent : Int
  deriving DecidableEq, Repr

def twoTo (k : Nat) : Nat := Nat.pow 2 k

def fiveTo (k : Nat) : Nat := Nat.pow 5 k

def tenTo (k : Nat) : Nat := Nat.pow 10 k

namespace BinaryParts

def ofFloat (x : Float) : BinaryParts :=
  let bits := x.toBits.toNat
  let e : Nat := bits / twoTo 52 % twoTo 11
  let f : Nat := bits % twoTo 52
  if e = 0 then ⟨f, -1074, false⟩
  else ⟨twoTo 52 + f, (e : Int) - 1075, decide (f = 0) && decide (1 < e)⟩

/-- `num * 2 ^ i` over `unit`, when one unit is `2 ^ j * 10 ^ e`: numerator and denominator. -/
def scaled (num : Nat) (i e : Int) : Nat × Nat :=
  (num * twoTo i.toNat * tenTo (-e).toNat, twoTo (-i).toNat * tenTo e.toNat)

/-- An exponent of ten that no decimal of this size needs. -/
def decimalBound (p : BinaryParts) : Int :=
  ((p.significand.log2 : Int) + 1 + p.exponent) * 30103 / 100000 + 2

/-- The multiple of `10 ^ e` that reads back, the nearer one if two do and the even one on a tie. -/
def onGrid? (p : BinaryParts) (e : Int) : Option Nat :=
  let (value, unit) := scaled (4 * p.significand) (p.exponent - 2) e
  let (step, _) := scaled 1 (p.exponent - 2) e
  let low := value - (if p.atPowerOfTwo then step else 2 * step)
  let high := value + 2 * step
  let reads (c : Nat) : Bool :=
    if p.significand % 2 = 0 then low ≤ c * unit && c * unit ≤ high
    else low < c * unit && c * unit < high
  let below := value / unit
  match reads below, reads (below + 1) with
  | false, false => none
  | true, false => some below
  | false, true => some (below + 1)
  | true, true =>
    match compare (2 * value) ((2 * below + 1) * unit) with
    | .lt => some below
    | .gt => some (below + 1)
    | .eq => some (if below % 2 = 0 then below else below + 1)

/-- The decimal with the fewest digits that reads back, found on the coarsest grid that has one. -/
def shortest (p : BinaryParts) : Decimal :=
  let found := (List.range 40).findSome? fun (k : Nat) =>
    let e := p.decimalBound - (k : Int)
    (p.onGrid? e).map fun c => ⟨c, e⟩
  found.getD
    ⟨p.significand * twoTo p.exponent.toNat * fiveTo (-p.exponent).toNat, min p.exponent 0⟩

/-- A quotient rounded to the nearest integer, a half to the even one. -/
def roundHalfEven (num den : Nat) : Nat :=
  let q := num / den
  match compare (2 * (num % den)) den with
  | .lt => q
  | .gt => q + 1
  | .eq => if q % 2 = 0 then q else q + 1

/-- The multiple of `10 ^ e` nearest to the value. -/
def atExponent (p : BinaryParts) (e : Int) : Decimal :=
  let (num, den) := scaled p.significand p.exponent e
  ⟨roundHalfEven num den, e⟩

/-- The least `k` with the value below `10 ^ k`. -/
def decimalSize (p : BinaryParts) : Int :=
  let start := p.decimalBound - 4
  let k := (List.range 8).find? fun (k : Nat) =>
    let (num, den) := scaled p.significand p.exponent (start + (k : Int))
    num < den
  start + ((k.getD 8 : Nat) : Int)

end BinaryParts

namespace Decimal

def toFloat (d : Decimal) : Float := Float.ofScientific d.digits (d.exponent < 0) d.exponent.natAbs

def padded (width : Nat) (s : String) : String :=
  String.ofList (List.replicate (width - s.length) '0') ++ s

/-- Positional for exponents from -4 to 15, otherwise with a signed exponent of two digits. -/
def layout (d : Decimal) : String :=
  let ds := (Nat.toDigits 10 d.digits)
  let size : Int := ds.length + d.exponent
  if size < -3 || 16 < size then
    let fraction := ds.drop 1
    let mark := if fraction.isEmpty then "" else "."
    let e := size - 1
    String.ofList (ds.take 1) ++ mark ++ String.ofList fraction ++ "e" ++
      (if e < 0 then "-" else "+") ++ padded 2 (toString e.natAbs)
  else if size ≤ 0 then
    "0." ++ String.ofList (List.replicate size.natAbs '0' ++ ds)
  else if d.exponent ≥ 0 then
    String.ofList (ds ++ List.replicate d.exponent.toNat '0') ++ ".0"
  else
    String.ofList (ds.take size.toNat) ++ "." ++ String.ofList (ds.drop size.toNat)

end Decimal

/-- The text of a double, with the fewest digits that read back. -/
def doubleText (x : Float) : String :=
  let sign := if x.toBits.toNat / twoTo 63 = 1 then "-" else ""
  if x.isNaN then "nan"
  else if x.isInf then sign ++ "inf"
  else if x == 0 then sign ++ "0.0"
  else sign ++ (BinaryParts.ofFloat x).shortest.layout

/-- How the doubles of a report are rounded. -/
inductive Rounding where
  | exact
  | digits (n : Int)
  | places (n : Int)
  deriving DecidableEq, Repr

/-- The rounded double, read back from its decimal; a zero loses its sign. -/
def Rounding.apply (r : Rounding) (x : Float) : Float :=
  let rounded (d : Decimal) : Float := (if x < 0 then -d.toFloat else d.toFloat) + 0
  if x.isNaN || x.isInf then x
  else
    let p := BinaryParts.ofFloat x
    match r with
    | .exact => x
    | .digits n => if x == 0 then 0 else rounded (p.atExponent (p.decimalSize - n))
    | .places n => rounded (p.atExponent (-n))

end Catchment
