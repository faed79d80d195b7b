import Catchment.Scalar
import Catchment.DecimalText

/-!
# Doubles as scalars

`Float` with its own comparison and elementary functions. Rounding to half precision and the gaps
between doubles are computed on the integer parts and the bits.
-/
namespace Catchment

/-- The double nearest in half precision: eleven binary digits, steps of at least `2 ^ -24`,
and infinity from 65520 on. -/
def halfOf (x : Float) : Float :=
  if x.isNaN || x.isInf || x == 0 then x
  else
    let p := BinaryParts.ofFloat x
    let e := max (p.exponent + p.significand.log2 - 10) (-24)
    let shift := p.exponent - e
    let n := BinaryParts.roundHalfEven (p.significand * twoTo shift.toNat) (twoTo (-shift).toNat)
    let magnitude : Float :=
      if 65520 ≤ n * twoTo e.toNat / twoTo (-e).toNat then 1.0 / 0.0
      else Float.ofNat (n * twoTo e.toNat) / Float.ofNat (twoTo (-e).toNat)
    if x < 0 then -magnitude else magnitude

/-- The next double upward or downward. -/
def nextDouble (up : Bool) (x : Float) : Float :=
  if x.isNaN then x
  else if x == 0 then Float.ofBits (if up then 1 else 0x8000000000000001)
  else if x.isInf && (decide (0 < x) == up) then x
  else if decide (0 < x) == up then Float.ofBits (x.toBits + 1)
  else Float.ofBits (x.toBits - 1)

/-- The integer part of a double toward zero. -/
def truncateDouble? (x : Float) : Option Int :=
  if x.isNaN || x.isInf then none
  else
    let p := BinaryParts.ofFloat x
    let n : Int := (p.significand * twoTo p.exponent.toNat / twoTo (-p.exponent).toNat : Nat)
    some (if x < 0 then -n else n)

/-- The least integer not below a double. -/
def ceilDouble? (x : Float) : Option Int :=
  (truncateDouble? x).map fun n => if Float.ofInt n < x then n + 1 else n

instance : Scalar Float where
  toAdd := inferInstance
  toSub := inferInstance
  toMul := inferInstance
  toDiv := inferInstance
  toNeg := inferInstance
  ratio n d := Float.ofInt n / Float.ofNat d
  lt x y := decide (x < y)
  le x y := decide (x ≤ y)
  abs := Float.abs
  exp := Float.exp
  log := Float.log
  sqrt := Float.sqrt
  sin := Float.sin
  cos := Float.cos
  tanh := Float.tanh
  pow := Float.pow
  nan := 0.0 / 0.0
  infinity := 1.0 / 0.0
  narrow := halfOf
  gap up x := (nextDouble up x - x).abs
  truncate? := truncateDouble?
  ceiling? := ceilDouble?
  text := doubleText

end Catchment
