/-!
# Scalars

The operations a simulation needs of its numbers. `Float` is the instance that runs; exact number
fields are the instances that volume balances are about. Comparison is by `lt` and `le`, so that a
number that is not comparable to itself (a missing value) is part of the interface.
-/
namespace Catchment

class Scalar (K : Type) extends Add K, Sub K, Mul K, Div K, Neg K where
  /-- The quotient of two integers. -/
  ratio : Int → Nat → K
  lt : K → K → Bool
  le : K → K → Bool
  abs : K → K
  exp : K → K
  log : K → K
  sqrt : K → K
  sin : K → K
  cos : K → K
  tanh : K → K
  pow : K → K → K
  /-- The missing value. -/
  nan : K
  infinity : K
  /-- The nearest number that half precision holds. -/
  narrow : K → K
  /-- The distance to the next number upward (`true`) or downward (`false`). -/
  gap : Bool → K → K
  /-- The integer part toward zero; `none` for a number that has none. -/
  truncate? : K → Option Int
  /-- The least integer not below; `none` for a number that has none. -/
  ceiling? : K → Option Int
  text : K → String

namespace Scalar

variable {K : Type} [Scalar K]

def ofInt (n : Int) : K := ratio n 1

def zero : K := ofInt 0

def one : K := ofInt 1

instance : Inhabited K := ⟨zero⟩

def eq (x y : K) : Bool := le x y && le y x

def isNaN (x : K) : Bool := !le x x

/-- The order in which a missing value is the largest. -/
def before (x y : K) : Bool := lt x y || (isNaN y && !isNaN x)

/-- Every number but zero counts as true, a missing value too. -/
def truth (x : K) : Bool := !eq x zero

def ofBool (b : Bool) : K := if b then one else zero

/-- The smaller number; missing if either is. -/
def minimum (x y : K) : K := if lt x y || isNaN x then x else y

/-- The larger number; missing if either is. -/
def maximum (x y : K) : K := if lt y x || isNaN x then x else y

/-- The smaller of the numbers that are not missing. -/
def leastOf (x y : K) : K := if isNaN x then y else if isNaN y || le x y then x else y

/-- The larger of the numbers that are not missing. -/
def greatestOf (x y : K) : K := if isNaN x then y else if isNaN y || le y x then x else y

def sign (x : K) : K :=
  if lt zero x then one else if lt x zero then -one else if isNaN x then x else zero

/-- The integer of eight signed bits congruent to the number. -/
def wrap8 (x : K) : K := ofInt (((truncate? x).getD 0).bmod 256)

/-- An integer power in eight signed bits. -/
def pow8 (x : K) : Nat → K
  | 0 => one
  | n + 1 => wrap8 (pow8 x n * x)

def sum (xs : List K) : K := xs.foldl (· + ·) zero

end Scalar

end Catchment
