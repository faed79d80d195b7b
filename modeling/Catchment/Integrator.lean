import Catchment.Fault
import Catchment.Grid

/-!
# Integrators

An integrator follows flat states over time by a rate that is a time derivative. It asks for the
rates of states at times of its own choice, one after the other, until it has a result: so the
result depends on the rates that it was given alone, and a fault of the rate ends it.
-/
namespace Catchment

/-- A computation that asks for rates of states. -/
inductive Inquiry (m : Nat) (K α : Type) where
  | done (a : α)
  /-- Something that it was given is a bad value. -/
  | refused
  | ask (time : K) (state : Grid [m] K) (next : Grid [m] K → Inquiry m K α)

namespace Inquiry

variable {m : Nat} {K α β : Type}

def bind : Inquiry m K α → (α → Inquiry m K β) → Inquiry m K β
  | done a, f => f a
  | refused, _ => refused
  | ask time state next, f => ask time state fun r => bind (next r) f

instance : Monad (Inquiry m K) where
  pure := done
  bind := bind

def rate (time : K) (state : Grid [m] K) : Inquiry m K (Grid [m] K) := ask time state done

/-- What comes out under a rate. -/
def answer (rate : K → Grid [m] K → Except Fault (Grid [m] K)) :
    Inquiry m K α → Except Fault α
  | done a => .ok a
  | refused => .error .value
  | ask time state next => do answer rate (next (← rate time state))

end Inquiry

/-- What an integrator is given besides the rate. -/
structure Request (m : Nat) (K : Type) where
  first : K
  last : K
  initial : Grid [m] K
  /-- The times at which the state is wanted. -/
  times : List K
  rtol : K
  atol : K
  maxStep : K

/-- What an integrator returns. -/
structure Solution (m : Nat) (K : Type) where
  /-- Zero if the end was reached. -/
  status : Int
  message : String
  /-- The states at the wanted times that were reached. -/
  columns : List (Grid [m] K)

/-- Methods of integration by their names. -/
structure Integrator (K : Type) where
  solve : String → {m : Nat} → Request m K → Inquiry m K (Solution m K)

end Catchment
