import Backprop.Number.Exponential
import Backprop.Number.Logarithm
import Backprop.Number.HyperbolicTangent

/-! The arithmetic a kernel needs. Kernels, memory and networks are written over any
scalar; words of memory read as single-precision numbers are the one that runs. -/

namespace Backprop

class Scalar (α : Type) extends Zero α, One α, Add α, Sub α, Mul α, Div α, Neg α where
  ofInt : Int → α
  /-- The number a stored word stands for. -/
  ofWord : Binary32 → α
  /-- The integer part of a number that is not negative. -/
  wholePart? : α → Option Nat
  less : α → α → Bool
  larger : α → α → α
  /-- Below every number that a maximum is taken of. -/
  lowest : α
  /-- The least probability whose logarithm is taken. -/
  probabilityFloor : α
  exp : α → α
  log : α → α
  tanh : α → α
  sqrt : α → α

instance : Scalar Binary32 where
  ofInt := Binary32.ofInt
  ofWord := id
  wholePart? := Binary32.wholePart?
  less := Binary32.less
  larger := Binary32.larger
  lowest := Binary32.infinite true
  probabilityFloor := 1e-30
  exp := Binary32.exp
  log := Binary32.log
  tanh := Binary32.tanh
  sqrt := Binary32.sqrt

namespace Scalar

variable {α : Type} [Scalar α]

@[inline] def ofNat (n : Nat) : α := ofInt n

@[inline] def two : α := ofNat 2

/-- The sum of no terms is the negative zero, so that a single term keeps its sign. -/
@[inline] def emptySum : α := -(0 : α)

/-- Repeated squaring: `base ^ n * result`, with the factors taken from the lowest
binary digit of `n` up. -/
def powerFrom (base result : α) (n : Nat) : α :=
  let result := if n % 2 = 1 then result * base else result
  if n / 2 = 0 then result else powerFrom (base * base) result (n / 2)
termination_by n
decreasing_by omega

def power (base : α) (n : Nat) : α := powerFrom base 1 n

end Scalar

end Backprop
