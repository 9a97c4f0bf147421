import Mathlib
import Backprop.Number.Scalar

/-! Exact arithmetic: rational numbers take the place of single-precision ones, and nothing is
rounded. -/

namespace Backprop

def Decoded.exact : Decoded → ℚ
  | finite negative significand exponent => (if negative then -1 else 1) * significand * 2 ^ exponent
  | infinite _ | undefined => 0

/-- What rational numbers do not have: functions that lead out of them, and a lowest number. Any
will do where a kernel asks for none of these. -/
class Inexact where
  exp : ℚ → ℚ
  log : ℚ → ℚ
  tanh : ℚ → ℚ
  sqrt : ℚ → ℚ
  lowest : ℚ

/-- Integer parts are those of machine numbers: beyond the largest there is no further one. -/
instance [Inexact] : Scalar ℚ where
  ofInt n := n
  ofWord x := x.decode.exact
  wholePart? x := if 0 ≤ x then some (min ⌊x⌋₊ (UInt64.size - 1)) else none
  less x y := x < y
  larger := max
  lowest := Inexact.lowest
  probabilityFloor := 1 / 10 ^ 30
  exp := Inexact.exp
  log := Inexact.log
  tanh := Inexact.tanh
  sqrt := Inexact.sqrt

namespace Exact

variable [Inexact] {x y : ℚ}

theorem emptySum_eq : (Scalar.emptySum : ℚ) = 0 := by
  change -(0 : ℚ) = 0
  exact neg_zero

theorem wholePart?_eq :
    Scalar.wholePart? x = if 0 ≤ x then some (min ⌊x⌋₊ (UInt64.size - 1)) else none := rfl

end Exact

end Backprop
