/-! Extents of a tensor. -/

namespace Backprop

/-- Width, height, depth, and the number of rows of a batch. -/
structure Shape where
  x : Nat
  y : Nat := 1
  z : Nat := 1
  w : Nat := 1
deriving DecidableEq, Repr, Inhabited

namespace Shape

def elements (s : Shape) : Nat := s.x * s.y * s.z * s.w

/-- Elements of one batch row. -/
def rowElements (s : Shape) : Nat := s.x * s.y * s.z

/-- An element is one word of four bytes. -/
def bytes (s : Shape) : Nat := 4 * s.elements

def withRows (s : Shape) (rows : Nat) : Shape := { s with w := rows }

def max (s t : Shape) : Shape :=
  ⟨Nat.max s.x t.x, Nat.max s.y t.y, Nat.max s.z t.z, Nat.max s.w t.w⟩

instance : ToString Shape := ⟨fun s => s!"({s.x}, {s.y}, {s.z}, {s.w})"⟩

theorem elements_eq_rowElements_mul (s : Shape) : s.elements = s.rowElements * s.w := rfl

theorem rowElements_withRows (s : Shape) (rows : Nat) :
    (s.withRows rows).rowElements = s.rowElements := rfl

end Shape

end Backprop
