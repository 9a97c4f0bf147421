/-! Extents along one axis of a convolution, a pooling or a tiling. -/

namespace Backprop

def ceilDiv (num den : Nat) : Nat := (num + den - 1) / den

/-- Positions of a kernel that moves by `stride` over an input with `pad` cells on both ends. -/
def convolvedExtent? (input kernel pad stride : Nat) : Option Nat :=
  let padded := input + 2 * pad
  if stride = 0 ∨ padded < kernel then none else some ((padded - kernel) / stride + 1)

/-- Positions of a window over an input with `pad` cells on the far end. -/
def pooledExtent? (input size pad stride : Nat) : Option Nat :=
  let padded := input + pad
  if stride = 0 ∨ size = 0 ∨ padded < size then none else some ((padded - size) / stride + 1)

inductive Padding where
  | valid
  | same
  | full
  | explicit (cells : Nat)
deriving DecidableEq, Repr

def Padding.cells : Padding → (kernelWidth : Nat) → Nat
  | valid, _ => 0
  | same, width => width / 2
  | full, width => width - 1
  | explicit cells, _ => cells

end Backprop
