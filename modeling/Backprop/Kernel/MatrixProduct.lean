import Backprop.Capacity
import Backprop.Kernel.Loop
import Backprop.Kernel.Operands

/-! Products and transposes of matrices stored row by row. -/

namespace Backprop.Kernel

variable {α : Type} [Scalar α]

@[specialize] def dotProduct (a b : Array α) (n k i j : Nat) : Except Error α :=
  loop k 0 fun p sum => do return sum + (← read a (i * k + p)) * (← read b (p * n + j))

/-- `alpha * a * b + beta * c` for `a` with `m` rows of `k` and `b` with `k` rows of `n`. -/
@[specialize] def product (a b c : Array α) (m n k : Nat) (alpha beta : α) :
    Except Error (Array α) :=
  loop (nonemptyRows m n) c fun i c =>
    updateSpan (i * n) n c fun j old => do
      return alpha * (← dotProduct a b n k i j) + beta * old

@[specialize] def matrixProductWith (beta : α) : Kernel α := fun o => do
  let m ← o.extent 3
  let n ← o.extent 4
  let k ← o.extent 5
  let c ← o.words 2 (m * n)
  let a ← o.words 0 (m * k)
  let b ← o.words 1 (k * n)
  return [(2, ← product a b c m n k 1 beta)]

@[specialize] def matrixProduct : Kernel α := matrixProductWith 0

@[specialize] def matrixProductAdd : Kernel α := matrixProductWith 1

/-- Where entry `i` of the transposed planes comes from. -/
def transposeSource (rows cols i : Nat) : Nat :=
  i / (rows * cols) * (rows * cols) + i % rows * cols + i % (rows * cols) / rows

@[specialize] def transpose : Kernel α := fun o => do
  let cols ← o.extent 2
  let rows ← o.extent 3
  let n := rows * cols * max o.launch.global.z 1
  -- unlike an extent, the layers of a launch may be any number of 64 bits
  requireSize n (o.held 1)
  let out ← o.words 1 n
  let a ← o.words 0 n
  return [(1, ← updateFirst n out fun i _ => read a (transposeSource rows cols i))]

end Backprop.Kernel
