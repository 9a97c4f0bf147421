import Backprop.Kernel.Loop
import Backprop.Kernel.Operands

/-! Steps that move weights along their gradients. -/

namespace Backprop.Kernel

variable {α : Type} [Scalar α]

@[specialize] def gradientDescent : Kernel α := fun o => do
  let alpha ← o.float 2
  let n ← o.extent 3
  let weight ← o.words 1 n
  let grad ← o.words 0 n
  return [(1, ← updateFirst n weight fun i old => do return old - alpha * (← read grad i))]

/-- A moving average of the gradient, of weight `1 - beta`. -/
@[inline] def firstMoment (beta old grad : α) : α := beta * old + (1 - beta) * grad

/-- A moving average of the squared gradient. -/
@[inline] def secondMoment (beta old grad : α) : α := beta * old + (1 - beta) * grad * grad

/-- One entry of an Adam step, from moments that `bias₁` and `bias₂` correct. -/
@[inline] def adamStep (alpha epsilon bias₁ bias₂ weight m v : α) : α :=
  weight - alpha * (m / bias₁) / (Scalar.sqrt (v / bias₂) + epsilon)

/-- An Adam step; argument 9 counts the steps from 1. -/
@[specialize] def adam : Kernel α := fun o => do
  let alpha ← o.float 4
  let beta₁ ← o.float 5
  let beta₂ ← o.float 6
  let epsilon ← o.float 7
  let n ← o.extent 8
  let t := max (← o.int 9) 1
  let m ← o.words 1 n
  let v ← o.words 2 n
  let weight ← o.words 3 n
  let grad ← o.words 0 n
  let bias₁ := 1 - Scalar.power beta₁ t.toNat
  let bias₂ := 1 - Scalar.power beta₂ t.toNat
  let m ← updateFirst n m fun i old => do return firstMoment beta₁ old (← read grad i)
  let v ← updateFirst n v fun i old => do return secondMoment beta₂ old (← read grad i)
  let weight ← updateFirst n weight fun i old => do
    return adamStep alpha epsilon bias₁ bias₂ old (← read m i) (← read v i)
  return [(1, m), (2, v), (3, weight)]

end Backprop.Kernel
