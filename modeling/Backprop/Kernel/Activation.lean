import Backprop.Kernel.Loop
import Backprop.Kernel.Operands

/-! Activation functions and their gradients. -/

namespace Backprop.Kernel

variable {α : Type} [Scalar α]

@[specialize] def activation (f : α → α) : Kernel α := fun o => do
  let n ← o.extent 2
  let out ← o.words 1 n
  let a ← o.words 0 n
  return [(1, ← updateFirst n out fun i _ => do return f (← read a i))]

/-- Adds the output gradient times `f` of what the forward pass saved in argument 0. -/
@[specialize] def activationGrad (f : α → α) : Kernel α := fun o => do
  let n ← o.extent 3
  let dx ← o.words 2 n
  let saved ← o.words 0 n
  let dy ← o.words 1 n
  return [(2, ← updateFirst n dx fun i old => do return old + (← read dy i) * f (← read saved i))]

@[specialize] def relu : Kernel α := activation fun x => Scalar.larger x 0

@[specialize] def reluGrad : Kernel α := activationGrad fun x => if Scalar.less 0 x then 1 else 0

@[specialize] def sigmoid : Kernel α := activation fun x => 1 / (1 + Scalar.exp (-x))

@[specialize] def sigmoidGrad : Kernel α := activationGrad fun y => y * (1 - y)

@[specialize] def tanh : Kernel α := activation Scalar.tanh

@[specialize] def tanhGrad : Kernel α := activationGrad fun y => 1 - y * y

end Backprop.Kernel
