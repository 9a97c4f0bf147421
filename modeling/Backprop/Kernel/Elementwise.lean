import Backprop.Capacity
import Backprop.Kernel.Loop
import Backprop.Kernel.Operands

/-! Copies, sums and products of arrays, and biases added to every row or plane. -/

namespace Backprop.Kernel

variable {α : Type} [Scalar α]

@[specialize] def copy : Kernel α := fun o => do
  let n ← o.extent 2
  let out ← o.words 1 n
  let a ← o.words 0 n
  return [(1, ← updateFirst n out fun i _ => read a i)]

@[specialize] def copyAdd : Kernel α := fun o => do
  let n ← o.extent 2
  let out ← o.words 1 n
  let a ← o.words 0 n
  return [(1, ← updateFirst n out fun i old => do return old + (← read a i))]

/-- Combines arguments 0 and 1 into argument 2, entry by entry. -/
@[specialize] def combine (f : α → α → α → α) : Kernel α := fun o => do
  let n ← o.extent 3
  let out ← o.words 2 n
  let a ← o.words 0 n
  let b ← o.words 1 n
  return [(2, ← updateFirst n out fun i old => do return f old (← read a i) (← read b i))]

@[specialize] def add : Kernel α := combine fun _ a b => a + b

@[specialize] def elementwiseProduct : Kernel α := combine fun _ a b => a * b

@[specialize] def elementwiseProductAdd : Kernel α := combine fun old a b => old + a * b

@[specialize] def subtractFromConst : Kernel α := fun o => do
  let constant ← o.float 2
  let n ← o.extent 3
  let out ← o.words 1 n
  let a ← o.words 0 n
  return [(1, ← updateFirst n out fun i _ => do return constant - (← read a i))]

@[specialize] def subtractFromConstGrad : Kernel α := fun o => do
  let n ← o.extent 2
  let dx ← o.words 1 n
  let dy ← o.words 0 n
  return [(1, ← updateFirst n dx fun i old => do return old - (← read dy i))]

@[specialize] def addToMatrix : Kernel α := fun o => do
  let cols ← o.extent 3
  let rows ← o.extent 4
  let n := cols * rows
  let out ← o.words 2 n
  let a ← o.words 0 n
  let bias ← o.words 1 cols
  return [(2, ← updateFirst n out fun i _ => do
    return (← read a i) + (← read bias (← remainder i cols)))]

@[specialize] def addToMatrixGrad : Kernel α := fun o => do
  let cols ← o.extent 2
  let rows ← o.extent 3
  let dbias ← o.words 1 cols
  let dy ← o.words 0 (cols * rows)
  return [(1, ← updateFirst cols dbias fun j old =>
    loop rows old fun r sum => do return sum + (← read dy (r * cols + j)))]

@[specialize] def addToImage : Kernel α := fun o => do
  let plane ← o.extent 3
  let channels ← o.extent 4
  let batch ← o.extent 5
  let n := plane * channels * batch
  let out ← o.words 2 n
  let a ← o.words 0 n
  let bias ← o.words 1 channels
  return [(2, ← updateFirst n out fun i _ => do
    return (← read a i) + (← read bias (← remainder (← quotient i plane) channels)))]

/-- Adds the sum of every plane to the gradient of its channel. Of planes without cells
one is enough: to add an empty sum again changes nothing. -/
@[specialize] def addToImageGrad : Kernel α := fun o => do
  let plane ← o.extent 2
  let channels ← o.extent 3
  let batch ← o.extent 4
  let dbias ← o.words 1 channels
  let dy ← o.words 0 (plane * channels * batch)
  return [(1, ← updateFirst channels dbias fun channel old =>
    loop (if plane = 0 then min batch 1 else batch) old fun b total => do
      let start := (b * channels + channel) * plane
      let sum ← loop plane Scalar.emptySum fun i sum => do return sum + (← read dy (start + i))
      return total + sum)]

/-- Appends a number to a log whose first entry counts the others. A full log stays
as it is; after the largest count there is no place for another. -/
@[specialize] def appendId : Kernel α := fun o => do
  let id ← o.float 1
  let log ← o.words 0 1
  let head ← read log 0
  let slot := (Scalar.wholePart? head).getD 0 + 1
  requireSize slot log.size
  if slot < log.size then
    return [(0, ← update (← write log slot id) 0 fun count => return count + 1)]
  else return [(0, log)]

end Backprop.Kernel
