import Backprop.Kernel.Loop
import Backprop.Kernel.Operands

/-! Softmax, the losses and their gradients, and the share of rows that are
classified as labelled. Matrices hold one row for each sample. -/

namespace Backprop.Kernel

variable {α : Type} [Scalar α]

/-- The class a label names, where there is one. -/
@[specialize] def labelClass? (label : α) (cols : Nat) : Option Nat :=
  match Scalar.wholePart? label with
  | some index => if index < cols then some index else none
  | none => none

@[specialize] def rowMax (a : Array α) (start cols : Nat) : Except Error α :=
  loop cols Scalar.lowest fun i best => do return Scalar.larger best (← read a (start + i))

/-- Exponentials of the distances from the largest entry, divided by their sum. -/
@[specialize] def softmaxRow (a out : Array α) (start cols : Nat) : Except Error (Array α) := do
  let top ← rowMax a start cols
  let sum ← loop cols 0 fun i sum => do return sum + Scalar.exp ((← read a (start + i)) - top)
  updateSpan start cols out fun i _ => do
    return Scalar.exp ((← read a (start + i)) - top) / sum

@[specialize] def softmax : Kernel α := fun o => do
  let cols ← o.extent 2
  let rows ← o.extent 3
  let out ← o.words 1 (cols * rows)
  let a ← o.words 0 (cols * rows)
  return [(1, ← loop (nonemptyRows rows cols) out fun r out => softmaxRow a out (r * cols) cols)]

/-- Adds `y * (dy - dot)` to every row, `dot` being the product of the row's `dy` and `y`. -/
@[specialize] def softmaxGrad : Kernel α := fun o => do
  let cols ← o.extent 3
  let rows ← o.extent 4
  let n := cols * rows
  let dx ← o.words 2 n
  let dy ← o.words 0 n
  let y ← o.words 1 n
  let result ← loop (nonemptyRows rows cols) dx fun r dx => do
    let start := r * cols
    let dot ← loop cols Scalar.emptySum fun i sum => do
      return sum + (← read dy (start + i)) * (← read y (start + i))
    updateSpan start cols dx fun i old => do
      return old + (← read y (start + i)) * ((← read dy (start + i)) - dot)
  return [(2, result)]

/-- Half the squared distance from the labels, averaged over the rows. -/
@[specialize] def meanSquaredError : Kernel α := fun o => do
  let cols ← o.extent 3
  let rows ← o.extent 4
  let n := cols * rows
  let loss ← o.words 2 1
  let a ← o.words 0 n
  let label ← o.words 1 n
  let sum ← loop n Scalar.emptySum fun i sum => do
    let d := (← read a i) - (← read label i)
    return sum + d * d
  return [(2, ← write loss 0 (sum / (Scalar.two * Scalar.ofNat (max rows 1))))]

@[specialize] def meanSquaredErrorGrad : Kernel α := fun o => do
  let n ← o.extent 3
  let rows ← o.extent 4
  let scale := Scalar.ofNat (max rows 1)
  let dx ← o.words 2 n
  let a ← o.words 0 n
  let label ← o.words 1 n
  return [(2, ← updateFirst n dx fun i old => do
    return old + ((← read a i) - (← read label i)) / scale)]

@[specialize] def crossEntropy : Kernel α := fun o => do
  let cols ← o.extent 3
  let rows ← o.extent 4
  let loss ← o.words 2 1
  let probs ← o.words 0 (cols * rows)
  let labels ← o.words 1 rows
  let total ← loop rows 0 fun r total => do
    match labelClass? (← read labels r) cols with
    | some c =>
      return total - Scalar.log (Scalar.larger (← read probs (r * cols + c)) Scalar.probabilityFloor)
    | none => return total
  return [(2, ← write loss 0 (total / Scalar.ofNat (max rows 1)))]

@[specialize] def crossEntropyGrad : Kernel α := fun o => do
  let cols ← o.extent 3
  let rows ← o.extent 4
  let dx ← o.words 2 (cols * rows)
  let probs ← o.words 0 (cols * rows)
  let labels ← o.words 1 rows
  let scale := Scalar.ofNat (max rows 1)
  let result ← loop rows dx fun r dx => do
    match labelClass? (← read labels r) cols with
    | some c => update dx (r * cols + c) fun old => do
      let p := Scalar.larger (← read probs (r * cols + c)) Scalar.probabilityFloor
      return old - 1 / (scale * p)
    | none => return dx
  return [(2, result)]

/-- The first index of a largest entry of a row. -/
@[specialize] def rowArgmax (a : Array α) (start cols : Nat) : Except Error Nat :=
  loop cols 0 fun i best => do
    return if Scalar.less (← read a (start + best)) (← read a (start + i)) then i else best

@[specialize] def classificationAccuracy : Kernel α := fun o => do
  let cols ← o.extent 3
  let rows ← o.extent 4
  let out ← o.words 2 1
  let probs ← o.words 0 (cols * rows)
  let labels ← o.words 1 rows
  let correct ← loop rows 0 fun r correct => do
    let best ← rowArgmax probs (r * cols) cols
    return if labelClass? (← read labels r) cols = some best then correct + 1 else correct
  return [(2, ← write out 0 (Scalar.ofNat correct / Scalar.ofNat (max rows 1)))]

end Backprop.Kernel
