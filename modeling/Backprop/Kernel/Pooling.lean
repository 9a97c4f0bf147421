import Backprop.Extent
import Backprop.Kernel.Loop
import Backprop.Kernel.Operands

/-! Maxima over windows of image planes. The gradient of an output cell goes to the
first cell of its window that holds the maximum. -/

namespace Backprop.Kernel

variable {α : Type} [Scalar α]

structure Pooling where
  inX : Nat
  inY : Nat
  planes : Nat
  stride : Nat
  size : Nat
  outX : Nat
  outY : Nat

namespace Pooling

def inputCells (p : Pooling) : Nat := p.inX * p.inY * p.planes

def outputCells (p : Pooling) : Nat := p.outX * p.outY * p.planes

def ofOperands (o : Operands α) (first : Nat) : Except Error Pooling := do
  let inX ← o.extent first
  let inY ← o.extent (first + 1)
  let planes ← o.extent (first + 2)
  let stride ← o.extent (first + 3)
  let padX ← o.extent (first + 4)
  let padY ← o.extent (first + 5)
  let size ← o.extent (first + 6)
  match pooledExtent? inX size padX stride, pooledExtent? inY size padY stride with
  | some outX, some outY => return ⟨inX, inY, planes, ← divisor stride, size, outX, outY⟩
  | _, _ => throw (.emptyPooling inX inY size stride)

/-- Positions of the window at `position`, as far as they lie on an axis of `extent` cells. -/
def windowAxis (p : Pooling) (position extent : Nat) : List Nat :=
  let first := position * p.stride
  List.range' first (min (first + p.size) extent - first)

/-- Cells of the window at `(ox, oy)`, row by row. -/
def window (p : Pooling) (plane ox oy : Nat) : List Nat :=
  if p.inX = 0 then []
  else (p.windowAxis oy p.inY).flatMap fun y => (p.windowAxis ox p.inX).map fun x =>
    plane * p.inX * p.inY + y * p.inX + x

/-- Window positions among the first `positions` that cover cell `cell` of an axis. -/
def covering (p : Pooling) (cell positions : Nat) : List Nat :=
  let first := ceilDiv (cell + 1 - p.size) p.stride
  List.range' first (min (cell / p.stride + 1) positions - first)

end Pooling

/-- The first of the cells that no other exceeds, comparing from the left. -/
@[specialize] def firstMax (a : Array α) (cells : List Nat) : Except Error (Option Nat) :=
  cells.foldlM (fun best i => do
    match best with
    | none => return some i
    | some b => return if Scalar.less (← read a b) (← read a i) then some i else best) none

@[specialize] def maxPooling : Kernel α := fun o => do
  let p ← Pooling.ofOperands o 2
  let out ← o.words 1 p.outputCells
  let input ← o.words 0 p.inputCells
  return [(1, ← updateFirst p.outputCells out fun i _ => do
    match ← firstMax input (p.window (i / p.outX / p.outY) (i % p.outX) (i / p.outX % p.outY)) with
    | some cell => read input cell
    | none => return 0)]

def Pooling.coveringCells (p : Pooling) (x y : Nat) : List (Nat × Nat) :=
  (p.covering y p.outY).flatMap fun oy => (p.covering x p.outX).map fun ox => (ox, oy)

@[specialize] def maxPoolingGrad : Kernel α := fun o => do
  let p ← Pooling.ofOperands o 3
  let dx ← o.words 2 p.inputCells
  let input ← o.words 0 p.inputCells
  let dy ← o.words 1 p.outputCells
  return [(2, ← updateFirst p.inputCells dx fun i old => do
    let plane := i / p.inX / p.inY
    let sum ← (p.coveringCells (i % p.inX) (i / p.inX % p.inY)).foldlM (fun sum (ox, oy) => do
      if (← firstMax input (p.window plane ox oy)) = some i then
        return sum + (← read dy ((plane * p.outY + oy) * p.outX + ox))
      else return sum) 0
    return old + sum)]

end Backprop.Kernel
