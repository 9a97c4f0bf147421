import Backprop.Extent
import Backprop.Tensor.Basic

/-! Operators: which shapes they take, and which shape and sequence length they give. -/

namespace Backprop

inductive Activation where
  | relu
  | sigmoid
  | tanh
deriving DecidableEq, Repr

namespace Activation

def kernel : Activation → String
  | relu => "ReLU"
  | sigmoid => "Sigmoid"
  | tanh => "Tanh"

def gradKernel : Activation → String
  | relu => "ReLUGrad"
  | sigmoid => "SigmoidGrad"
  | tanh => "TanhGrad"

end Activation

inductive Operator (α : Type) where
  /-- Rows of the first operand times the second. -/
  | matMul
  /-- As `matMul`, with each batch row of the first operand as one row. -/
  | matMulFlat
  | conv2d (pad : Padding) (stride : Nat)
  | activation (a : Activation)
  | softmax
  | elementwiseProduct
  /-- A sum, written some timesteps away from the cursor. -/
  | add (timeResult : Int)
  | copy (timeResult : Int)
  | subtractFromConst (constant : α)
  | addBias
  | addBiasConv
  | maxPool (pad stride size : Nat)
  | transpose
  | crossEntropy
  | leastSquares
  | accuracy
  /-- Cuts each plane into tiles, one for each timestep. -/
  | split (tileX tileY : Nat)
  /-- Copies into the first slot, once. -/
  | copyInit
deriving DecidableEq

namespace Operator

variable {α : Type}

def name : Operator α → String
  | matMul => "MatMul"
  | matMulFlat => "MatMulFlat"
  | conv2d .. => "Conv2D"
  | activation a => a.kernel
  | softmax => "Softmax"
  | elementwiseProduct => "ElemWiseProduct"
  | add _ => "Add"
  | copy _ => "Copy"
  | subtractFromConst _ => "SubtractFromConst"
  | addBias => "AddBias"
  | addBiasConv => "AddBiasConv"
  | maxPool .. => "MaxPool"
  | transpose => "Transpose"
  | crossEntropy => "CrossEntropy"
  | leastSquares => "LeastSquares"
  | accuracy => "Accuracy"
  | split .. => "Split"
  | copyInit => "CopyInit"

def arity : Operator α → Nat
  | matMul | matMulFlat | conv2d .. | elementwiseProduct | add _ | addBias | addBiasConv
  | crossEntropy | leastSquares | accuracy => 2
  | activation _ | softmax | copy _ | subtractFromConst _ | maxPool .. | transpose | split ..
  | copyInit => 1

/-- Losses and metrics fold all batch rows into one value. -/
def reducesBatch : Operator α → Bool
  | crossEntropy | leastSquares | accuracy => true
  | _ => false

/-- The length of the sums in a matrix product. -/
def contraction : Operator α → Shape → Nat
  | matMulFlat, a => a.rowElements
  | _, a => a.x

def productRows (op : Operator α) (a : Shape) : Nat := a.elements / max (op.contraction a) 1

/-- Extents and padding of a convolution. -/
def convolvedPlane (a k : Shape) (pad : Padding) (stride : Nat) : Except Error (Nat × Nat × Nat) :=
  let cells := pad.cells k.x
  match convolvedExtent? a.x k.x cells stride, convolvedExtent? a.y k.y cells stride with
  | some x, some y => .ok (x, y, cells)
  | _, _ => .error (.convolutionMisfit a k cells stride)

def requireEqualElements (op : Operator α) (a b : Shape) : Except Error Unit :=
  if a.elements = b.elements then .ok () else .error (.unequalElements op.name a b)

def shapeOf (op : Operator α) (a b : Shape) : Except Error Shape :=
  match op with
  | matMul =>
    if b.y = a.x ∧ b.z * b.w = 1 then .ok ⟨b.x, a.y, a.z, a.w⟩
    else .error (.noContraction op.name a b)
  | matMulFlat =>
    if b.y = a.rowElements ∧ b.z * b.w = 1 then .ok ⟨b.x, 1, 1, a.w⟩
    else .error (.noContraction op.name a b)
  | conv2d pad stride => do
    if b.z ≠ a.z then throw (.channelMismatch b a.z)
    let (x, y, _) ← convolvedPlane a b pad stride
    return ⟨x, y, b.w, a.w⟩
  | elementwiseProduct | add _ => do
    op.requireEqualElements a b
    return a
  | addBias => if b.elements = a.rowElements then .ok a else .error (.biasRowMismatch b a)
  | addBiasConv => if b.elements = a.z then .ok a else .error (.biasChannelMismatch b a.z)
  | maxPool pad stride size =>
    match pooledExtent? a.x size pad stride, pooledExtent? a.y size pad stride with
    | some x, some y => .ok ⟨x, y, a.z, a.w⟩
    | _, _ => .error (.poolingMisfit a size stride)
  | transpose => .ok ⟨a.y, a.x, a.z, a.w⟩
  | crossEntropy | accuracy =>
    if b.elements = a.w then .ok ⟨1, 1, 1, 1⟩ else .error (.labelMismatch op.name a b)
  | leastSquares => do
    op.requireEqualElements a b
    return ⟨1, 1, 1, 1⟩
  | split tileX tileY =>
    if tileX = 0 ∨ tileY = 0 then .error .emptyTile else .ok ⟨tileX, tileY, a.z, a.w⟩
  | activation _ | softmax | copy _ | subtractFromConst _ | copyInit => .ok a

def outputShape (op : Operator α) (inputs : List Shape) : Except Error Shape :=
  if inputs.length ≠ op.arity then .error (.wrongArity op.name op.arity inputs.length)
  else match inputs with
    | [a] => op.shapeOf a a
    | a :: b :: _ => op.shapeOf a b
    | [] => .error (.wrongArity op.name op.arity 0)

/-- Timesteps of the output: the tiles of a split, and otherwise the end of the operand
that ends last. -/
def sequenceLength (op : Operator α) (inputs : List Tensor) : Nat :=
  match op, inputs with
  | split tileX tileY, a :: _ =>
    ceilDiv a.shape.x (max tileX 1) * ceilDiv a.shape.y (max tileY 1)
  | _, inputs => inputs.foldl (fun longest t => max longest (t.sequence + t.timeOffset)) 1

/-- Elements of each scratch buffer that the operator needs. -/
def scratchElements (op : Operator α) (inputs : List Shape) : List Nat :=
  match op, inputs with
  | matMul, a :: b :: _ | matMulFlat, a :: b :: _ => [max a.elements b.elements]
  | conv2d .., _ :: k :: _ => [k.elements]
  | _, _ => []

end Operator

end Backprop
