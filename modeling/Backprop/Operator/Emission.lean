import Backprop.Operator.Basic

/-! The dispatches that an operator contributes to one unroll step. A backward list is
played from its end, so what is listed last happens first. -/

namespace Backprop

structure Emission (α : Type) where
  forward : List (Request α) := []
  backward : List (Request α) := []
deriving DecidableEq

namespace Operator

variable {α : Type}

def forwardArg (t : Tensor) : Except Error (KernelArg α) :=
  (t.forwardBuffer .current).map .buffer

def backwardArg (t : Tensor) : Except Error (KernelArg α) :=
  (t.backwardBuffer .current).map .buffer

def request (kernel : String) (args : List (KernelArg α)) (launch : Launch) : Request α :=
  { kernel, args, launch }

def emitProduct (op : Operator α) (a b output tmp : Tensor) : Except Error (Emission α) := do
  let rows := op.productRows a.shape
  let k := op.contraction a.shape
  let cols := b.shape.x
  let product := request "MatrixMul"
    [← forwardArg a, ← forwardArg b, ← forwardArg output, .int rows, .int cols, .int k]
    (.tiled cols rows)
  let gradB := request "MatrixMulAdd"
    [← forwardArg tmp, ← backwardArg output, ← backwardArg b, .int k, .int cols, .int rows]
    (.tiled cols k)
  let transposeA := request "Transpose"
    [← forwardArg a, ← forwardArg tmp, .int k, .int rows] (.planes k rows 1)
  let gradA := request "MatrixMulAdd"
    [← backwardArg output, ← forwardArg tmp, ← backwardArg a, .int rows, .int k, .int cols]
    (.tiled k rows)
  let transposeB := request "Transpose"
    [← forwardArg b, ← forwardArg tmp, .int cols, .int k] (.planes cols k 1)
  return { forward := [product], backward := [gradB, transposeA, gradA, transposeB] }

def emitConvolution (pad : Padding) (stride : Nat) (a kernel output tmp : Tensor) :
    Except Error (Emission α) := do
  let s := a.shape
  let k := kernel.shape
  let (outX, outY, cells) ← convolvedPlane s k pad stride
  let convolve := request "Convolution"
    [← forwardArg a, ← forwardArg kernel, ← forwardArg output,
      .int s.x, .int s.y, .int k.x, .int k.y, .int k.z, .int k.w, .int cells, .int stride, .int s.w]
    (.planes outX outY (k.w * s.w))
  let gradKernel := request "ConvolutionWeightGrad"
    [← forwardArg a, ← backwardArg output, ← backwardArg kernel,
      .int s.x, .int s.y, .int outX, .int outY, .int k.x, .int k.y, .int k.z, .int k.w,
      .int cells, .int stride, .int s.w]
    (.planes k.x k.y (k.z * k.w))
  let gradInput := request "ConvolutionAdd"
    [← backwardArg output, ← forwardArg tmp, ← backwardArg a,
      .int outX, .int outY, .int k.x, .int k.y, .int k.w, .int k.z,
      .signed (k.x - 1 - cells), .signed (k.y - 1 - cells), .int stride, .int s.x, .int s.y, .int s.w]
    (.planes s.x s.y (k.z * s.w))
  let rotate := request "RotateAndReorder"
    [← forwardArg kernel, ← forwardArg tmp, .int k.x, .int k.y, .int k.z, .int k.w]
    (.planes k.x k.y (k.z * k.w))
  return { forward := [convolve], backward := [gradKernel, gradInput, rotate] }

def emitActivation (kind : Activation) (a output : Tensor) : Except Error (Emission α) := do
  let n := a.shape.elements
  let launch := Launch.elementwise n
  let apply := request kind.kernel [← forwardArg a, ← forwardArg output, .int n] launch
  let saved ← match kind with
    | .relu => forwardArg a
    | .sigmoid | .tanh => forwardArg output
  let grad := request kind.gradKernel [saved, ← backwardArg output, ← backwardArg a, .int n] launch
  return { forward := [apply], backward := [grad] }

def emitSoftmax (a output : Tensor) : Except Error (Emission α) := do
  let cols := a.shape.rowElements
  let rows := a.shape.w
  let launch := Launch.elementwise rows
  let apply := request "Softmax" [← forwardArg a, ← forwardArg output, .int cols, .int rows] launch
  let grad := request "SoftmaxGrad"
    [← backwardArg output, ← forwardArg output, ← backwardArg a, .int cols, .int rows] launch
  return { forward := [apply], backward := [grad] }

def emitElementwiseProduct (a b output : Tensor) : Except Error (Emission α) := do
  let n := a.shape.elements
  let launch := Launch.elementwise n
  requireEqualElements (elementwiseProduct : Operator α) a.shape b.shape
  let apply := request "ElemWiseProduct"
    [← forwardArg a, ← forwardArg b, ← forwardArg output, .int n] launch
  let gradB := request "ElemWiseProductAdd"
    [← forwardArg a, ← backwardArg output, ← backwardArg b, .int n] launch
  let gradA := request "ElemWiseProductAdd"
    [← forwardArg b, ← backwardArg output, ← backwardArg a, .int n] launch
  return { forward := [apply], backward := [gradB, gradA] }

def emitAdd (timeResult : Int) (a b output : Tensor) : Except Error (Emission α) := do
  let n := a.shape.elements
  let launch := Launch.elementwise n
  requireEqualElements (add timeResult : Operator α) a.shape b.shape
  let out ← output.forwardBuffer (.shifted timeResult)
  let gradOut ← output.backwardBuffer (.shifted timeResult)
  let apply := request "Add" [← forwardArg a, ← forwardArg b, .buffer out, .int n] launch
  let gradA := request "CopyAdd" [.buffer gradOut, ← backwardArg a, .int n] launch
  let gradB := request "CopyAdd" [.buffer gradOut, ← backwardArg b, .int n] launch
  return { forward := [apply], backward := [gradA, gradB] }

/-- A copy into one slot, and the sum of its gradient. -/
def emitCopy (slot : SlotChoice) (a output : Tensor) : Except Error (Emission α) := do
  let n := a.shape.elements
  let launch := Launch.elementwise n
  let out ← output.forwardBuffer slot
  let gradOut ← output.backwardBuffer slot
  let apply := request "Copy" [← forwardArg a, .buffer out, .int n] launch
  let grad := request "CopyAdd" [.buffer gradOut, ← backwardArg a, .int n] launch
  return { forward := [apply], backward := [grad] }

def emitSubtract (constant : α) (a output : Tensor) : Except Error (Emission α) := do
  let n := a.shape.elements
  let launch := Launch.elementwise n
  let apply := request "SubtractFromConst"
    [← forwardArg a, ← forwardArg output, .float constant, .int n] launch
  let grad := request "SubtractFromConstGrad" [← backwardArg output, ← backwardArg a, .int n] launch
  return { forward := [apply], backward := [grad] }

def emitBias (a bias output : Tensor) : Except Error (Emission α) := do
  let n := a.shape.elements
  let cols := a.shape.rowElements
  let rows := a.shape.w
  let apply := request "AddToMatrix"
    [← forwardArg a, ← forwardArg bias, ← forwardArg output, .int cols, .int rows]
    (.elementwise n)
  let gradA := request "CopyAdd" [← backwardArg output, ← backwardArg a, .int n] (.elementwise n)
  let gradBias := request "AddToMatrixGrad"
    [← backwardArg output, ← backwardArg bias, .int cols, .int rows] (.elementwise cols)
  return { forward := [apply], backward := [gradA, gradBias] }

def emitImageBias (a bias output : Tensor) : Except Error (Emission α) := do
  let n := a.shape.elements
  let plane := a.shape.x * a.shape.y
  let channels := a.shape.z
  let batch := a.shape.w
  let apply := request "AddToImageTensor"
    [← forwardArg a, ← forwardArg bias, ← forwardArg output, .int plane, .int channels, .int batch]
    (.elementwise n)
  let gradA := request "CopyAdd" [← backwardArg output, ← backwardArg a, .int n] (.elementwise n)
  let gradBias := request "AddToImageTensorGrad"
    [← backwardArg output, ← backwardArg bias, .int plane, .int channels, .int batch]
    (.elementwise channels)
  return { forward := [apply], backward := [gradA, gradBias] }

def emitPooling (pad stride size : Nat) (a output : Tensor) : Except Error (Emission α) := do
  let s := a.shape
  let planes := s.z * s.w
  let extents := [s.x, s.y, planes, stride, pad, pad, size].map .int
  let apply := request "MaxPooling" ([← forwardArg a, ← forwardArg output] ++ extents)
    (.planes output.shape.x output.shape.y planes)
  let grad := request "MaxPoolingGrad"
    ([← forwardArg a, ← backwardArg output, ← backwardArg a] ++ extents) (.planes s.x s.y planes)
  return { forward := [apply], backward := [grad] }

/-- A transposition passes no gradient on. -/
def emitTranspose (a output : Tensor) : Except Error (Emission α) := do
  let s := a.shape
  let apply := request "Transpose" [← forwardArg a, ← forwardArg output, .int s.x, .int s.y]
    (.planes s.x s.y (s.z * s.w))
  return { forward := [apply] }

def reductionRequest (kernel : String) (a label output : Tensor) : Except Error (Request α) := do
  return request kernel
    [← forwardArg a, ← forwardArg label, ← forwardArg output, .int a.shape.rowElements,
      .int a.shape.w] .single

/-- The gradient of a loss; `count` is what its kernel is told to cover. -/
def lossGradient (kernel : String) (count items : Nat) (a label : Tensor) :
    Except Error (Request α) := do
  return request kernel
    [← forwardArg a, ← forwardArg label, ← backwardArg a, .int count, .int a.shape.w]
    (.elementwise items)

def emitCrossEntropy (a label output : Tensor) : Except Error (Emission α) := do
  let apply ← reductionRequest "CrossEntropy" a label output
  let grad ← lossGradient "CrossEntropyGrad" a.shape.rowElements a.shape.w a label
  return { forward := [apply], backward := [grad] }

def emitLeastSquares (a label output : Tensor) : Except Error (Emission α) := do
  let n := a.shape.elements
  let apply ← reductionRequest "MeanSquaredError" a label output
  let grad ← lossGradient "MeanSquaredErrorGrad" n n a label
  return { forward := [apply], backward := [grad] }

def emitAccuracy (a label output : Tensor) : Except Error (Emission α) := do
  return { forward := [← reductionRequest "ClassificationAccuracy" a label output] }

def emitSplit (tileX tileY : Nat) (a output : Tensor) : Except Error (Emission α) := do
  let s := a.shape
  let extents := [output.cursor, tileX, tileY, s.x, s.y, s.z, s.w].map .int
  let launch := Launch.planes tileX tileY (s.z * s.w)
  let apply := request "SplitData" ([← forwardArg a, ← forwardArg output] ++ extents) launch
  let grad := request "SplitDataGrad" ([← backwardArg output, ← backwardArg a] ++ extents) launch
  return { forward := [apply], backward := [grad] }

/-- The dispatches of the current unroll step. -/
def emit (op : Operator α) (inputs : List Tensor) (output : Tensor) (scratch : List Tensor) :
    Except Error (Emission α) := do
  let some a := inputs.head? | throw (.noInputs op.name)
  let second : Except Error Tensor := match inputs[1]? with
    | some b => .ok b
    | none => .error (.noSecondInput op.name)
  let tmp : Except Error Tensor := match scratch.head? with
    | some t => .ok t
    | none => .error (.noScratch op.name)
  match op with
  | matMul | matMulFlat => op.emitProduct a (← second) output (← tmp)
  | conv2d pad stride => emitConvolution pad stride a (← second) output (← tmp)
  | activation kind => emitActivation kind a output
  | softmax => emitSoftmax a output
  | elementwiseProduct => emitElementwiseProduct a (← second) output
  | add timeResult => emitAdd timeResult a (← second) output
  | copy timeResult => emitCopy (.shifted timeResult) a output
  | subtractFromConst constant => emitSubtract constant a output
  | addBias => emitBias a (← second) output
  | addBiasConv => emitImageBias a (← second) output
  | maxPool pad stride size => emitPooling pad stride size a output
  | transpose => emitTranspose a output
  | crossEntropy => emitCrossEntropy a (← second) output
  | leastSquares => emitLeastSquares a (← second) output
  | accuracy => emitAccuracy a (← second) output
  | split tileX tileY => emitSplit tileX tileY a output
  | copyInit => if output.cursor = 0 then emitCopy (.timestep 0) a output else pure {}

end Operator

end Backprop
