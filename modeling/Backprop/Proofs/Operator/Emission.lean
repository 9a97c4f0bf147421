import Mathlib
import Backprop.Operator.Emission
import Backprop.Kernel.Catalogue
import Backprop.Proofs.Call

/-! The requests of an operator as functions of the buffers it is given: one request for the
forward pass, and a list for the backward pass. -/

namespace Backprop

variable {α : Type}

/-- An integer, or the nearest that a kernel can be told. -/
def ScalarArg.signed (n : Int) : ScalarArg α :=
  .int32 (.ofInt (max Int32.minValue.toInt (min n Int32.maxValue.toInt)))

def ScalarArg.int (n : Nat) : ScalarArg α := signed n

/-- The buffers of an operator at an unroll step: forward and backward storage of both operands
and of the output, and scratch. -/
structure Wires where
  a : BufferId
  gradA : BufferId
  b : BufferId
  gradB : BufferId
  out : BufferId
  gradOut : BufferId
  tmp : BufferId

namespace Operator

/-- The slot of the output that the operator writes. -/
def place : Operator α → SlotChoice
  | add timeResult | copy timeResult => .shifted timeResult
  | copyInit => .timestep 0
  | _ => .current

def plane (a b : Shape) (pad : Padding) (stride : Nat) : Nat × Nat × Nat :=
  match convolvedPlane a b pad stride with
  | .ok extents => extents
  | .error _ => (0, 0, 0)

/-! ### The forward pass -/

def forwardKernel : Operator α → HostKernel
  | matMul | matMulFlat => .matrixProduct
  | conv2d .. => .convolution
  | activation .relu => .relu
  | activation .sigmoid => .sigmoid
  | activation .tanh => .tanh
  | softmax => .softmax
  | elementwiseProduct => .elementwiseProduct
  | add _ => .add
  | copy _ | copyInit => .copy
  | subtractFromConst _ => .subtractFromConst
  | addBias => .addToMatrix
  | addBiasConv => .addToImage
  | maxPool .. => .maxPooling
  | transpose => .transpose
  | crossEntropy => .crossEntropy
  | leastSquares => .meanSquaredError
  | accuracy => .classificationAccuracy
  | split .. => .splitData

/-- The numbers that the kernel is told, for operands of the given shapes; `tile` is the timestep
of the output. -/
def numbers (op : Operator α) (a b : Shape) (tile : Nat) : List (ScalarArg α) :=
  match op with
  | matMul | matMulFlat => [.int (op.productRows a), .int b.x, .int (op.contraction a)]
  | conv2d pad stride =>
    [.int a.x, .int a.y, .int b.x, .int b.y, .int b.z, .int b.w, .int (plane a b pad stride).2.2,
      .int stride, .int a.w]
  | activation _ | elementwiseProduct | add _ | copy _ | copyInit => [.int a.elements]
  | softmax | addBias | crossEntropy | leastSquares | accuracy => [.int a.rowElements, .int a.w]
  | subtractFromConst constant => [.float constant, .int a.elements]
  | addBiasConv => [.int (a.x * a.y), .int a.z, .int a.w]
  | maxPool pad stride size =>
    [.int a.x, .int a.y, .int (a.z * a.w), .int stride, .int pad, .int pad, .int size]
  | transpose => [.int a.x, .int a.y]
  | split tileX tileY => [.int tile, .int tileX, .int tileY, .int a.x, .int a.y, .int a.z, .int a.w]

def forwardLaunch (op : Operator α) (a b out : Shape) : Launch :=
  match op with
  | matMul | matMulFlat => .tiled b.x (op.productRows a)
  | conv2d pad stride =>
    .planes (plane a b pad stride).1 (plane a b pad stride).2.1 (b.w * a.w)
  | activation _ | elementwiseProduct | add _ | copy _ | copyInit | subtractFromConst _ | addBias
  | addBiasConv => .elementwise a.elements
  | softmax => .elementwise a.w
  | maxPool .. => .planes out.x out.y (a.z * a.w)
  | transpose => .planes a.x a.y (a.z * a.w)
  | crossEntropy | leastSquares | accuracy => .single
  | split tileX tileY => .planes tileX tileY (a.z * a.w)

def operands (op : Operator α) (w : Wires) : List BufferId :=
  if op.arity = 2 then [w.a, w.b] else [w.a]

def forwardRequest (op : Operator α) (a b out : Shape) (tile : Nat) (w : Wires) : Request α :=
  request op.forwardKernel.name
    ((op.operands w ++ [w.out]).map .buffer ++ (op.numbers a b tile).map .scalar)
    (op.forwardLaunch a b out)

/-! ### The backward pass -/

def backwardRequests (op : Operator α) (a b : Shape) (tile : Nat) (w : Wires) : List (Request α) :=
  match op with
  | matMul | matMulFlat =>
    let rows := op.productRows a
    let k := op.contraction a
    let cols := b.x
    [request "MatrixMulAdd"
        [.buffer w.tmp, .buffer w.gradOut, .buffer w.gradB, .int k, .int cols, .int rows]
        (.tiled cols k),
      request "Transpose" [.buffer w.a, .buffer w.tmp, .int k, .int rows] (.planes k rows 1),
      request "MatrixMulAdd"
        [.buffer w.gradOut, .buffer w.tmp, .buffer w.gradA, .int rows, .int k, .int cols]
        (.tiled k rows),
      request "Transpose" [.buffer w.b, .buffer w.tmp, .int cols, .int k] (.planes cols k 1)]
  | conv2d pad stride =>
    let (outX, outY, cells) := plane a b pad stride
    [request "ConvolutionWeightGrad"
        [.buffer w.a, .buffer w.gradOut, .buffer w.gradB,
          .int a.x, .int a.y, .int outX, .int outY, .int b.x, .int b.y, .int b.z, .int b.w,
          .int cells, .int stride, .int a.w]
        (.planes b.x b.y (b.z * b.w)),
      request "ConvolutionAdd"
        [.buffer w.gradOut, .buffer w.tmp, .buffer w.gradA,
          .int outX, .int outY, .int b.x, .int b.y, .int b.w, .int b.z,
          .signed (b.x - 1 - cells), .signed (b.y - 1 - cells), .int stride, .int a.x, .int a.y,
          .int a.w]
        (.planes a.x a.y (b.z * a.w)),
      request "RotateAndReorder"
        [.buffer w.b, .buffer w.tmp, .int b.x, .int b.y, .int b.z, .int b.w]
        (.planes b.x b.y (b.z * b.w))]
  | activation kind =>
    [request kind.gradKernel
      [.buffer (if kind = .relu then w.a else w.out), .buffer w.gradOut, .buffer w.gradA,
        .int a.elements] (.elementwise a.elements)]
  | softmax =>
    [request "SoftmaxGrad"
      [.buffer w.gradOut, .buffer w.out, .buffer w.gradA, .int a.rowElements, .int a.w]
      (.elementwise a.w)]
  | elementwiseProduct =>
    [request "ElemWiseProductAdd"
        [.buffer w.a, .buffer w.gradOut, .buffer w.gradB, .int a.elements]
        (.elementwise a.elements),
      request "ElemWiseProductAdd"
        [.buffer w.b, .buffer w.gradOut, .buffer w.gradA, .int a.elements]
        (.elementwise a.elements)]
  | add _ =>
    [request "CopyAdd" [.buffer w.gradOut, .buffer w.gradA, .int a.elements]
        (.elementwise a.elements),
      request "CopyAdd" [.buffer w.gradOut, .buffer w.gradB, .int a.elements]
        (.elementwise a.elements)]
  | copy _ | copyInit =>
    [request "CopyAdd" [.buffer w.gradOut, .buffer w.gradA, .int a.elements]
      (.elementwise a.elements)]
  | subtractFromConst _ =>
    [request "SubtractFromConstGrad" [.buffer w.gradOut, .buffer w.gradA, .int a.elements]
      (.elementwise a.elements)]
  | addBias =>
    [request "CopyAdd" [.buffer w.gradOut, .buffer w.gradA, .int a.elements]
        (.elementwise a.elements),
      request "AddToMatrixGrad" [.buffer w.gradOut, .buffer w.gradB, .int a.rowElements, .int a.w]
        (.elementwise a.rowElements)]
  | addBiasConv =>
    [request "CopyAdd" [.buffer w.gradOut, .buffer w.gradA, .int a.elements]
        (.elementwise a.elements),
      request "AddToImageTensorGrad"
        [.buffer w.gradOut, .buffer w.gradB, .int (a.x * a.y), .int a.z, .int a.w]
        (.elementwise a.z)]
  | maxPool pad stride size =>
    [request "MaxPoolingGrad"
      [.buffer w.a, .buffer w.gradOut, .buffer w.gradA, .int a.x, .int a.y, .int (a.z * a.w),
        .int stride, .int pad, .int pad, .int size] (.planes a.x a.y (a.z * a.w))]
  | crossEntropy =>
    [request "CrossEntropyGrad" [.buffer w.a, .buffer w.b, .buffer w.gradA, .int a.rowElements,
      .int a.w] (.elementwise a.w)]
  | leastSquares =>
    [request "MeanSquaredErrorGrad" [.buffer w.a, .buffer w.b, .buffer w.gradA, .int a.elements,
      .int a.w] (.elementwise a.elements)]
  | transpose | accuracy => []
  | split tileX tileY =>
    [request "SplitDataGrad"
      [.buffer w.gradOut, .buffer w.gradA, .int tile, .int tileX, .int tileY, .int a.x, .int a.y,
        .int a.z, .int a.w] (.planes tileX tileY (a.z * a.w))]

/-- All requests of one unroll step; a first slot is written once. -/
def requestsAt (op : Operator α) (a b out : Shape) (tile : Nat) (w : Wires) : Emission α :=
  if op.place = .timestep 0 ∧ tile ≠ 0 then {}
  else ⟨[op.forwardRequest a b out tile w], op.backwardRequests a b tile w⟩

/-! ### What is emitted -/

/-- The tensors have buffers at the cursor, as the wires name them. -/
structure Wired (op : Operator α) (inputs : List Tensor) (output : Tensor) (scratch : List Tensor)
    (w : Wires) : Prop where
  first : ∀ t, inputs[0]? = some t →
    t.forwardBuffer .current = .ok w.a ∧ t.backwardBuffer .current = .ok w.gradA
  second : ∀ t, inputs[1]? = some t →
    t.forwardBuffer .current = .ok w.b ∧ t.backwardBuffer .current = .ok w.gradB
  output : output.forwardBuffer op.place = .ok w.out ∧ output.backwardBuffer op.place = .ok w.gradOut
  scratch : ∀ t, scratch.head? = some t → t.forwardBuffer .current = .ok w.tmp

def secondShape (inputs : List Tensor) : Shape :=
  ((inputs[1]?.or inputs[0]?).map (·.shape)).getD ⟨0, 0, 0, 0⟩

/-- What an emission asks for beside buffers. -/
def Emits (op : Operator α) (a b : Shape) (scratch : List Tensor) : Prop :=
  match op with
  | matMul | matMulFlat => scratch ≠ []
  | conv2d pad stride => scratch ≠ [] ∧ ∃ extents, convolvedPlane a b pad stride = .ok extents
  | elementwiseProduct | add _ => a.elements = b.elements
  | _ => True

section

variable {op : Operator α} {a b output tmp : Tensor} {rest scratch : List Tensor} {w : Wires}

theorem emitProduct_eq (hop : op = .matMul ∨ op = .matMulFlat)
    (wired : op.Wired (a :: b :: rest) output (tmp :: scratch) w) :
    op.emitProduct a b output tmp =
      .ok (op.requestsAt a.shape b.shape output.shape output.cursor w) := by
  obtain ⟨ha, hga⟩ := wired.first a rfl
  obtain ⟨hb, hgb⟩ := wired.second b rfl
  obtain ⟨hout, hgout⟩ := wired.output
  obtain rfl | rfl := hop
  all_goals
    simp only [place] at hout hgout
    simp only [emitProduct, forwardArg, backwardArg, ha, hga, hout, hgout, hb, hgb,
      wired.scratch tmp rfl]
    rfl

theorem emitConvolution_eq {pad : Padding} {stride : Nat} {extents : Nat × Nat × Nat}
    (wired : (conv2d pad stride : Operator α).Wired (a :: b :: rest) output (tmp :: scratch) w)
    (hplane : convolvedPlane a.shape b.shape pad stride = .ok extents) :
    emitConvolution pad stride a b output tmp =
      .ok ((conv2d pad stride : Operator α).requestsAt a.shape b.shape output.shape output.cursor
        w) := by
  obtain ⟨ha, hga⟩ := wired.first a rfl
  obtain ⟨hb, hgb⟩ := wired.second b rfl
  obtain ⟨hout, hgout⟩ := wired.output
  simp only [place] at hout hgout
  simp only [emitConvolution, forwardArg, backwardArg, ha, hga, hout, hgout, hb, hgb,
    wired.scratch tmp rfl, hplane, requestsAt, place, forwardRequest, numbers, forwardLaunch,
    backwardRequests, plane]
  rfl

theorem emitActivation_eq {kind : Activation}
    (wired : (activation kind : Operator α).Wired (a :: rest) output scratch w) (b : Shape) :
    emitActivation kind a output =
      .ok ((activation kind : Operator α).requestsAt a.shape b output.shape output.cursor w) := by
  obtain ⟨ha, hga⟩ := wired.first a rfl
  obtain ⟨hout, hgout⟩ := wired.output
  simp only [place] at hout hgout
  cases kind
  all_goals
    simp only [emitActivation, forwardArg, backwardArg, ha, hga, hout, hgout]
    rfl

theorem emitSoftmax_eq (wired : (softmax : Operator α).Wired (a :: rest) output scratch w)
    (b : Shape) : emitSoftmax a output =
      .ok ((softmax : Operator α).requestsAt a.shape b output.shape output.cursor w) := by
  obtain ⟨ha, hga⟩ := wired.first a rfl
  obtain ⟨hout, hgout⟩ := wired.output
  simp only [place] at hout hgout
  simp only [emitSoftmax, forwardArg, backwardArg, ha, hga, hout, hgout]
  rfl

theorem emitElementwiseProduct_eq
    (wired : (elementwiseProduct : Operator α).Wired (a :: b :: rest) output scratch w)
    (equal : a.shape.elements = b.shape.elements) : emitElementwiseProduct a b output =
      .ok ((elementwiseProduct : Operator α).requestsAt a.shape b.shape output.shape output.cursor
        w) := by
  obtain ⟨ha, hga⟩ := wired.first a rfl
  obtain ⟨hb, hgb⟩ := wired.second b rfl
  obtain ⟨hout, hgout⟩ := wired.output
  simp only [place] at hout hgout
  simp only [emitElementwiseProduct, requireEqualElements, if_pos equal, forwardArg, backwardArg,
    ha, hga, hout, hgout, hb, hgb]
  rfl

theorem emitAdd_eq {time : Int}
    (wired : (add time : Operator α).Wired (a :: b :: rest) output scratch w)
    (equal : a.shape.elements = b.shape.elements) : emitAdd time a b output =
      .ok ((add time : Operator α).requestsAt a.shape b.shape output.shape output.cursor w) := by
  obtain ⟨ha, hga⟩ := wired.first a rfl
  obtain ⟨hb, hgb⟩ := wired.second b rfl
  obtain ⟨hout, hgout⟩ := wired.output
  simp only [place] at hout hgout
  simp only [emitAdd, requireEqualElements, if_pos equal, forwardArg, backwardArg, ha, hga, hout,
    hgout, hb, hgb]
  rfl

theorem emitCopy_eq (wired : op.Wired (a :: rest) output scratch w) (b : Shape)
    (hop : op = .copyInit ∧ output.cursor = 0 ∨ ∃ time, op = .copy time) :
    emitCopy op.place a output =
      .ok (op.requestsAt a.shape b output.shape output.cursor w) := by
  obtain ⟨ha, hga⟩ := wired.first a rfl
  obtain ⟨hout, hgout⟩ := wired.output
  obtain ⟨rfl, hcursor⟩ | ⟨time, rfl⟩ := hop
  · simp only [emitCopy, forwardArg, backwardArg, ha, hga, hout, hgout, requestsAt, hcursor]
    rfl
  · simp only [emitCopy, forwardArg, backwardArg, ha, hga, hout, hgout]
    rfl

theorem emitSubtract_eq {constant : α}
    (wired : (subtractFromConst constant).Wired (a :: rest) output scratch w) (b : Shape) :
    emitSubtract constant a output =
      .ok ((subtractFromConst constant).requestsAt a.shape b output.shape output.cursor w) := by
  obtain ⟨ha, hga⟩ := wired.first a rfl
  obtain ⟨hout, hgout⟩ := wired.output
  simp only [place] at hout hgout
  simp only [emitSubtract, forwardArg, backwardArg, ha, hga, hout, hgout]
  rfl

theorem emitBias_eq (wired : (addBias : Operator α).Wired (a :: b :: rest) output scratch w) :
    emitBias a b output =
      .ok ((addBias : Operator α).requestsAt a.shape b.shape output.shape output.cursor w) := by
  obtain ⟨ha, hga⟩ := wired.first a rfl
  obtain ⟨hb, hgb⟩ := wired.second b rfl
  obtain ⟨hout, hgout⟩ := wired.output
  simp only [place] at hout hgout
  simp only [emitBias, forwardArg, backwardArg, ha, hga, hout, hgout, hb, hgb]
  rfl

theorem emitImageBias_eq
    (wired : (addBiasConv : Operator α).Wired (a :: b :: rest) output scratch w) :
    emitImageBias a b output =
      .ok ((addBiasConv : Operator α).requestsAt a.shape b.shape output.shape output.cursor w) := by
  obtain ⟨ha, hga⟩ := wired.first a rfl
  obtain ⟨hb, hgb⟩ := wired.second b rfl
  obtain ⟨hout, hgout⟩ := wired.output
  simp only [place] at hout hgout
  simp only [emitImageBias, forwardArg, backwardArg, ha, hga, hout, hgout, hb, hgb]
  rfl

theorem emitPooling_eq {pad stride size : Nat}
    (wired : (maxPool pad stride size : Operator α).Wired (a :: rest) output scratch w)
    (b : Shape) : emitPooling pad stride size a output =
      .ok ((maxPool pad stride size : Operator α).requestsAt a.shape b output.shape output.cursor
        w) := by
  obtain ⟨ha, hga⟩ := wired.first a rfl
  obtain ⟨hout, hgout⟩ := wired.output
  simp only [place] at hout hgout
  simp only [emitPooling, forwardArg, backwardArg, ha, hga, hout, hgout]
  rfl

theorem emitTranspose_eq (wired : (transpose : Operator α).Wired (a :: rest) output scratch w)
    (b : Shape) : emitTranspose a output =
      .ok ((transpose : Operator α).requestsAt a.shape b output.shape output.cursor w) := by
  have hout := wired.output.1
  simp only [place] at hout
  simp only [emitTranspose, forwardArg, (wired.first a rfl).1, hout]
  rfl

theorem emitCrossEntropy_eq
    (wired : (crossEntropy : Operator α).Wired (a :: b :: rest) output scratch w) :
    emitCrossEntropy a b output =
      .ok ((crossEntropy : Operator α).requestsAt a.shape b.shape output.shape output.cursor w) := by
  obtain ⟨ha, hga⟩ := wired.first a rfl
  have hout := wired.output.1
  simp only [place] at hout
  simp only [emitCrossEntropy, reductionRequest, lossGradient, forwardArg, backwardArg, ha, hga,
    hout, (wired.second b rfl).1]
  rfl

theorem emitLeastSquares_eq
    (wired : (leastSquares : Operator α).Wired (a :: b :: rest) output scratch w) :
    emitLeastSquares a b output =
      .ok ((leastSquares : Operator α).requestsAt a.shape b.shape output.shape output.cursor w) := by
  obtain ⟨ha, hga⟩ := wired.first a rfl
  have hout := wired.output.1
  simp only [place] at hout
  simp only [emitLeastSquares, reductionRequest, lossGradient, forwardArg, backwardArg, ha, hga,
    hout, (wired.second b rfl).1]
  rfl

theorem emitAccuracy_eq
    (wired : (accuracy : Operator α).Wired (a :: b :: rest) output scratch w) :
    emitAccuracy a b output =
      .ok ((accuracy : Operator α).requestsAt a.shape b.shape output.shape output.cursor w) := by
  have hout := wired.output.1
  simp only [place] at hout
  simp only [emitAccuracy, reductionRequest, forwardArg, (wired.first a rfl).1, hout,
    (wired.second b rfl).1]
  rfl

theorem emitSplit_eq {tileX tileY : Nat}
    (wired : (split tileX tileY : Operator α).Wired (a :: rest) output scratch w) (b : Shape) :
    emitSplit tileX tileY a output =
      .ok ((split tileX tileY : Operator α).requestsAt a.shape b output.shape output.cursor w) := by
  obtain ⟨ha, hga⟩ := wired.first a rfl
  obtain ⟨hout, hgout⟩ := wired.output
  simp only [place] at hout hgout
  simp only [emitSplit, forwardArg, backwardArg, ha, hga, hout, hgout]
  rfl

theorem rest_cases (arity : (a :: rest).length = op.arity) : rest = [] ∨ ∃ b, rest = [b] := by
  match rest with
  | [] => exact .inl rfl
  | [b] => exact .inr ⟨b, rfl⟩
  | b :: c :: l => cases op <;> simp [Operator.arity] at arity

theorem requestsAt_copyInit {cursor : Nat} (h : cursor ≠ 0) (x y z : Shape) :
    (copyInit : Operator α).requestsAt x y z cursor w = {} :=
  if_pos ⟨rfl, h⟩

theorem emit_of_emits (wired : op.Wired (a :: rest) output scratch w)
    (arity : (a :: rest).length = op.arity)
    (h : op.Emits a.shape (secondShape (a :: rest)) scratch) :
    op.emit (a :: rest) output scratch =
      .ok (op.requestsAt a.shape (secondShape (a :: rest)) output.shape output.cursor w) := by
  obtain rfl | ⟨b, rfl⟩ := rest_cases arity
  · cases op with
    | activation => exact emitActivation_eq wired _
    | softmax => exact emitSoftmax_eq wired _
    | copy time => exact emitCopy_eq wired _ (.inr ⟨time, rfl⟩)
    | subtractFromConst => exact emitSubtract_eq wired _
    | maxPool => exact emitPooling_eq wired _
    | transpose => exact emitTranspose_eq wired _
    | split => exact emitSplit_eq wired _
    | copyInit =>
      by_cases hcursor : output.cursor = 0
      · exact (if_pos hcursor).trans (emitCopy_eq wired _ (.inl ⟨rfl, hcursor⟩))
      · rw [requestsAt_copyInit hcursor]
        exact if_neg hcursor
    | _ => simp [Operator.arity] at arity
  · cases op with
    | matMul =>
      obtain ⟨tmp, l, rfl⟩ := List.exists_cons_of_ne_nil h
      exact emitProduct_eq (.inl rfl) wired
    | matMulFlat =>
      obtain ⟨tmp, l, rfl⟩ := List.exists_cons_of_ne_nil h
      exact emitProduct_eq (.inr rfl) wired
    | conv2d pad stride =>
      obtain ⟨hs, extents, hplane⟩ := h
      obtain ⟨tmp, l, rfl⟩ := List.exists_cons_of_ne_nil hs
      exact emitConvolution_eq wired hplane
    | elementwiseProduct => exact emitElementwiseProduct_eq wired h
    | add => exact emitAdd_eq wired h
    | addBias => exact emitBias_eq wired
    | addBiasConv => exact emitImageBias_eq wired
    | crossEntropy => exact emitCrossEntropy_eq wired
    | leastSquares => exact emitLeastSquares_eq wired
    | accuracy => exact emitAccuracy_eq wired
    | _ => simp [Operator.arity] at arity

end

theorem emits_of_ok {op : Operator α} {a output : Tensor} {rest scratch : List Tensor}
    {e : Emission α} (arity : (a :: rest).length = op.arity)
    (h : op.emit (a :: rest) output scratch = .ok e) :
    op.Emits a.shape (secondShape (a :: rest)) scratch := by
  obtain rfl | ⟨b, rfl⟩ := rest_cases arity
  · cases op <;> simp [Operator.arity] at arity <;> trivial
  · cases op with
    | matMul =>
      rintro rfl
      cases h
    | matMulFlat =>
      rintro rfl
      cases h
    | conv2d pad stride =>
      obtain rfl | ⟨tmp, l, rfl⟩ : scratch = [] ∨ ∃ tmp l, scratch = tmp :: l := by
        cases scratch <;> simp
      · cases h
      · change emitConvolution pad stride a b output tmp = .ok e at h
        simp only [emitConvolution, Except.bind_ok_iff] at h
        obtain ⟨extents, hp, -⟩ := h
        exact ⟨by simp, extents, hp⟩
    | elementwiseProduct =>
      change emitElementwiseProduct a b output = .ok e at h
      simp only [emitElementwiseProduct, Except.bind_ok_iff, requireEqualElements] at h
      obtain ⟨u, he, -⟩ := h
      change a.shape.elements = b.shape.elements
      by_contra hne
      rw [if_neg hne] at he
      cases he
    | add timeResult =>
      change emitAdd timeResult a b output = .ok e at h
      simp only [emitAdd, Except.bind_ok_iff, requireEqualElements] at h
      obtain ⟨u, he, -⟩ := h
      change a.shape.elements = b.shape.elements
      by_contra hne
      rw [if_neg hne] at he
      cases he
    | _ => trivial

theorem emit_eq {op : Operator α} {a output : Tensor} {rest scratch : List Tensor} {w : Wires}
    {e : Emission α} (wired : op.Wired (a :: rest) output scratch w)
    (arity : (a :: rest).length = op.arity) (h : op.emit (a :: rest) output scratch = .ok e) :
    e = op.requestsAt a.shape (secondShape (a :: rest)) output.shape output.cursor w := by
  rw [emit_of_emits wired arity (emits_of_ok arity h)] at h
  cases h
  rfl

end Operator

end Backprop
