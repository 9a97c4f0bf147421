import Backprop.Model.Layer

/-! Classifiers: networks with an input, labels, class probabilities, a loss and an
accuracy. -/

namespace Backprop

structure Classifier where
  input : TensorId
  labels : TensorId
  probabilities : TensorId
  loss : TensorId
  accuracy : TensorId
  parameters : List TensorId
deriving DecidableEq, Repr

namespace Classifier

variable {α : Type}

/-- Softmax, cross entropy and accuracy on top of the logits. -/
def finish (input labels logits : TensorId) (parameters : List TensorId) :
    Network.Call α Classifier := do
  let probabilities ← Network.addOperator .softmax [logits] 0
  let loss ← Network.addOperator .crossEntropy [probabilities, labels] 0
  let accuracy ← Network.addOperator .accuracy [probabilities, labels] 0
  return { input, labels, probabilities, loss, accuracy, parameters }

/-- Dense layers from `width` elements on, the first of them number `layer`, with
rectifiers between them. Answers the last output and all parameters. -/
def denseLayers (layer width : Nat) (x : TensorId) :
    List Nat → Network.Call α (TensorId × List TensorId)
  | [] => return (x, [])
  | next :: rest => do
    let w ← Network.createParameter ⟨next, width, 1, 1⟩ 1
    let b ← Network.createParameter ⟨next, 1, 1, 1⟩ 1
    Network.nameTensor w s!"fc{layer}.w"
    Network.nameTensor b s!"fc{layer}.b"
    Network.initWeight w (.xavier 0)
    Network.initWeight b (.constant 0)
    let y ← Network.dense x w b
    let y ← if rest.isEmpty then pure y else Network.addOperator (.activation .relu) [y] 0
    let (last, parameters) ← denseLayers (layer + 1) next y rest
    return (last, w :: b :: parameters)

def perceptron (inputShape : Shape) (sizes : List Nat) : Network.Call α Classifier := do
  match sizes with
  | first :: second :: rest =>
    if first ≠ inputShape.rowElements then
      throw (.badLayerSizes sizes inputShape.rowElements)
    let input ← Network.createInput inputShape 1
    let labels ← Network.createInput ⟨1, 1, 1, 1⟩ 1
    let (logits, parameters) ← denseLayers 1 first input (second :: rest)
    finish input labels logits parameters
  | _ => throw (.badLayerSizes sizes inputShape.rowElements)

/-- Two convolutions with pooling, a hidden layer of 1024 units and ten classes, for
images of 28 by 28. -/
def convolutional : Network.Call α Classifier := do
  let kernelInit := Initializer.truncated 0 0.1
  let biasInit := Initializer.constant 0.1
  let input ← Network.createInput ⟨28, 28, 1, 1⟩ 1
  let labels ← Network.createInput ⟨1, 1, 1, 1⟩ 1
  let k₁ ← Network.createNamed "conv1.k" ⟨3, 3, 1, 32⟩ kernelInit
  let b₁ ← Network.createNamed "conv1.b" ⟨32, 1, 1, 1⟩ biasInit
  let x ← Network.convBlock input k₁ b₁ .same
  let x ← Network.maxPool x 2
  let k₂ ← Network.createNamed "conv2.k" ⟨3, 3, 32, 64⟩ kernelInit
  let b₂ ← Network.createNamed "conv2.b" ⟨64, 1, 1, 1⟩ biasInit
  let x ← Network.convBlock x k₂ b₂ .same
  let x ← Network.maxPool x 2
  let w₃ ← Network.createNamed "fc1.w" ⟨1024, 7 * 7 * 64, 1, 1⟩ (.xavier 0)
  let b₃ ← Network.createNamed "fc1.b" ⟨1024, 1, 1, 1⟩ biasInit
  let x ← Network.dense x w₃ b₃
  let x ← Network.addOperator (.activation .relu) [x] 0
  let w₄ ← Network.createNamed "fc2.w" ⟨10, 1024, 1, 1⟩ (.xavier 0)
  let b₄ ← Network.createNamed "fc2.b" ⟨10, 1, 1, 1⟩ biasInit
  let logits ← Network.dense x w₄ b₄
  finish input labels logits [k₁, b₁, k₂, b₂, w₃, b₃, w₄, b₄]

end Classifier

end Backprop
