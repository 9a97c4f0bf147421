import Backprop.Network.Basic

/-! Layers made of several operators. -/

namespace Backprop.Network

variable {α : Type}

def dense (x w b : TensorId) : Call α TensorId := do
  let y ← addOperator .matMulFlat [x, w] 0
  addOperator .addBias [y, b] 0

def convBlock (x kernel bias : TensorId) (pad : Padding) : Call α TensorId := do
  let y ← addOperator (.conv2d pad 1) [x, kernel] 0
  let y ← addOperator .addBiasConv [y, bias] 0
  addOperator (.activation .relu) [y] 0

def maxPool (x : TensorId) (size : Nat) : Call α TensorId := addOperator (.maxPool 0 size size) [x] 0

def copyInit (a s : TensorId) : Call α TensorId := addOperatorInto .copyInit [a] s 0

def createNamed (name : String) (shape : Shape) (init : Initializer) : Call α TensorId := do
  let id ← createParameter shape 1
  nameTensor id name
  initWeight id init
  return id

end Backprop.Network
