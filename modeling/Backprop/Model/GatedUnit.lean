import Backprop.Model.Layer

/-! A gated recurrent unit: an update gate chooses between the old state and a candidate,
which a reset gate lets see the old state. -/

namespace Backprop

/-- Weights on the input and on the state, and the bias, of one gate. -/
structure GateParams where
  u : TensorId
  w : TensorId
  b : TensorId
deriving DecidableEq, Repr

structure GatedUnit where
  z : GateParams
  r : GateParams
  h : GateParams
deriving DecidableEq, Repr

namespace GatedUnit

variable {α : Type}

def toList (p : GatedUnit) : List TensorId :=
  [p.z, p.r, p.h].flatMap fun gate => [gate.u, gate.w, gate.b]

def createGate (scope gate : String) (input hidden : Nat) : Network.Call α GateParams := do
  let u ← Network.createParameter ⟨hidden, input, 1, 1⟩ 1
  let w ← Network.createParameter ⟨hidden, hidden, 1, 1⟩ 1
  let b ← Network.createParameter ⟨hidden, 1, 1, 1⟩ 1
  Network.nameTensor u s!"{scope}.u_{gate}"
  Network.nameTensor w s!"{scope}.w_{gate}"
  Network.nameTensor b s!"{scope}.b_{gate}"
  Network.initWeight u (.xavier 0)
  Network.initWeight w (.xavier 0)
  Network.initWeight b (.constant 0)
  return ⟨u, w, b⟩

/-- Parameters for `input` elements a row and a state of `hidden` units. -/
def create (scope : String) (input hidden : Nat) : Network.Call α GatedUnit := do
  let z ← createGate scope "z" input hidden
  let r ← createGate scope "r" input hidden
  let h ← createGate scope "h" input hidden
  return ⟨z, r, h⟩

def gate (a s : TensorId) (p : GateParams) (activation : Activation) : Network.Call α TensorId := do
  let fromInput ← Network.addOperator .matMulFlat [a, p.u] 0
  let fromState ← Network.addOperator .matMul [s, p.w] 0
  let sum ← Network.addOperator (.add 0) [fromInput, fromState] 0
  let biased ← Network.addOperator .addBias [sum, p.b] 0
  Network.addOperator (.activation activation) [biased] 0

/-- One step over the input `a` and the state `s`. The new state is the answer, and is
copied into `s` one timestep on, after all that reads the old one. -/
def step [One α] (a s : TensorId) (p : GatedUnit) : Network.Call α TensorId := do
  let z ← gate a s p.z .sigmoid
  let r ← gate a s p.r .sigmoid
  let gated ← Network.addOperator .elementwiseProduct [s, r] 0
  let h ← gate a gated p.h .tanh
  let keep ← Network.addOperator (.subtractFromConst 1) [z] 0
  let fresh ← Network.addOperator .elementwiseProduct [keep, h] 0
  let carried ← Network.addOperator .elementwiseProduct [z, s] 0
  let next ← Network.addOperator (.add 0) [fresh, carried] 0
  discard <| Network.addOperatorInto (.copy 1) [next] s 0
  return next

end GatedUnit

end Backprop
