import Backprop.Operator.Emission

/-! Update rules: the dispatches that move one parameter along its gradient. -/

namespace Backprop

inductive Optimizer (α : Type) where
  | gradientDescent (alpha : α)
  | adam (alpha beta₁ beta₂ epsilon : α)
deriving DecidableEq

namespace Optimizer

variable {α : Type}

def name : Optimizer α → String
  | gradientDescent _ => "sgd"
  | adam .. => "adam"

def defaultAlpha : Binary32 := 0.001
def defaultBeta₁ : Binary32 := 0.9
def defaultBeta₂ : Binary32 := 0.999
def defaultEpsilon : Binary32 := 1e-8

def adamAt (alpha : Binary32) : Optimizer Binary32 :=
  adam alpha defaultBeta₁ defaultBeta₂ defaultEpsilon

def auxiliaryCount : Optimizer α → Nat
  | gradientDescent _ => 0
  | adam .. => 2

/-- The argument of an Adam dispatch that counts the steps. -/
def stepArgument : Nat := 9

def requests (o : Optimizer α) (parameter : Tensor) : Except Error (List (Request α)) := do
  let n := parameter.shape.elements
  let gradient ← parameter.backwardBuffer .current
  match o with
  | gradientDescent alpha =>
    let weight ← parameter.forwardBuffer .current
    return [{
      kernel := "GradientDescent"
      args := [.buffer gradient, .buffer weight, .float alpha, .int n]
      launch := .elementwise n }]
  | adam alpha beta₁ beta₂ epsilon =>
    let first ← parameter.forwardBuffer (.timestep 0)
    let second ← parameter.forwardBuffer (.timestep 1)
    let weight ← parameter.forwardBuffer .current
    return [{
      kernel := "Adam"
      args := [.buffer gradient, .buffer first, .buffer second, .buffer weight,
        .float alpha, .float beta₁, .float beta₂, .float epsilon, .int n, .int 1]
      launch := .elementwise n
      increment := some stepArgument }]

end Optimizer

end Backprop
