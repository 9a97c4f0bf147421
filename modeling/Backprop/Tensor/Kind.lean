/-! What a tensor is for, and how much storage that takes. -/

namespace Backprop

inductive Access where
  | readOnly
  | writeOnly
  | readWrite
deriving DecidableEq, Repr

inductive TensorKind where
  /-- Written by the host, read by kernels. -/
  | input
  /-- The output of an operator, one slot for each timestep. -/
  | intermediate
  /-- Trained weights: one slot, whatever the batch. -/
  | parameter
  /-- As `intermediate`, with a slot more for the state before the first timestep. -/
  | recurrent
  /-- A forward buffer that operators share. -/
  | scratch
deriving DecidableEq, Repr, Inhabited

namespace TensorKind

def slotCount : TensorKind → (sequence : Nat) → Nat
  | parameter, _ | scratch, _ => 1
  | recurrent, sequence => sequence + 1
  | input, sequence | intermediate, sequence => sequence

def hasBackward : TensorKind → Bool
  | scratch => false
  | _ => true

def followsBatch : TensorKind → Bool
  | parameter | scratch => false
  | _ => true

def forwardAccess : TensorKind → Access
  | input => .readOnly
  | _ => .readWrite

instance : ToString TensorKind where
  toString
    | input => "Input"
    | intermediate => "Intermediate"
    | parameter => "Parameter"
    | recurrent => "RecurrentState"
    | scratch => "Scratch"

end TensorKind

end Backprop
