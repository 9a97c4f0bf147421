import Backprop.Backend.Basic

/-! Tensors: a forward and a backward buffer with one slot for each timestep, and a
cursor that walks over the timesteps. -/

namespace Backprop

structure TensorId where
  index : Nat
deriving DecidableEq, Repr, Inhabited

structure OperatorId where
  index : Nat
deriving DecidableEq, Repr, Inhabited

/-- A buffer and its slots; there is no base before storage is made. -/
structure Storage where
  base : Option BufferId := none
  slots : Array BufferId := #[]
deriving DecidableEq, Repr, Inhabited

structure Tensor where
  kind : TensorKind
  shape : Shape
  sequence : Nat
  timeOffset : Nat := 0
  cursor : Nat := 0
  name : Option String := none
  producer : Option OperatorId := none
  consumers : List OperatorId := []
  forward : Storage := {}
  backward : Storage := {}
  auxiliary : Array BufferId := #[]
deriving DecidableEq, Repr, Inhabited

/-- The two buffers of a tensor. -/
inductive Side where
  | forward
  | backward
deriving DecidableEq, Repr

def Side.name : Side → String
  | forward => "forward"
  | backward => "backward"

/-- Which slot of a buffer is meant. -/
inductive SlotChoice where
  | current
  | shifted (steps : Int)
  | timestep (t : Nat)
deriving DecidableEq, Repr

namespace Tensor

variable {α : Type}

def ofKind (kind : TensorKind) (shape : Shape) (sequence : Nat) : Tensor :=
  { kind, shape, sequence := max sequence 1 }

/-- The first operator that writes a tensor stays its producer. -/
def withProducer (t : Tensor) (op : OperatorId) : Tensor :=
  { t with producer := t.producer <|> some op }

def withConsumer (t : Tensor) (op : OperatorId) : Tensor :=
  if op ∈ t.consumers then t else { t with consumers := t.consumers ++ [op] }

def slotCount (t : Tensor) : Nat := t.kind.slotCount t.sequence

def isInstantiated (t : Tensor) : Bool := t.forward.base.isSome

/-- Parameters and scratch keep their shape, whatever the batch. -/
def withBatch (t : Tensor) (batch : Nat) : Tensor :=
  if t.kind.followsBatch then { t with shape := t.shape.withRows (max batch 1) } else t

/-- Room for at least `elements`. -/
def grow (t : Tensor) (elements : Nat) : Tensor :=
  if t.shape.elements < elements then { t with shape := ⟨elements, 1, 1, 1⟩ } else t

def advance (t : Tensor) : Tensor := { t with cursor := (t.cursor + 1) % t.sequence }

def rewind (t : Tensor) : Tensor := { t with cursor := 0 }

/-- The slot at the cursor; a single slot serves every timestep. -/
def currentSlot (t : Tensor) : Nat :=
  match t.kind with
  | .parameter | .scratch => 0
  | _ => t.cursor

/-- The slot some steps away from the cursor, around the end. -/
def shiftedSlot (t : Tensor) (steps : Int) : Nat :=
  (((t.currentSlot : Int) + steps) % (t.slotCount : Int)).toNat

def storage (t : Tensor) : Side → Storage
  | .forward => t.forward
  | .backward => t.backward

/-- A slot of one side. -/
def slot (t : Tensor) (side : Side) (index : Nat) : Except Error BufferId :=
  let storage := t.storage side
  if storage.base.isNone then .error .notInitialized
  else match storage.slots[index]? with
    | some h => .ok h
    | none => .error (.noSlot side.name index storage.slots.size)

/-- Forward storage; a parameter has auxiliary buffers in place of timesteps. -/
def forwardBuffer (t : Tensor) (choice : SlotChoice) : Except Error BufferId :=
  match choice with
  | .current => t.slot .forward t.currentSlot
  | .shifted steps => t.slot .forward (t.shiftedSlot steps)
  | .timestep index =>
    if t.kind = .parameter then
      match t.auxiliary[index]? with
      | some h => .ok h
      | none => .error (.noAuxiliary index t.auxiliary.size)
    else t.slot .forward index

def backwardBuffer (t : Tensor) (choice : SlotChoice) : Except Error BufferId :=
  if t.kind.hasBackward then
    match choice with
    | .current => t.slot .backward t.currentSlot
    | .shifted steps => t.slot .backward (t.shiftedSlot steps)
    | .timestep index => t.slot .backward index
  else .error .noBackward

def buffer (t : Tensor) : Side → SlotChoice → Except Error BufferId
  | .forward => t.forwardBuffer
  | .backward => t.backwardBuffer

end Tensor

namespace Storage

variable {α : Type} [Zero α]

/-- A base buffer of `count` slots, and a buffer for each of them. -/
def allocate (bytes : Nat) (access : Access) (count : Nat) : Backend.Call α Storage := do
  let base ← Backend.create bytes access count
  let slots ← (List.range count).mapM (Backend.createSub base bytes access)
  return { base, slots := slots.toArray }

/-- Zeroes every slot. -/
def zero (s : Storage) : Backend.Call α Unit := do
  if let some base := s.base then
    let whole ← ofExcept ((← get).buffer base)
    Backend.zero base 0 whole.bytes

end Storage

namespace Tensor

variable {α : Type} [Zero α]

/-- Makes the storage of a tensor; a parameter gets `auxiliary` buffers of its size too. -/
def instantiate (t : Tensor) (auxiliary : Nat) : Backend.Call α Tensor := do
  if t.isInstantiated then throw .instantiatedTwice
  let bytes := t.shape.bytes
  let forward ← Storage.allocate bytes t.kind.forwardAccess t.slotCount
  let backward ← if t.kind.hasBackward then Storage.allocate bytes .readWrite t.slotCount
    else pure {}
  let extra ← if t.kind = .parameter then
      (List.range auxiliary).mapM fun _ => Backend.create bytes .readWrite 1
    else pure []
  return { t with forward, backward, auxiliary := extra.toArray }

/-- Zeroes what a batch leaves behind: gradients, and the history of a recurrent state. -/
def clear (t : Tensor) : Backend.Call α Unit :=
  match t.kind with
  | .scratch => pure ()
  | .recurrent => do
    t.forward.zero
    t.backward.zero
  | _ => t.backward.zero

/-- Zeroes every slot of both sides. -/
def clearAll (t : Tensor) : Backend.Call α Unit := do
  t.forward.zero
  t.backward.zero

end Tensor

end Backprop
