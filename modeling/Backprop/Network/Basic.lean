import Backprop.Initializer
import Backprop.Optimizer

/-! Networks: tensors, operators that join them, and the backend they are compiled for. -/

namespace Backprop

structure NetworkConfig where
  /-- Whether ranges and dispatches are checked when they are given. -/
  validate : Bool := true
  /-- What the generator of the initializers starts from. -/
  seed : UInt64 := 99
  /-- Whether the runs of each pass are counted. -/
  profile : Bool := false
deriving DecidableEq, Repr

/-- An operator with its tensors, and where its dispatches stand in the lists. -/
structure Node (α : Type) where
  op : Operator α
  inputs : List TensorId
  output : TensorId
  timeOffset : Nat
  scratch : List TensorId := []
  forward : List Nat := []
  backward : List Nat := []

inductive Stage where
  | building
  | compiled
  | failed
deriving DecidableEq, Repr

structure Network (α : Type) where
  backend : Backend α
  config : NetworkConfig
  generator : Generator
  tensors : Array Tensor := #[]
  nodes : Array (Node α) := #[]
  scratch : List TensorId := []
  optimizer : Option (Optimizer α) := none
  initializers : List (TensorId × Initializer) := []
  maxSequence : Nat := 1
  batch : Nat := 1
  /-- Elements of the largest tensor that was there when compilation began. -/
  staging : Nat := 0
  stage : Stage := .building
  runs : Option (PerPass Nat) := none

namespace Network

variable {α β : Type}

abbrev Call (α β : Type) := EStateM Error (Network α) β

def new (backend : Backend α) (config : NetworkConfig) : Network α where
  backend := { backend with validation := config.validate }
  config := config
  generator := .ofSeed config.seed
  runs := if config.profile then some (.replicate 0) else none

def onBackend (call : Backend.Call α β) : Call α β := fun n =>
  match call n.backend with
  | .ok b backend => .ok b { n with backend }
  | .error e backend => .error e { n with backend }

def tensor (n : Network α) (id : TensorId) : Except Error Tensor :=
  match n.tensors[id.index]? with
  | some t => .ok t
  | none => .error (.unknownTensor id.index)

def shape (n : Network α) (id : TensorId) : Except Error Shape := (n.tensor id).map (·.shape)

/-- Positions of the dispatches of an operator in the forward and the backward list. -/
def operatorDispatches (n : Network α) (id : OperatorId) : Except Error (List Nat × List Nat) :=
  match n.nodes[id.index]? with
  | some node => .ok (node.forward, node.backward)
  | none => .error (.unknownOperator id.index)

def parameters (n : Network α) : List TensorId :=
  ((List.range n.tensors.size).filter fun i => n.tensors[i]?.any (·.kind == .parameter)).map (⟨·⟩)

def requireBuilding : Call α Unit := do
  if (← get).stage ≠ .building then throw .alreadyCompiled

def requireCompiled : Call α Unit := do
  if (← get).stage ≠ .compiled then throw .notInitialized

def modifyTensor (id : TensorId) (f : Tensor → Tensor) : Call α Unit :=
  modify fun n => { n with tensors := n.tensors.modify id.index f }

/-! ### Construction -/

def create (kind : TensorKind) (shape : Shape) (sequence : Nat) : Call α TensorId := do
  requireBuilding
  if shape.elements = 0 then throw (.emptyDimension shape)
  let t := Tensor.ofKind kind shape sequence
  let n ← get
  set { n with tensors := n.tensors.push t, maxSequence := max n.maxSequence t.sequence }
  return ⟨n.tensors.size⟩

def createInput : Shape → Nat → Call α TensorId := create .input

def createState : Shape → Nat → Call α TensorId := create .recurrent

def createParameter : Shape → Nat → Call α TensorId := create .parameter

def nameTensor (id : TensorId) (name : String) : Call α Unit := do
  if name.isEmpty || name.toList.contains '\n' then throw (.badTensorName name)
  discard <| ofExcept ((← get).tensor id)
  modifyTensor id ({ · with name := some name })

def outputShape (n : Network α) (op : Operator α) (inputs : List TensorId) : Except Error Shape := do
  op.outputShape (← inputs.mapM n.shape)

def link (op : Operator α) (inputs : List TensorId) (output : TensorId) (timeOffset : Nat) :
    Call α Unit := do
  let id : OperatorId := ⟨(← get).nodes.size⟩
  inputs.forM fun input => modifyTensor input (·.withConsumer id)
  modifyTensor output fun t => { t with timeOffset }.withProducer id
  modify fun n => { n with nodes := n.nodes.push { op, inputs, output, timeOffset } }

def addOperator (op : Operator α) (inputs : List TensorId) (timeOffset : Nat) :
    Call α TensorId := do
  requireBuilding
  let n ← get
  let shape ← ofExcept (n.outputShape op inputs)
  let bound ← ofExcept (inputs.mapM n.tensor)
  let output ← create .intermediate shape (op.sequenceLength bound)
  link op inputs output timeOffset
  return output

/-- Adds an operator that writes a tensor which is there already. -/
def addOperatorInto (op : Operator α) (inputs : List TensorId) (result : TensorId)
    (timeOffset : Nat) : Call α TensorId := do
  requireBuilding
  let n ← get
  let shape ← ofExcept (n.outputShape op inputs)
  let target ← ofExcept (n.shape result)
  if shape.rowElements ≠ target.rowElements then throw (.targetMismatch op.name shape target)
  link op inputs result timeOffset
  return result

def setOptimizer (o : Optimizer α) : Call α Unit := do
  requireBuilding
  modify fun n => { n with optimizer := some o }

def initWeight (target : TensorId) (init : Initializer) : Call α Unit := do
  requireBuilding
  let t ← ofExcept ((← get).tensor target)
  if t.kind ≠ .parameter then throw (.initializedNonParameter t.kind target.index)
  modify fun n => { n with initializers := n.initializers ++ [(target, init)] }

end Network

end Backprop
