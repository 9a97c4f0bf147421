import Backprop.Network.Basic

/-! Compilation: a graph becomes storage and three dispatch lists. The forward and the
backward list hold, for each unroll step and then for each operator in the order of
registration, what the operator emits at that step. -/

namespace Backprop.Network

variable {α : Type}

/-- Outputs of losses and metrics, which keep their single value whatever the batch. -/
def reducedOutputs (n : Network α) : List TensorId :=
  (n.nodes.toList.filter (·.op.reducesBatch)).map (·.output)

/-- Every tensor that follows the batch gets its rows, and the staging area becomes as
large as the largest tensor. -/
def applyBatch (batch : Nat) : Call α Unit := do
  let n ← get
  let reduced := n.reducedOutputs
  let tensors := n.tensors.mapIdx fun i t => if ⟨i⟩ ∈ reduced then t else t.withBatch batch
  let staging := tensors.foldl (fun largest t => max largest t.shape.elements) 0
  ofExcept (requireRoom staging 4)
  set { n with batch, tensors, staging }

def pointwiseMax : List Nat → List Nat → List Nat
  | [], bs => bs
  | as, [] => as
  | a :: as, b :: bs => max a b :: pointwiseMax as bs

/-- Scratch elements that a node needs. -/
def nodeScratch (n : Network α) (node : Node α) : Except Error (List Nat) := do
  return node.op.scratchElements (← node.inputs.mapM n.shape)

/-- Adds the scratch tensors: one for each place, as large as the largest need for it. -/
def planScratch : Call α Unit := do
  let n ← get
  let needs ← ofExcept (n.nodes.toList.mapM n.nodeScratch)
  let sizes := needs.foldl pointwiseMax []
  let added := sizes.map fun elements => (Tensor.ofKind .scratch ⟨1, 1, 1, 1⟩ 1).grow elements
  let ids := (List.range sizes.length).map fun k => (⟨n.tensors.size + k⟩ : TensorId)
  let nodes := n.nodes.mapIdx fun i node =>
    { node with scratch := ids.take ((needs[i]?.map (·.length)).getD 0) }
  set { n with tensors := n.tensors ++ added.toArray, scratch := n.scratch ++ ids, nodes }

def instantiateTensor [Zero α] (auxiliary index : Nat) : Call α Unit := do
  if let some t := (← get).tensors[index]? then
    let t ← onBackend (t.instantiate auxiliary)
    modifyTensor ⟨index⟩ fun _ => t

def instantiateAll [Zero α] : Call α Unit := do
  let n ← get
  let auxiliary := (n.optimizer.map (·.auxiliaryCount)).getD 0
  (List.range n.tensors.size).forM (instantiateTensor auxiliary)

def Node.isActive (node : Node α) (output : Tensor) (step : Nat) : Bool :=
  step < output.sequence && node.timeOffset ≤ step

/-- What a node emits while every cursor stands at an unroll step. -/
def emission (n : Network α) (node : Node α) (step : Nat) : Except Error (Emission α) := do
  let output ← n.tensor node.output
  if Node.isActive node output step then
    node.op.emit (← node.inputs.mapM n.tensor) output (← node.scratch.mapM n.tensor)
  else return {}

/-- Submits requests in order, and answers their positions. -/
def submitAll (requests : List (Request α)) (pass : Pass) : Call α (List Nat) :=
  requests.mapM fun r => onBackend (Backend.submit r pass)

/-- Submits what the node at an index emits at a step. -/
def emitNode (step index : Nat) : Call α Unit := do
  let n ← get
  if let some node := n.nodes[index]? then
    let emission ← ofExcept (n.emission node step)
    let forward ← submitAll emission.forward .forward
    let backward ← submitAll emission.backward .backward
    modify fun n => { n with nodes := n.nodes.modify index fun node =>
      { node with forward := node.forward ++ forward, backward := node.backward ++ backward } }

def emitStep (step : Nat) : Call α Unit := do
  (List.range (← get).nodes.size).forM (emitNode step)
  modify fun n => { n with tensors := n.tensors.map (·.advance) }

def emitAll : Call α Unit := do
  (List.range (← get).maxSequence).forM emitStep
  modify fun n => { n with tensors := n.tensors.map (·.rewind) }

/-- Submits the update of every parameter, where there is a rule for it. -/
def emitUpdates : Call α Unit := do
  let n ← get
  if let some o := n.optimizer then
    (n.tensors.toList.filter (·.kind == .parameter)).forM fun t => do
      discard <| submitAll (← ofExcept (o.requests t)) .update

def clearAll [Zero α] : Call α Unit := do
  (← get).tensors.toList.forM fun t => onBackend t.clearAll

def drawInitial [Scalar α] (target : TensorId) (init : Initializer) : Call α Unit := do
  let n ← get
  let t ← ofExcept (n.tensor target)
  let (values, generator) ← ofExcept (init.sample t.shape n.generator)
  set { n with generator }
  let h ← ofExcept (t.forwardBuffer .current)
  onBackend (Backend.write h 0 (values.map Scalar.ofWord))

def drawInitials [Scalar α] : Call α Unit := do
  (← get).initializers.forM fun (target, init) => drawInitial target init

/-- The stages of a compilation, of which each builds on the ones before. -/
def compileStages [Scalar α] (batch : Nat) : Call α Unit := do
  applyBatch batch
  planScratch
  instantiateAll
  emitAll
  emitUpdates
  clearAll
  drawInitials

/-- Compiles a network for batches of the given size. There is a single attempt. -/
def compile [Scalar α] (batch : Nat) : Call α Unit := do
  requireBuilding
  fun n => match compileStages (max batch 1) n with
    | .ok () n => .ok () { n with stage := .compiled }
    | .error e n => .error e { n with stage := .failed }

end Backprop.Network
