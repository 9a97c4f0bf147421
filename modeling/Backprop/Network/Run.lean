import Backprop.Network.Compile
import Backprop.Snapshot

/-! Running a compiled network, and moving values in and out of it. -/

namespace Backprop.Network

variable {α : Type}

/-! ### Passes -/

@[specialize] def run [Scalar α] (pass : Pass) : Call α Unit := do
  requireCompiled
  onBackend (Backend.run pass)
  modify fun n => { n with runs := n.runs.map (·.modify pass (· + 1)) }

@[specialize] def forward [Scalar α] : Call α Unit := run .forward

@[specialize] def backward [Scalar α] : Call α Unit := run .backward

@[specialize] def update [Scalar α] : Call α Unit := run .update

/-- Zeroes the gradients and the history of recurrent states. -/
def clearBuffers [Zero α] : Call α Unit := do
  requireCompiled
  (← get).tensors.toList.forM fun t => onBackend t.clear

/-- Moves the parameters, and clears what the batch leaves behind. -/
@[specialize] def batchDone [Scalar α] : Call α Unit := do
  update
  clearBuffers

/-! ### Transfers -/

def forwardSlot (t : Tensor) (timestep : Nat) : Except Error BufferId :=
  if t.kind = .parameter then
    if timestep = 0 then t.forwardBuffer .current else .error (.singleTimestep timestep)
  else t.forwardBuffer (.timestep timestep)

def writeTensor (id : TensorId) (timestep : Nat) (data : Array α) : Call α Unit := do
  requireCompiled
  let t ← ofExcept ((← get).tensor id)
  let h ← ofExcept (forwardSlot t timestep)
  onBackend (Backend.write h 0 data)

def readBuffer (t : Tensor) (h : BufferId) : Call α (Array α) :=
  onBackend (Backend.read h 0 t.shape.bytes)

def readTensor (id : TensorId) (timestep : Nat) : Call α (Array α) := do
  requireCompiled
  let t ← ofExcept ((← get).tensor id)
  readBuffer t (← ofExcept (forwardSlot t timestep))

def writeGradient (id : TensorId) (timestep : Nat) (data : Array α) : Call α Unit := do
  requireCompiled
  let t ← ofExcept ((← get).tensor id)
  let h ← ofExcept (t.backwardBuffer (.timestep timestep))
  onBackend (Backend.write h 0 data)

def readGradient (id : TensorId) (timestep : Nat) : Call α (Array α) := do
  requireCompiled
  let t ← ofExcept ((← get).tensor id)
  readBuffer t (← ofExcept (t.backwardBuffer (.timestep timestep)))

def readAuxiliary (id : TensorId) (index : Nat) : Call α (Array α) := do
  requireCompiled
  let t ← ofExcept ((← get).tensor id)
  if t.kind ≠ .parameter then throw (.noAuxiliaries id.index)
  readBuffer t (← ofExcept (t.forwardBuffer (.timestep index)))

/-- Row `b` of timestep `t` in a sequence that holds, row by row, all timesteps of it. -/
def timestepRow (data : Array α) (steps row t b : Nat) : Except Error (Array α) :=
  let start := (b * steps + t) * row
  if start + row ≤ data.size then .ok (data.extract start (start + row))
  else .error (.fault .outOfBounds)

/-- The rows of timestep `t`, one after the other. -/
def gatherRows (data : Array α) (steps row rows t : Nat) : Except Error (Array α) :=
  (List.range rows).foldlM
    (fun gathered b => return gathered ++ (← timestepRow data steps row t b)) #[]

/-- Writes the first timesteps of a tensor from a sequence. The values of a timestep are
gathered in the staging area, which has to hold them. -/
def writeSequence (id : TensorId) (data : Array α) (steps : Nat) : Call α Unit := do
  requireCompiled
  let n ← get
  let t ← ofExcept (n.tensor id)
  let row := t.shape.rowElements
  let rows := t.shape.w
  if t.sequence < steps then throw (.sequenceMisfit data.size steps t.shape t.sequence)
  ofExcept (requireSize (rows * steps * row) data.size)
  if data.size ≠ rows * steps * row then
    throw (.sequenceMisfit data.size steps t.shape t.sequence)
  (List.range steps).forM fun timestep => do
    let h ← ofExcept (forwardSlot t timestep)
    if n.staging < t.shape.elements then throw (.fault .outOfBounds)
    let values ← ofExcept (gatherRows data steps row rows timestep)
    onBackend (Backend.write h 0 values)

/-! ### Snapshots -/

def snapshotRecord (id : TensorId) : Call Binary32 (String × List Binary32) := do
  let t ← ofExcept ((← get).tensor id)
  match t.name with
  | none => throw (.unnamedTensor id.index)
  | some name => return (name, (← readTensor id 0).toList)

def saveSnapshot (ids : List TensorId) : Call Binary32 Bytes := do
  requireCompiled
  let records ← ids.mapM snapshotRecord
  ofExcept (Snapshot.save records)

def restoreTensor (stream : Bytes) (id : TensorId) : Call Binary32 Unit := do
  let t ← ofExcept ((← get).tensor id)
  match t.name with
  | none => throw (.unnamedTensor id.index)
  | some name =>
    let values ← ofExcept (Snapshot.find stream name t.shape.elements)
    writeTensor id 0 values.toArray

/-- Writes the records of named tensors into them, as far as a stream can be read. -/
def loadSnapshot (stream : Except Error Bytes) (ids : List TensorId) : Call Binary32 Unit := do
  requireCompiled
  let stream ← ofExcept stream
  ids.forM (restoreTensor stream)

end Backprop.Network
