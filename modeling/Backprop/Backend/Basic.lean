import Backprop.Device
import Backprop.Kernel.Registry
import Backprop.Pass

/-! The backend owns the device, the compiled kernels, the buffers and the dispatch
lists of the three passes. A call that fails leaves what it had done until then. -/

namespace Backprop

/-- A range of bytes of an allocation; a base buffer is divided into slots. -/
structure Buffer where
  allocation : Nat
  offset : Nat
  bytes : Nat
  access : Access
  slot : Option Nat
deriving DecidableEq, Repr

/-- A kernel compiled under a list of preprocessor definitions. -/
structure CompiledKernel where
  name : String
  defines : List String
  kernel : HostKernel
deriving DecidableEq, Repr

/-- A recorded kernel invocation. -/
structure Dispatch (α : Type) where
  kernel : KernelId
  args : List (KernelArg α)
  launch : Launch
  increment : Option Nat := none

/-- The dispatch after a run: the scalar it increments has moved on. -/
def Dispatch.afterRun {α : Type} [Scalar α] (d : Dispatch α) : Dispatch α :=
  match d.increment with
  | some index => { d with args := d.args.modify index (·.next) }
  | none => d

structure Backend (α : Type) where
  device : Device α
  registry : Registry
  kernels : Array CompiledKernel := #[]
  buffers : Array Buffer := #[]
  dispatches : PerPass (Array (Dispatch α)) := .replicate #[]
  validation : Bool := true

namespace Backend

variable {α β : Type}

abbrev Call (α β : Type) := EStateM Error (Backend α) β

/-- The definitions of a text, which blanks separate. -/
def defineList (text : String) : List String := blankWords text

def defineFlags (defines : List String) : String :=
  " ".intercalate (defines.map fun d => s!"-D {d}")

/-- Bytes of a slot, padded to the alignment of the device. -/
def alignedSlot (b : Backend α) (bytes : Nat) : Nat :=
  b.device.alignment * ceilDiv bytes b.device.alignment

def kernelName? (b : Backend α) (k : KernelId) : Option String :=
  b.kernels[k.index]?.map (·.name)

def buffer (b : Backend α) (h : BufferId) : Except Error Buffer :=
  match b.buffers[h.index]? with
  | some buffer => .ok buffer
  | none => .error (.unknownBuffer h.index)

/-- The kernel of a name and definitions; it is compiled when it is first asked for. -/
def kernel (name defines : String) : Call α KernelId := do
  let b ← get
  let defines := defineList defines
  match b.kernels.findIdx? fun k => k.name == name && k.defines == defines with
  | some index => return ⟨index⟩
  | none =>
    unless b.registry.contains name do throw (.noKernelSource name)
    match HostKernel.ofName? name with
    | none => throw (.noHostKernel name)
    | some kernel =>
      set { b with kernels := b.kernels.push { name, defines, kernel } }
      return ⟨b.kernels.size⟩

/-- Allocates `count` slots of `bytes` each. -/
def create [Zero α] (bytes : Nat) (access : Access) (count : Nat) : Call α BufferId := do
  let b ← get
  let slot := b.alignedSlot (max bytes 1)
  let total := slot * max count 1
  let (allocation, device) ← ofExcept (b.device.allocate total)
  let buffer := { allocation, offset := 0, bytes := total, access, slot := some slot }
  set { b with device, buffers := b.buffers.push buffer }
  return ⟨b.buffers.size⟩

/-- A buffer on the first `bytes` bytes of slot `index` of a base buffer. -/
def createSub (base : BufferId) (bytes : Nat) (access : Access) (index : Nat) : Call α BufferId := do
  let b ← get
  let whole ← ofExcept (b.buffer base)
  match whole.slot with
  | none => throw (.nestedSubBuffer base.index)
  | some slot =>
    let offset := slot * index
    if bytes > slot ∨ offset + bytes > whole.bytes then
      throw (.subBufferMisfit index bytes base.index whole.bytes slot)
    let buffer := { allocation := whole.allocation, offset, bytes, access, slot := none }
    set { b with buffers := b.buffers.push buffer }
    return ⟨b.buffers.size⟩

/-- The words of `length` bytes of a buffer from `offset` on. Without validation the
range may leave the buffer, but not its allocation. -/
def window (b : Backend α) (h : BufferId) (offset length : Nat) : Except Error Window := do
  let buffer ← b.buffer h
  if b.validation ∧ buffer.bytes < offset + length then
    throw (.beyondBuffer length offset h.index buffer.bytes)
  b.device.window buffer.allocation (buffer.offset + offset) length

def write (h : BufferId) (offset : Nat) (data : Array α) : Call α Unit := do
  let b ← get
  let w ← ofExcept (b.window h offset (4 * data.size))
  set { b with device := b.device.store w data }

def read (h : BufferId) (offset length : Nat) : Call α (Array α) := do
  let b ← get
  return b.device.words (← ofExcept (b.window h offset length))

def readNew (h : BufferId) (offset length : Nat) : Call α (Array α) := do
  ofExcept (requireRoom length 1)
  read h offset length

def zero [Zero α] (h : BufferId) (offset length : Nat) : Call α Unit := do
  let b ← get
  let w ← ofExcept (b.window h offset length)
  set { b with device := b.device.fillZero w }

/-- What keeps a dispatch from being recorded. -/
def check (b : Backend α) (d : Dispatch α) : Except Error Unit := do
  if b.kernels.size ≤ d.kernel.index then throw (.unknownKernel d.kernel.index)
  for arg in d.args do
    if let .buffer h := arg then discard (b.buffer h)
  if ¬ d.launch.IsWhole then throw (.partialGroup d.launch)

def enqueue (d : Dispatch α) (pass : Pass) : Call α Nat := do
  if let some index := d.increment then
    unless d.args[index]?.any (·.isScalar) do throw (.notIncrementable index)
  let b ← get
  if b.validation then ofExcept (b.check d)
  set { b with dispatches := b.dispatches.modify pass (·.push d) }
  return (b.dispatches.get pass).size

def submit (r : Request α) (pass : Pass) : Call α Nat := do
  let kernel ← kernel r.kernel r.defines
  enqueue { kernel, args := r.args, launch := r.launch, increment := r.increment } pass

def dispatchNames (b : Backend α) (pass : Pass) : List String :=
  (b.dispatches.get pass).toList.filterMap fun d => b.kernelName? d.kernel

def bind (b : Backend α) : KernelArg α → Except Error (Binding α)
  | .buffer h => do
    let buffer ← b.buffer h
    return .buffer buffer.allocation buffer.offset buffer.bytes
  | .scalar s => .ok (.scalar s)
  | .blob bytes => .ok (.blob bytes)

@[specialize] def execute [Scalar α] (b : Backend α) (d : Dispatch α) : Except Error (Device α) := do
  match b.kernels[d.kernel.index]? with
  | none => throw (.unknownKernel d.kernel.index)
  | some compiled =>
    let bindings ← d.args.mapM b.bind
    (b.device.launch compiled.kernel bindings d.launch).mapError (.within compiled.name)

@[specialize] def play [Scalar α] (pass : Pass) (position : Nat) : Call α Unit := do
  let b ← get
  match (b.dispatches.get pass)[position]? with
  | none => return
  | some d =>
    let device ← ofExcept (b.execute d)
    set { b with device, dispatches := b.dispatches.modify pass (·.modify position (·.afterRun)) }

/-- Positions of a list of `n` dispatches in the order in which a pass plays them. -/
def playOrder (pass : Pass) (n : Nat) : List Nat :=
  match pass with
  | .backward => (List.range n).reverse
  | .forward | .update => List.range n

@[specialize] def run [Scalar α] (pass : Pass) : Call α Unit := do
  let b ← get
  (playOrder pass (b.dispatches.get pass).size).forM (play pass)

def clearDispatches : Call α Unit :=
  modify fun b => { b with dispatches := .replicate #[] }

def setValidation (on : Bool) : Call α Unit :=
  modify fun b => { b with validation := on }

end Backend

end Backprop
