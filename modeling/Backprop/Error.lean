import Backprop.FileTree
import Backprop.Launch
import Backprop.Shape
import Backprop.Tensor.Kind
import Backprop.Text.Quoted

/-! Why a call fails. Each cause is a constructor; its class and its wording are
functions of the cause. -/

namespace Backprop

/-- The class of an error, by which callers tell them apart. -/
inductive ErrorKind where
  | usageSequence
  | resourceNotFound
  | range
  | device
  | graph
  | io
  /-- Not an answer: the computation itself went wrong. -/
  | fault
deriving DecidableEq, Repr

/-- What a kernel may find wrong with one of its arguments. -/
inductive ArgumentError where
  | missing
  | notInteger
  | negative (value : Int)
  | notScalar
  | notBlob
  | notBuffer
  | tooShort (holds needs : Nat)
deriving DecidableEq, Repr

/-- A computation that has no result. -/
inductive Fault where
  | outOfBounds
  | divisionByZero
  | overflow
  | unboundedRange
  | endlessRedraw
  | noRoom
  | overlongTime
deriving DecidableEq, Repr

inductive Error where
  -- order of calls
  | notInitialized
  | alreadyCompiled
  | instantiatedTwice
  -- resources
  | noKernelSource (kernel : String)
  | unknownKernel (handle : Nat)
  | unreadable (what path : String) (cause : FileError)
  | noRecord (name : String)
  -- ranges
  | unknownBuffer (handle : Nat)
  | subBufferMisfit (index bytes base capacity slot : Nat)
  | beyondBuffer (length offset handle capacity : Nat)
  | beyondAllocation (length offset capacity : Nat)
  | notIncrementable (index : Nat)
  | noSlot (side : String) (index slots : Nat)
  | noAuxiliary (index count : Nat)
  | noAuxiliaries (tensor : Nat)
  | singleTimestep (asked : Nat)
  | sequenceMisfit (values steps : Nat) (shape : Shape) (sequence : Nat)
  | shortRecord (name : String) (elements : Nat)
  -- device
  | badAlignment (bytes : Nat)
  | unalignedTransfer (offset length : Nat)
  | unknownAllocation (allocation : Nat)
  | noHostKernel (kernel : String)
  | nestedSubBuffer (buffer : Nat)
  | partialGroup (launch : Launch)
  | argument (index : Nat) (cause : ArgumentError)
  | emptyConvolution (inputX inputY kernelX kernelY pad stride : Nat)
  | emptyPooling (inputX inputY size stride : Nat)
  | inKernel (kernel : String) (cause : Error)
  -- graph
  | unknownTensor (tensor : Nat)
  | unknownOperator (operator : Nat)
  | emptyDimension (shape : Shape)
  | badTensorName (name : String)
  | badRecordName (name : String)
  | unnamedTensor (tensor : Nat)
  | noBackward
  | wrongArity (operator : String) (takes got : Nat)
  | noInputs (operator : String)
  | noSecondInput (operator : String)
  | noScratch (operator : String)
  | unequalElements (operator : String) (a b : Shape)
  | noContraction (operator : String) (a b : Shape)
  | channelMismatch (kernel : Shape) (channels : Nat)
  | noConvolution (operator : String)
  | convolutionMisfit (input kernel : Shape) (pad stride : Nat)
  | poolingMisfit (input : Shape) (size stride : Nat)
  | biasRowMismatch (bias input : Shape)
  | biasChannelMismatch (bias : Shape) (channels : Nat)
  | labelMismatch (operator : String) (input labels : Shape)
  | emptyTile
  | targetMismatch (operator : String) (produced target : Shape)
  | initializedNonParameter (kind : TensorKind) (tensor : Nat)
  | badLayerSizes (sizes : List Nat) (inputs : Nat)
  -- outside
  | io
  | fault (cause : Fault)
deriving DecidableEq, Repr, Inhabited

namespace Error

def kind : Error → ErrorKind
  | notInitialized | alreadyCompiled | instantiatedTwice => .usageSequence
  | noKernelSource _ | unknownKernel _ | unreadable .. | noRecord _ => .resourceNotFound
  | unknownBuffer _ | subBufferMisfit .. | beyondBuffer .. | beyondAllocation ..
  | notIncrementable _ | noSlot .. | noAuxiliary .. | noAuxiliaries _ | singleTimestep _
  | sequenceMisfit .. | shortRecord .. => .range
  | badAlignment _ | unalignedTransfer .. | unknownAllocation _ | noHostKernel _
  | nestedSubBuffer _ | partialGroup _ | argument .. | emptyConvolution .. | emptyPooling ..
  | inKernel .. => .device
  | unknownTensor _ | unknownOperator _ | emptyDimension _ | badTensorName _
  | badRecordName _ | unnamedTensor _ | noBackward | wrongArity .. | noInputs _
  | noSecondInput _ | noScratch _ | unequalElements .. | noContraction ..
  | channelMismatch .. | noConvolution _ | convolutionMisfit .. | poolingMisfit ..
  | biasRowMismatch .. | biasChannelMismatch .. | labelMismatch .. | emptyTile
  | targetMismatch .. | initializedNonParameter .. | badLayerSizes .. => .graph
  | io => .io
  | fault _ => .fault

def listed (ns : List Nat) : String := ", ".intercalate (ns.map toString)

def detail : Error → String
  | notInitialized => "graph not initialized"
  | alreadyCompiled => "graph is already compiled"
  | instantiatedTwice => "tensor storage instantiated twice"
  | noKernelSource kernel => s!"kernel `{kernel}` has no registered source"
  | unknownKernel handle => s!"unknown kernel handle {handle}"
  | unreadable what path cause => s!"{what} {path}: {cause.message}"
  | noRecord name => s!"snapshot has no record `{name}`"
  | unknownBuffer handle => s!"unknown buffer handle {handle}"
  | subBufferMisfit index bytes base capacity slot =>
    s!"sub-buffer {index} of {bytes} bytes does not fit buffer {base} ({capacity} bytes, slot {slot})"
  | beyondBuffer length offset handle capacity =>
    s!"{length} bytes at offset {offset} exceed buffer {handle} of {capacity} bytes"
  | beyondAllocation length offset capacity =>
    s!"{length} bytes at offset {offset} exceed host allocation of {capacity} bytes"
  | notIncrementable index =>
    s!"argument {index} is not a scalar and cannot be incremented"
  | noSlot side index slots => s!"{side} slot {index} out of {slots} slots"
  | noAuxiliary index count => s!"auxiliary buffer {index} out of {count}"
  | noAuxiliaries tensor => s!"tensor {tensor} has no auxiliary buffers"
  | singleTimestep asked => s!"parameters have a single timestep, asked for {asked}"
  | sequenceMisfit values steps shape sequence =>
    s!"sequence of {values} values does not fill {steps} steps of {shape} (sequence {sequence})"
  | shortRecord name elements =>
    s!"snapshot record `{name}` holds fewer than {elements} values"
  | badAlignment bytes => s!"host alignment must be a non-zero multiple of 4, got {bytes}"
  | unalignedTransfer offset length =>
    s!"host transfers must be 4-byte aligned (offset {offset}, len {length})"
  | unknownAllocation allocation => s!"unknown host allocation {allocation}"
  | noHostKernel kernel =>
    s!"compilation failed: no host implementation for kernel `{kernel}`"
  | nestedSubBuffer buffer => s!"buffer {buffer} is already a sub-buffer"
  | partialGroup launch =>
    s!"global size {launch.global} is not a multiple of local size {launch.group}"
  | argument index cause => match cause with
    | .missing => s!"missing kernel argument {index}"
    | .notInteger => s!"argument {index} is not an integer"
    | .negative value => s!"argument {index} is negative ({value})"
    | .notScalar => s!"argument {index} is not a scalar"
    | .notBlob => s!"argument {index} is not a blob"
    | .notBuffer => s!"argument {index} is not a buffer"
    | .tooShort holds needs => s!"argument {index} holds {holds} elements, kernel needs {needs}"
  | emptyConvolution inputX inputY kernelX kernelY pad stride =>
    s!"convolution of {inputX}x{inputY} by {kernelX}x{kernelY} (pad {pad}, stride {stride}) has no output"
  | emptyPooling inputX inputY size stride =>
    s!"pooling {inputX}x{inputY} with window {size} and stride {stride} has no output"
  | inKernel kernel cause => s!"{kernel}: {cause.detail}"
  | unknownTensor tensor => s!"unknown tensor {tensor}"
  | unknownOperator operator => s!"unknown operator {operator}"
  | emptyDimension shape => s!"tensor shape {shape} has an empty dimension"
  | badTensorName name => s!"tensor name {quoted name} must be one non-empty line"
  | badRecordName name => s!"snapshot name {quoted name} must be one non-empty line"
  | unnamedTensor tensor => s!"tensor {tensor} has no snapshot name"
  | noBackward => "scratch tensors have no backward storage"
  | wrongArity operator takes got => s!"{operator} takes {takes} inputs, got {got}"
  | noInputs operator => s!"{operator} has no bound inputs"
  | noSecondInput operator => s!"{operator} is missing its second input"
  | noScratch operator => s!"{operator} was not given a scratch buffer"
  | unequalElements operator a b => s!"{operator} needs equal element counts, got {a} and {b}"
  | noContraction operator a b => s!"{operator} cannot contract {a} with {b}"
  | channelMismatch kernel channels => s!"kernel {kernel} does not match {channels} input channels"
  | noConvolution operator => s!"{operator} is not a convolution"
  | convolutionMisfit input kernel pad stride =>
    s!"convolution of {input} by {kernel} (pad {pad}, stride {stride}) has no output"
  | poolingMisfit input size stride =>
    s!"pooling {input} with window {size} stride {stride} has no output"
  | biasRowMismatch bias input => s!"bias {bias} does not match rows of {input}"
  | biasChannelMismatch bias channels => s!"bias {bias} does not match {channels} channels"
  | labelMismatch operator input labels =>
    s!"{operator} needs one label per row of {input}, got {labels}"
  | emptyTile => "split tiles must be non-empty"
  | targetMismatch operator produced target =>
    s!"{operator} produces {produced} but target tensor is {target}"
  | initializedNonParameter kind tensor => s!"weight initializer bound to {kind} tensor {tensor}"
  | badLayerSizes sizes inputs =>
    s!"layer sizes [{listed sizes}] must start at the {inputs} input elements and name an output layer"
  | io => "input or output failed"
  | fault _ => "no result"

def heading : ErrorKind → String
  | .usageSequence => "usage error: "
  | .resourceNotFound => "resource not found: "
  | .range => "out of range: "
  | .device => "device error: "
  | .graph => "invalid graph: "
  | .io | .fault => ""

def message (e : Error) : String := heading e.kind ++ e.detail

/-- Errors of the device say which kernel they arose in. -/
def within (kernel : String) (e : Error) : Error :=
  if e.kind = .device then inKernel kernel e else e

end Error

end Backprop
