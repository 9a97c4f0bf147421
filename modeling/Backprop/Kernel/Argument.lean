import Backprop.Error
import Backprop.Number.Scalar

/-! Arguments of a kernel: buffers, numbers passed by value, and blobs of bytes. -/

namespace Backprop

abbrev Bytes := List UInt8

structure BufferId where
  index : Nat
deriving DecidableEq, Repr, Inhabited

structure KernelId where
  index : Nat
deriving DecidableEq, Repr, Inhabited

/-- A number passed by value. -/
inductive ScalarArg (α : Type) where
  | int32 (v : Int32)
  | uint32 (v : UInt32)
  | float (x : α)
deriving DecidableEq

inductive KernelArg (α : Type) where
  | buffer (b : BufferId)
  | scalar (s : ScalarArg α)
  | blob (bytes : Bytes)
deriving DecidableEq

namespace ScalarArg

variable {α : Type}

def next [Scalar α] : ScalarArg α → ScalarArg α
  | int32 v => int32 (v + 1)
  | uint32 v => uint32 (v + 1)
  | float x => float (x + 1)

def word : ScalarArg Binary32 → UInt32
  | int32 v => v.toUInt32
  | uint32 v => v
  | float x => x.bits

end ScalarArg

namespace KernelArg

variable {α : Type}

/-- An integer argument; what does not fit becomes the nearest integer that does. -/
def signed (n : Int) : KernelArg α := .scalar (.int32 (.ofInt (max Int32.minValue.toInt (min n Int32.maxValue.toInt))))

def int (n : Nat) : KernelArg α := signed n

def float (x : α) : KernelArg α := .scalar (.float x)

def isScalar : KernelArg α → Bool
  | scalar _ => true
  | _ => false

def next [Scalar α] : KernelArg α → KernelArg α
  | scalar s => scalar s.next
  | arg => arg

end KernelArg

/-- A kernel invocation by name. After every run the scalar at `increment` moves on by one. -/
structure Request (α : Type) where
  kernel : String
  defines : String := ""
  args : List (KernelArg α)
  launch : Launch
  increment : Option Nat := none
deriving DecidableEq

end Backprop
