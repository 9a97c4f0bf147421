import Backprop.Capacity
import Backprop.Extent
import Backprop.Kernel.Catalogue

/-! The host device: allocations of words that start as zero, transfers to and from
windows of them, and launches that work on copies of the windows they are given. -/

namespace Backprop

variable {α : Type}

structure Device (α : Type) where
  alignment : Nat := 64
  memory : Array (Array α) := #[]
  alignment_pos : 0 < alignment := by decide
  four_dvd_alignment : 4 ∣ alignment := by decide

def Device.standard {α : Type} : Device α := {}

/-- Words `start`, `start + 1`, … of one allocation. -/
structure Window where
  allocation : Nat
  start : Nat
  count : Nat
deriving DecidableEq, Repr

/-- An argument of a launch; the extents of a buffer are in bytes. -/
inductive Binding (α : Type) where
  | buffer (allocation offset length : Nat)
  | scalar (s : ScalarArg α)
  | blob (bytes : Bytes)

namespace Device

/-- A device whose sub-buffers start at multiples of `alignment` bytes. -/
def withAlignment (alignment : Nat) : Except Error (Device α) :=
  if h : 0 < alignment ∧ 4 ∣ alignment then .ok { alignment, alignment_pos := h.1, four_dvd_alignment := h.2 }
  else .error (.badAlignment alignment)

def allocatedBytes (d : Device α) : Nat :=
  d.memory.foldl (fun bytes words => bytes + 4 * words.size) 0

def window (d : Device α) (allocation offset length : Nat) : Except Error Window :=
  if offset % 4 ≠ 0 ∨ length % 4 ≠ 0 then .error (.unalignedTransfer offset length)
  else match d.memory[allocation]? with
    | none => .error (.unknownAllocation allocation)
    | some words =>
      if offset / 4 + length / 4 > words.size then
        .error (.beyondAllocation length offset (4 * words.size))
      else .ok ⟨allocation, offset / 4, length / 4⟩

def words (d : Device α) (w : Window) : Array α :=
  match d.memory[w.allocation]? with
  | some words => words.extract w.start (w.start + w.count)
  | none => #[]

/-- `data` in place of the words from `start` on. -/
def overlay (words : Array α) (start : Nat) (data : Array α) : Array α :=
  Nat.fold data.size (fun i h words => words.setIfInBounds (start + i) data[i]) words

def store (d : Device α) (w : Window) (data : Array α) : Device α :=
  { d with memory := d.memory.modify w.allocation (overlay · w.start data) }

def allocate [Zero α] (d : Device α) (bytes : Nat) : Except Error (Nat × Device α) := do
  let count := ceilDiv bytes 4
  requireRoom count 4
  return (d.memory.size, { d with memory := d.memory.push (Array.replicate count 0) })

def read (d : Device α) (allocation offset length : Nat) : Except Error (Array α) := do
  requireRoom length 1
  return d.words (← d.window allocation offset length)

def fillZero [Zero α] (d : Device α) (w : Window) : Device α :=
  d.store w (Array.replicate w.count 0)

def gather (d : Device α) : Binding α → Except Error (Operand α × Option Window)
  | .buffer allocation offset length => do
    let w ← d.window allocation offset length
    return (.words (d.words w), some w)
  | .scalar s => .ok (.scalar s, none)
  | .blob bytes => .ok (.blob bytes, none)

/-- Puts a changed buffer back where its operand came from. -/
def putBack (windows : List (Option Window)) (d : Device α) (change : Nat × Array α) : Device α :=
  match windows[change.1]? with
  | some (some w) => d.store w change.2
  | _ => d

/-- Copies the windows, runs the kernel on the copies, and puts back what it changed
in the order of the arguments. -/
@[specialize] def launch [Scalar α] (d : Device α) (kernel : HostKernel) (bindings : List (Binding α))
    (size : Launch) : Except Error (Device α) := do
  let gathered ← bindings.mapM d.gather
  let changes ← kernel.run ⟨gathered.map (·.1), size⟩
  return changes.foldl (putBack (gathered.map (·.2))) d

end Device

end Backprop
