import Backprop.Kernel.Argument

/-! What a kernel sees: copies of its buffers, its numbers and its launch size. A
kernel answers the buffers it has changed. -/

namespace Backprop

variable {α : Type}

inductive Operand (α : Type) where
  | words (data : Array α)
  | scalar (s : ScalarArg α)
  | blob (bytes : Bytes)

structure Operands (α : Type) where
  args : List (Operand α)
  launch : Launch

/-- Changed buffers, each with the index of its argument. -/
abbrev Writes (α : Type) := List (Nat × Array α)

abbrev Kernel (α : Type) := Operands α → Except Error (Writes α)

namespace Operands

def get (o : Operands α) (i : Nat) : Except Error (Operand α) :=
  match o.args[i]? with
  | some operand => .ok operand
  | none => .error (.argument i .missing)

def int (o : Operands α) (i : Nat) : Except Error Int := do
  match ← o.get i with
  | .scalar (.int32 v) => pure v.toInt
  | .scalar (.uint32 v) => pure v.toInt32.toInt
  | _ => throw (.argument i .notInteger)

/-- An integer that is not negative. -/
def extent (o : Operands α) (i : Nat) : Except Error Nat := do
  let value ← o.int i
  if value < 0 then throw (.argument i (.negative value)) else pure value.toNat

def float [Scalar α] (o : Operands α) (i : Nat) : Except Error α := do
  match ← o.get i with
  | .scalar (.float x) => pure x
  | .scalar (.int32 v) => pure (Scalar.ofInt v.toInt)
  | .scalar (.uint32 v) => pure (Scalar.ofInt v.toNat)
  | _ => throw (.argument i .notScalar)

def held (o : Operands α) (i : Nat) : Nat :=
  match o.args[i]? with
  | some (.words data) => data.size
  | _ => 0

def words (o : Operands α) (i n : Nat) : Except Error (Array α) := do
  match ← o.get i with
  | .words data =>
    if n ≤ data.size then pure data else throw (.argument i (.tooShort data.size n))
  | _ => throw (.argument i .notBuffer)

end Operands

end Backprop
