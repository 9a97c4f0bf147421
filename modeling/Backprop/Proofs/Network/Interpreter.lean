import Mathlib
import Backprop.Proofs.Network.Graph

/-! A network as a function: the value of every slot by recursion over the operators, without
storage, cursors or lists of dispatches. -/

namespace Backprop

variable {α : Type}

/-- What the forward kernel of an operator makes of the values of its operands, in an output
that was zero. -/
def Operator.forwardValue [Scalar α] (op : Operator α) (a b out : Shape) (tile : Nat)
    (operands : List (Array α)) : Except Error (Array α) := do
  let words := (operands ++ [Array.replicate out.elements 0]).map Operand.words
  let changes ← op.forwardKernel.run
    ⟨words ++ (op.numbers a b tile).map .scalar, op.forwardLaunch a b out⟩
  match changes.lookup operands.length with
  | some data => .ok data
  | none => .error (.argument operands.length .missing)

namespace Network

def batched (n : Network α) (batch : Nat) (x : TensorId) : Except Error Tensor :=
  (n.tensor x).map (n.batchTensor batch x.index)

/-- The value of every slot of every tensor. -/
abbrev Values (α : Type) := TensorId → Nat → Except Error (Array α)

def readSlot (t : Tensor) (step : Nat) : Nat :=
  if t.kind = .parameter then 0 else step % t.sequence

/-- The value that an operator gives to a slot of its output. -/
def slotValue [Scalar α] (ts : TensorId → Except Error Tensor) (v : Values α) (node : Node α)
    (step : Nat) : Except Error (Array α) := do
  let output ← ts node.output
  if step < node.timeOffset then return Array.replicate output.shape.elements 0
  else
    let a ← ts node.first
    let b ← ts node.last
    let operands ← node.inputs.mapM fun x => do v x (readSlot (← ts x) step)
    node.op.forwardValue a.shape b.shape output.shape step operands

/-- The value of every slot, when some of the operators have given theirs. -/
def interpretUpTo [Scalar α] (n : Network α) (ts : TensorId → Except Error Tensor)
    (held : Values α) : Nat → Values α
  | 0 => held
  | count + 1 =>
    match n.nodes[count]? with
    | none => interpretUpTo n ts held count
    | some node => fun x step =>
      if x = node.output then slotValue ts (interpretUpTo n ts held count) node step
      else interpretUpTo n ts held count x step

/-- The value of every slot for a batch, where `held` is what the tensors hold that no operator
writes. -/
def interpret [Scalar α] (n : Network α) (batch : Nat) (held : Values α) : Values α :=
  interpretUpTo n (n.batched batch) held n.nodes.size

/-- Operators stand in the order of their outputs, after all that they read. -/
def Ordered (n : Network α) : Prop :=
  ∀ (i j : Nat) (a b : Node α), n.nodes[i]? = some a → n.nodes[j]? = some b → i ≤ j →
    (∀ x ∈ a.inputs, x.index < b.output.index) ∧ (i < j → a.output.index < b.output.index)

section

variable [Scalar α] {n : Network α} {ts : TensorId → Except Error Tensor} {held : Values α}

/-- Only operators that write a tensor matter to its value. -/
theorem interpretUpTo_eq {k l : Nat} {x : TensorId} (hkl : k ≤ l)
    (other : ∀ (j : Nat) (node : Node α), k ≤ j → j < l → n.nodes[j]? = some node →
      x ≠ node.output) (step : Nat) :
    interpretUpTo n ts held l x step = interpretUpTo n ts held k x step := by
  induction l with
  | zero => rw [Nat.le_zero.mp hkl]
  | succ l ih =>
    obtain hlt | rfl := Nat.lt_or_eq_of_le hkl
    · have hih := ih (Nat.le_of_lt_succ hlt) fun j node hk hj => other j node hk (by omega)
      rw [interpretUpTo]
      cases hl : n.nodes[l]? with
      | none => exact hih
      | some node =>
        simp only
        rw [if_neg (other l node (by omega) (Nat.lt_succ_self l) hl), hih]
    · rfl

theorem interpret_held {batch : Nat} {x : TensorId}
    (other : ∀ (j : Nat) (node : Node α), n.nodes[j]? = some node → x ≠ node.output)
    (step : Nat) : n.interpret batch held x step = held x step :=
  interpretUpTo_eq (Nat.zero_le _) (fun j node _ _ => other j node) step

theorem slotValue_congr {v w : Values α} {node : Node α}
    (h : ∀ x ∈ node.inputs, ∀ step, v x step = w x step) (step : Nat) :
    slotValue ts v node step = slotValue ts w node step := by
  have hmap : ∀ l : List TensorId, (∀ x ∈ l, ∀ step, v x step = w x step) →
      (l.mapM fun x => do v x (readSlot (← ts x) step)) =
        (l.mapM fun x => do w x (readSlot (← ts x) step)) := by
    intro l hl
    induction l with
    | nil => rfl
    | cons x l ih =>
      have htail := ih fun y hy => hl y (List.mem_cons_of_mem _ hy)
      simp only [List.mapM_cons, hl x List.mem_cons_self, htail]
  unfold slotValue
  rw [hmap node.inputs h]

/-- Every output has the value that its operator makes of the values of its operands. -/
theorem interpret_output {batch i : Nat} {node : Node α} (ordered : n.Ordered)
    (hi : n.nodes[i]? = some node) (step : Nat) :
    n.interpret batch held node.output step =
      slotValue (n.batched batch) (n.interpret batch held) node step := by
  have hlt : i < n.nodes.size := (Array.getElem?_eq_some_iff.mp hi).1
  have hown : n.interpret batch held node.output step =
      interpretUpTo n (n.batched batch) held (i + 1) node.output step := by
    refine interpretUpTo_eq hlt (fun j other hj _ hother heq => ?_) step
    have hord := (ordered i j node other hi hother (by omega)).2 (by omega)
    rw [heq] at hord
    exact Nat.lt_irrefl _ hord
  rw [hown, interpretUpTo, hi]
  simp only [if_true]
  refine slotValue_congr (fun x hx s => ?_) step
  refine (interpretUpTo_eq hlt.le (fun j other hj _ hother heq => ?_) s).symm
  have hord := (ordered i j node other hi hother hj).1 x hx
  rw [heq] at hord
  exact Nat.lt_irrefl _ hord

end

end Network

end Backprop
