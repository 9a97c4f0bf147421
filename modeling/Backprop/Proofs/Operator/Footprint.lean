import Mathlib
import Backprop.Proofs.Backend.Submission
import Backprop.Proofs.Kernel.Writes
import Backprop.Proofs.Operator.Emission

/-! Which buffers a request writes, and which it reads. -/

namespace Backprop

variable {α : Type}

namespace HostKernel

def written (k : HostKernel) (args : List (KernelArg α)) : List BufferId :=
  args.zipIdx.filterMap fun
    | (.buffer h, i) => if i ∈ k.outputs then some h else none
    | _ => none

def read (k : HostKernel) (args : List (KernelArg α)) : List BufferId :=
  args.zipIdx.filterMap fun
    | (.buffer h, i) => if i ∈ k.outputs then none else some h
    | _ => none

end HostKernel

namespace Request

def written (r : Request α) : List BufferId :=
  match HostKernel.ofName? r.kernel with
  | some k => k.written r.args
  | none => []

def read (r : Request α) : List BufferId :=
  match HostKernel.ofName? r.kernel with
  | some k => k.read r.args
  | none => []

end Request

namespace Backend

def Writes (b : Backend α) (d : Dispatch α) (h : BufferId) : Prop :=
  ∃ compiled, b.kernels[d.kernel.index]? = some compiled ∧ h ∈ compiled.kernel.written d.args

def Reads (b : Backend α) (d : Dispatch α) (h : BufferId) : Prop :=
  ∃ compiled, b.kernels[d.kernel.index]? = some compiled ∧ h ∈ compiled.kernel.read d.args

theorem Implements.writes {b : Backend α} {r : Request α} {d : Dispatch α} {h : BufferId}
    (hi : b.Implements r d) (hw : b.Writes d h) : h ∈ r.written := by
  obtain ⟨compiled, hk, hname⟩ := hi.kernel
  obtain ⟨compiled', hk', hmem⟩ := hw
  rw [hk] at hk'
  cases hk'
  rw [Request.written, hname]
  exact hi.args ▸ hmem

theorem Implements.reads {b : Backend α} {r : Request α} {d : Dispatch α} {h : BufferId}
    (hi : b.Implements r d) (hw : b.Reads d h) : h ∈ r.read := by
  obtain ⟨compiled, hk, hname⟩ := hi.kernel
  obtain ⟨compiled', hk', hmem⟩ := hw
  rw [hk] at hk'
  cases hk'
  rw [Request.read, hname]
  exact hi.args ▸ hmem

end Backend

namespace Operator

theorem forwardRequest_footprint (op : Operator α) (a b out : Shape) (tile : Nat) (w : Wires) :
    (op.forwardRequest a b out tile w).written = [w.out] ∧
      (op.forwardRequest a b out tile w).read = op.operands w := by
  cases op with
  | activation kind => cases kind <;> exact ⟨rfl, rfl⟩
  | _ => exact ⟨rfl, rfl⟩

theorem operands_length (op : Operator α) (w : Wires) : (op.operands w).length = op.arity := by
  cases op <;> rfl

theorem forwardKernel_ofName (op : Operator α) :
    HostKernel.ofName? op.forwardKernel.name = some op.forwardKernel := by
  cases op with
  | activation kind => cases kind <;> rfl
  | _ => rfl

theorem forwardKernel_outputs (op : Operator α) : op.forwardKernel.outputs = [op.arity] := by
  cases op with
  | activation kind => cases kind <;> rfl
  | _ => rfl

theorem forwardRequest_output (op : Operator α) (a b out : Shape) (tile : Nat) (w : Wires) :
    (op.forwardRequest a b out tile w).args[op.arity]? = some (.buffer w.out) := by
  change (((op.operands w ++ [w.out]).map KernelArg.buffer) ++ _)[op.arity]? = _
  rw [List.getElem?_append_left (by simp [operands_length]), List.getElem?_map,
    List.getElem?_append_right (by simp [operands_length]), operands_length, Nat.sub_self]
  rfl

/-- What each request of the backward pass writes and what it reads. -/
def backwardFootprints (op : Operator α) (w : Wires) : List (List BufferId × List BufferId) :=
  match op with
  | matMul | matMulFlat =>
    [([w.gradB], [w.tmp, w.gradOut]), ([w.tmp], [w.a]), ([w.gradA], [w.gradOut, w.tmp]),
      ([w.tmp], [w.b])]
  | conv2d .. => [([w.gradB], [w.a, w.gradOut]), ([w.gradA], [w.gradOut, w.tmp]), ([w.tmp], [w.b])]
  | activation kind => [([w.gradA], [if kind = .relu then w.a else w.out, w.gradOut])]
  | softmax => [([w.gradA], [w.gradOut, w.out])]
  | elementwiseProduct => [([w.gradB], [w.a, w.gradOut]), ([w.gradA], [w.b, w.gradOut])]
  | add _ | addBias | addBiasConv => [([w.gradA], [w.gradOut]), ([w.gradB], [w.gradOut])]
  | copy _ | copyInit | subtractFromConst _ | split .. => [([w.gradA], [w.gradOut])]
  | maxPool .. => [([w.gradA], [w.a, w.gradOut])]
  | crossEntropy | leastSquares => [([w.gradA], [w.a, w.b])]
  | transpose | accuracy => []

theorem backwardRequests_footprints (op : Operator α) (a b : Shape) (tile : Nat) (w : Wires) :
    (op.backwardRequests a b tile w).map (fun r => (r.written, r.read)) =
      op.backwardFootprints w := by
  cases op with
  | activation kind => cases kind <;> rfl
  | _ => rfl

/-- The backward pass adds to gradients of operands, or writes scratch; the only gradient that
it reads is the one of the output. -/
theorem backwardRequests_footprint (op : Operator α) (a b : Shape) (tile : Nat) (w : Wires) :
    ∀ r ∈ op.backwardRequests a b tile w,
      (∀ h ∈ r.written, h = w.gradA ∨ h = w.gradB ∨ h = w.tmp) ∧
      ∀ h ∈ r.read, h = w.a ∨ h = w.b ∨ h = w.out ∨ h = w.tmp ∨ h = w.gradOut := by
  intro r hr
  have hmem : (r.written, r.read) ∈ op.backwardFootprints w := by
    rw [← backwardRequests_footprints op a b tile w]
    exact List.mem_map_of_mem hr
  generalize r.written = written at *
  generalize r.read = read at *
  cases op with
  | activation kind => cases kind <;> simp_all [backwardFootprints]
  | transpose | accuracy => cases hmem
  | _ =>
    simp only [backwardFootprints, List.mem_cons, List.not_mem_nil, Prod.mk.injEq, or_false] at hmem
    aesop

end Operator

end Backprop
