import Mathlib
import Backprop.Proofs.Network.Evaluation
import Backprop.Proofs.Network.Meaning

/-! The losses of a network: which slots are summed, and what the sum is over an algebra. -/

namespace Backprop.Network

instance {α : Type} (n : Network α) (node : Node α) (step : Nat) : Decidable (n.Active node step) :=
  match ht : n.tensors[node.output.index]? with
  | some t => decidable_of_iff (node.timeOffset ≤ step ∧ step < t.sequence)
      ⟨fun hs => ⟨t, ht, hs⟩, fun ⟨u, hu, hs⟩ => by
        rw [ht] at hu
        cases hu
        exact hs⟩
  | none => isFalse fun ⟨u, hu, _⟩ => by
      rw [ht] at hu
      cases hu

/-- The outputs of least squares, with the steps at which they are computed. -/
def losses (n : Network ℚ) : List (TensorId × Nat) :=
  (n.nodes.toList.filter (·.op = .leastSquares)).flatMap fun node =>
    ((List.range n.maxSequence).filter fun step => n.Active node step).map (node.output, ·)

def totalLoss (n : Network ℚ) : Except Error ℚ := do
  let values ← n.losses.mapM fun (x, step) => n.readings x step
  return (values.map (entry · 0)).sum

/-- Labels are inputs, and no operator reads a loss. -/
structure Supervised (n : Network ℚ) : Prop where
  labels : ∀ node ∈ n.nodes, node.op = .leastSquares →
    (n.tensors[node.last.index]?).map (·.kind) = some .input
  unread : ∀ loss ∈ n.nodes, loss.op = .leastSquares → ∀ node ∈ n.nodes, loss.output ∉ node.inputs

instance (n : Network ℚ) : Decidable n.Supervised :=
  decidable_of_iff ((∀ node ∈ n.nodes, node.op = .leastSquares →
      (n.tensors[node.last.index]?).map (·.kind) = some .input) ∧
    ∀ loss ∈ n.nodes, loss.op = .leastSquares → ∀ node ∈ n.nodes, loss.output ∉ node.inputs)
    ⟨fun h => ⟨h.1, h.2⟩, fun h => ⟨h.labels, h.unread⟩⟩

def lossOf {R : Type} [AddMonoid R] (n : Network ℚ) (v : Nat → Nat → Nat → R) : R :=
  (n.losses.map fun (x, step) => v x.index step 0).sum

theorem map_lossOf {R S F : Type} [AddMonoid R] [AddMonoid S] [FunLike F R S]
    [AddMonoidHomClass F R S] {n : Network ℚ} (f : F) (v : Nat → Nat → Nat → R) :
    f (n.lossOf v) = n.lossOf fun x s i => f (v x s i) := by
  rw [lossOf, map_list_sum, List.map_map]
  rfl

theorem mem_losses {n : Network ℚ} {x : TensorId} {step : Nat} : (x, step) ∈ n.losses ↔
    ∃ (i : Nat) (node : Node ℚ), n.nodes[i]? = some node ∧ node.op = .leastSquares ∧
      node.output = x ∧ step < n.maxSequence ∧ n.Active node step := by
  simp only [losses, List.mem_flatMap, List.mem_filter, List.mem_map, List.mem_range,
    Array.mem_toList_iff, decide_eq_true_eq, Prod.mk.injEq, Array.mem_iff_getElem?]
  constructor
  · rintro ⟨node, ⟨⟨i, hi⟩, hop⟩, step, hactive, rfl, rfl⟩
    exact ⟨i, node, hi, hop, rfl, hactive⟩
  · rintro ⟨i, node, hi, hop, rfl, hactive⟩
    exact ⟨node, ⟨⟨i, hi⟩, hop⟩, step, hactive, rfl, rfl⟩

variable [Inexact] {b : Backend ℚ} {n m k : Network ℚ} {batch i step : Nat} {node : Node ℚ}

theorem Algebraic.losses_nodup (h : Algebraic m) : m.losses.Nodup := by
  refine List.nodup_flatMap.mpr ⟨fun node _ => ?_, List.Pairwise.filter _ ?_⟩
  · exact (List.nodup_range.filter _).map fun s s' heq => (Prod.mk.inj heq).2
  · refine List.pairwise_iff_getElem.mpr fun i j hi hj hij => ?_
    refine List.disjoint_left.mpr ?_
    rintro ⟨x, s⟩ hx hy
    simp only [List.mem_map, Prod.mk.injEq] at hx hy
    obtain ⟨_, -, hx, -⟩ := hx
    obtain ⟨_, -, hy, -⟩ := hy
    have hsame := h.lowered.output_inj h.stepwise
      (Array.getElem?_eq_getElem (by simpa using hi))
      (Array.getElem?_eq_getElem (by simpa using hj))
      (congrArg TensorId.index (hy.trans hx.symm))
    omega

/-- Among algebraic operators least squares alone is a loss. -/
theorem Algebraic.reducesBatch_iff (h : Algebraic m) (hi : m.nodes[i]? = some node) :
    node.op.reducesBatch = true ↔ node.op = .leastSquares := by
  have hop := (h.operators i node hi).1
  cases hop' : node.op <;> simp_all [Operator.reducesBatch, Operator.Algebraic]

theorem Lowered.has_loss (h : Lowered m) (hf : m.FeedForward) {q : TensorId × Nat}
    (hq : q ∈ m.losses) : m.Has ⟨q.1.index, .forward, q.2⟩ := by
  obtain ⟨i, node, hi, -, hout, -, hactive⟩ := mem_losses.mp hq
  rw [← hout, ← hf.target hi hactive .forward]
  exact h.has_target hi .forward q.2

theorem Algebraic.lossOf_congr {R : Type} [AddMonoid R] (h : Algebraic m)
    {v w : Nat → Nat → Nat → R} (hvw : ∀ x s, m.Has ⟨x, .forward, s⟩ → v x s = w x s) :
    m.lossOf v = m.lossOf w :=
  congrArg List.sum (List.map_congr_left fun _ hq =>
    congrFun (hvw _ _ (h.lowered.has_loss h.stepwise hq)) 0)

theorem Lowered.totalLoss_ok (h : Lowered m) (hf : m.FeedForward) (stage : m.stage = .compiled)
    (hk : m.SameGraphAs k) : k.totalLoss = .ok (m.lossOf (m.entries k.backend .forward)) := by
  have hlosses : k.losses = m.losses := by rw [hk.same]; rfl
  have hread : ∀ q ∈ m.losses, k.readings q.1 q.2 =
      .ok (m.values k.backend ⟨q.1.index, .forward, q.2⟩) :=
    fun q hq => h.readings stage hk (h.has_loss hf hq)
  rw [totalLoss, hlosses, Except.mapM_eq_map hread]
  simp only [bind, Except.bind, pure, Except.pure, List.map_map]
  rfl

end Backprop.Network
