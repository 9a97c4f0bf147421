import Mathlib
import Backprop.Proofs.Network.Algebraic

/-! Networks of algebraic operators over any algebra: values for what no operator writes have one
extension that agrees with all operators. With unknowns in place of the parameters it consists of
polynomials, and a forward pass evaluates them. -/

namespace Backprop.Network

section

variable {R : Type} [CommRing R] [Algebra ℚ R]

def evaluateUpTo (m : Network ℚ) (held : Nat → Nat → Nat → R) : Nat → Nat → Nat → Nat → R
  | 0 => held
  | count + 1 =>
    let before := evaluateUpTo m held count
    match m.nodes[count]? with
    | none => before
    | some node => Function.update before node.output.index fun step =>
      if step < node.timeOffset then 0
      else node.op.image (m.shapeOf node.first) (m.shapeOf node.last) step
        (before node.first.index (m.slotOf node.first.index .current step))
        (before node.last.index (m.slotOf node.last.index .current step))

/-- The values of all slots, where `held` are those that no operator writes. -/
def evaluate (m : Network ℚ) (held : Nat → Nat → Nat → R) : Nat → Nat → Nat → R :=
  m.evaluateUpTo held m.nodes.size

variable {m : Network ℚ} {held : Nat → Nat → Nat → R} {x : Nat}

theorem evaluateUpTo_succ {count : Nat} {node : Node ℚ} (hi : m.nodes[count]? = some node) :
    m.evaluateUpTo held (count + 1) = Function.update (m.evaluateUpTo held count)
      node.output.index fun step => if step < node.timeOffset then 0
        else node.op.image (m.shapeOf node.first) (m.shapeOf node.last) step
          (m.evaluateUpTo held count node.first.index (m.slotOf node.first.index .current step))
          (m.evaluateUpTo held count node.last.index (m.slotOf node.last.index .current step)) := by
  rw [evaluateUpTo, hi]

theorem evaluateUpTo_eq {k l : Nat} (hkl : k ≤ l)
    (other : ∀ (j : Nat) (node : Node ℚ), k ≤ j → j < l → m.nodes[j]? = some node →
      node.output.index ≠ x) : m.evaluateUpTo held l x = m.evaluateUpTo held k x := by
  induction l with
  | zero => rw [Nat.le_zero.mp hkl]
  | succ l ih =>
    obtain hlt | rfl := Nat.lt_or_eq_of_le hkl
    · have hih := ih (Nat.le_of_lt_succ hlt) fun j node hk hj => other j node hk (by omega)
      cases hl : m.nodes[l]? with
      | none =>
        rw [evaluateUpTo, hl]
        exact hih
      | some node =>
        have hne := other l node (by omega) (Nat.lt_succ_self l) hl
        rw [evaluateUpTo_succ hl, Function.update_of_ne hne.symm, hih]
    · rfl

theorem evaluate_held (other : ∀ (j : Nat) (node : Node ℚ), m.nodes[j]? = some node →
    node.output.index ≠ x) : m.evaluate held x = held x :=
  evaluateUpTo_eq (Nat.zero_le _) fun j node _ _ => other j node

end

variable [Inexact] {m : Network ℚ} {R : Type} [CommRing R] [Algebra ℚ R] {i : Nat} {node : Node ℚ}

theorem Algebraic.operand_lt (h : Algebraic m) (hi : m.nodes[i]? = some node) {x : TensorId}
    (hx : x ∈ node.inputs) : x.index < node.output.index := by
  obtain ⟨⟨t, ht, hk⟩, -⟩ := h.stepwise i node hi
  exact (h.lowered.later i i node node t hi hi le_rfl ht hk).1 x hx

/-- The values that operators give one after the other agree with all of them. -/
theorem Algebraic.evaluate_agrees (h : Algebraic m) (held : Nat → Nat → Nat → R) :
    m.Agrees (m.evaluate held) := by
  have hvalue : ∀ (i : Nat) (node : Node ℚ), m.nodes[i]? = some node →
      m.evaluate held node.output.index = fun step => if step < node.timeOffset then 0
        else node.op.image (m.shapeOf node.first) (m.shapeOf node.last) step
          (m.evaluate held node.first.index (m.slotOf node.first.index .current step))
          (m.evaluate held node.last.index (m.slotOf node.last.index .current step)) := by
    intro i node hi
    have hlt : i < m.nodes.size := (Array.getElem?_eq_some_iff.mp hi).1
    have hoperand : ∀ x ∈ node.inputs,
        m.evaluate held x.index = m.evaluateUpTo held i x.index := by
      intro x hx
      refine evaluateUpTo_eq hlt.le fun j other hij _ hj heq => ?_
      obtain ⟨⟨t, ht, hk⟩, -⟩ := h.stepwise j other hj
      have hlater := (h.lowered.later i j node other t hi hj hij ht hk).1 x hx
      omega
    have hown : m.evaluate held node.output.index =
        m.evaluateUpTo held (i + 1) node.output.index :=
      evaluateUpTo_eq hlt fun j other hij _ hj heq => by
        have hsame := h.lowered.output_inj h.stepwise hi hj heq
        omega
    have harity := (h.lowered.fitted i node hi).arity
    rw [hown, evaluateUpTo_succ hi, Function.update_self, hoperand _ (Node.first_mem harity),
      hoperand _ (Node.last_mem harity)]
  refine ⟨fun i node step hi hactive => ?_, fun i node step hi _ hlt => ?_⟩
  · obtain ⟨t, -, hle, -⟩ := hactive
    rw [hvalue i node hi]
    exact if_neg (Nat.not_lt.mpr hle)
  · rw [hvalue i node hi]
    exact if_pos hlt

/-- Values that agree with all operators are determined by what no operator writes. -/
theorem Agrees.unique {v w : Nat → Nat → Nat → R} (hv : m.Agrees v) (hw : m.Agrees w)
    (h : Algebraic m)
    (held : ∀ x s, m.Has ⟨x, .forward, s⟩ → (∀ (i : Nat) (node : Node ℚ),
      m.nodes[i]? = some node → node.output.index ≠ x) → v x s = w x s)
    {x s : Nat} (hhas : m.Has ⟨x, .forward, s⟩) : v x s = w x s := by
  induction x using Nat.strong_induction_on generalizing s with
  | _ x ih =>
    by_cases hout : ∃ (i : Nat) (node : Node ℚ), m.nodes[i]? = some node ∧ node.output.index = x
    · obtain ⟨i, node, hi, rfl⟩ := hout
      have harity := (h.lowered.fitted i node hi).arity
      obtain hlt | hle := Nat.lt_or_ge s node.timeOffset
      · rw [hv.idle i node s hi hhas hlt, hw.idle i node s hi hhas hlt]
      · have hactive : m.Active node s := by
          obtain ⟨t, ht, -, hslot⟩ := hhas
          rw [Tensor.slotCount, h.stepwise.kind_output hi ht] at hslot
          exact ⟨t, ht, hle, hslot⟩
        have hoperand : ∀ y ∈ node.inputs, v y.index (m.slotOf y.index .current s) =
            w y.index (m.slotOf y.index .current s) := fun y hy =>
          ih y.index (h.operand_lt hi hy) (h.lowered.has_current hi hy .forward s)
        rw [hv.computed i node s hi hactive, hw.computed i node s hi hactive,
          hoperand _ (Node.first_mem harity), hoperand _ (Node.last_mem harity)]
    · exact held x s hhas fun i node hi heq => hout ⟨i, node, hi, heq⟩

end Backprop.Network
