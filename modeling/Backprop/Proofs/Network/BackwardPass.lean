import Mathlib
import Backprop.Proofs.Network.Adjoint
import Backprop.Proofs.Network.Losses

/-! The backward pass from blank gradients: what it leaves in the gradients that no operator passes
on, weighted with how the values there vary, is how the sum of all losses varies. -/

namespace Backprop.Network

open Finset

variable [Inexact] {m k : Network ℚ} {b c start : Backend ℚ} {step count i : Nat} {node : Node ℚ}
  {R : Type} [CommRing R] [Algebra ℚ R] {φ : R →ₐ[ℚ] ℚ} {D : R →ₗ[ℚ] ℚ}
  {v : Nat → Nat → Nat → R} {total : ℚ}

/-! ### One operator after the other -/

theorem Algebraic.scratch_notLasting (h : Algebraic m) (hi : m.nodes[i]? = some node)
    (hactive : m.Active node step) (hs : step < m.maxSequence) (needs : node.op.NeedsScratch) :
    ¬m.Lasting (scratchPlace node) := by
  obtain ⟨allocation, ha⟩ := h.lowered.arranged
  have hfit := h.lowered.fitted i node hi
  have he := (h.lowered.emission hi hs).1 hactive
  obtain hnone | ⟨-, -, -, -, -, -, -, -, -, hscratch⟩ :=
    ha.emission_wires (fun j t ht => (h.lowered.sequence j t ht).1) hfit.joined he
  · rw [h.stepwise.requestsOf hi] at hnone
    cases hnone
  · obtain ⟨x, xs, hx⟩ := List.exists_cons_of_ne_nil (hscratch needs)
    obtain ⟨u, hu, hk⟩ := hfit.scratch x (hx ▸ List.mem_cons_self)
    rintro ⟨t, ht, hne⟩
    rw [scratchPlace, hx, List.head?_cons, Option.getD_some, hu] at ht
    cases ht
    exact hne hk

theorem Algebraic.seated (h : Algebraic m) (hi : m.nodes[i]? = some node)
    (hactive : m.Active node step) (hs : step < m.maxSequence) :
    m.Seated node.op (m.current .forward node.first step) (m.current .backward node.first step)
      (m.current .forward node.last step) (m.current .backward node.last step)
      (gradPlace node step) (scratchPlace node) := by
  have hfit := h.lowered.fitted i node hi
  have hfirst := Node.first_mem hfit.arity
  have hlast := Node.last_mem hfit.arity
  have hoperand : ∀ x ∈ node.inputs, ∀ side, m.Has (m.current side x step) ∧
      m.Lasting (m.current side x step) := fun x hx side =>
    ⟨h.lowered.has_current hi hx side step, hfit.inputs x hx⟩
  have houtput : m.Has (gradPlace node step) :=
    h.target_eq hi hactive ▸ h.lowered.has_target hi .backward step
  have hapart : ∀ x ∈ node.inputs, gradPlace node step ≠ m.current .backward x step := by
    intro x hx heq
    have hlt := h.operand_lt hi hx
    rw [gradPlace, current, Place.mk.injEq] at heq
    omega
  have hside : ∀ x y, m.current .forward x step ≠ m.current .backward y step := by
    intro x y heq
    rw [current, current, Place.mk.injEq] at heq
    exact absurd heq.2.1 (by decide)
  refine ⟨?_, ?_, h.lowered.has_scratch hi, h.scratch_notLasting hi hactive hs⟩
  · simp only [List.forall_mem_cons, List.not_mem_nil, false_imp_iff, implies_true, and_true]
    exact ⟨hoperand _ hfirst _, hoperand _ hfirst _, hoperand _ hlast _, hoperand _ hlast _,
      houtput, houtput.lasting rfl⟩
  · simp only [List.forall_mem_cons, List.not_mem_nil, false_imp_iff, implies_true, and_true]
    exact ⟨⟨hside _ _, hside _ _⟩, ⟨hside _ _, hside _ _⟩, hapart _ hfirst, hapart _ hlast⟩

theorem Sweeping.next (hv : m.Varied start φ D v) (h : Algebraic m) (roomy : m.Roomy)
    (unread : m.LossesUnread) (hs : step < m.maxSequence)
    (hc : m.Sweeping start (variation D v) total step (i + 1) b) {ds : List (Dispatch ℚ)}
    (hd : List.Forall₂ m.backend.Implements ((m.atStep step).emits .backward step i) ds)
    (hr : Backend.Runs ds.reverse b c) : m.Sweeping start (variation D v) total step i c := by
  by_cases hrun : ∃ node, m.nodes[i]? = some node ∧ m.Active node step
  · obtain ⟨node, hi, hactive⟩ := hrun
    obtain ⟨hop, told⟩ := h.operators i node hi
    rw [(h.lowered.emits_eq hs hi .backward).1 hactive, h.stepwise.requestsOf hi] at hd
    have hseated := h.seated hi hactive hs
    rw [← h.target_eq hi hactive] at hseated
    have hadds := h.lowered.backward_adds hc.layout hseated hop told hd hr
    rw [h.target_eq hi hactive] at hadds
    exact hc.run hv h roomy unread hi hactive hadds
  · have hidle : ∀ node, m.nodes[i]? = some node → ¬m.Active node step :=
      fun node hi hactive => hrun ⟨node, hi, hactive⟩
    have hempty : (m.atStep step).emits .backward step i = [] := by
      cases hi : m.nodes[i]? with
      | none =>
        have hnode : (m.atStep step).nodes[i]? = none := hi
        simp only [Network.emits, hnode]
      | some node => exact (h.lowered.emits_eq hs hi .backward).2 (hidle node hi)
    rw [hempty] at hd
    obtain rfl := List.forall₂_nil_left_iff.mp hd
    obtain rfl := hr
    exact hc.pass hv h hidle

theorem Sweeping.turn (h : Algebraic m)
    (hc : m.Sweeping start (variation D v) total (step + 1) 0 c) :
    m.Sweeping start (variation D v) total step m.nodes.size c :=
  ⟨hc.layout, hc.forward, h.pending_turn ▸ hc.total⟩

theorem Sweeping.all (hv : m.Varied start φ D v) (h : Algebraic m) (roomy : m.Roomy)
    (unread : m.LossesUnread) (hc : m.Sweeping start (variation D v) total m.maxSequence 0 b)
    {ds : List (Dispatch ℚ)} (hd : List.Forall₂ m.backend.Implements (m.scheduled .backward) ds)
    (hr : Backend.Runs ds.reverse b c) : m.Sweeping start (variation D v) total 0 0 c := by
  refine Backend.Runs.reverse_flatMap_range
    (P := fun step => m.Sweeping start (variation D v) total step 0) hd hr hc ?_
  intro step b c es hs hb hes hr
  exact Backend.Runs.reverse_flatMap_range
    (P := fun count => m.Sweeping start (variation D v) total step count) hes hr (hb.turn h)
    fun count b c es _ hb hes hr => hb.next hv h roomy unread hs hes hr

/-! ### The ends -/

theorem Varied.sweeping (hv : m.Varied start φ D v) (h : Algebraic m)
    (layout : m.backend.SameLayout start)
    (blank : ∀ p, m.Has p → p.side = .backward → entry (m.values start p) = 0) :
    m.Sweeping start (variation D v) (D (m.lossOf v)) m.maxSequence 0 start := by
  refine ⟨layout, fun _ _ _ _ => rfl, ?_⟩
  let place : TensorId × Nat → Place := fun q => ⟨q.1.index, .backward, q.2⟩
  have hsum : ∀ p ∈ m.pending m.maxSequence 0,
      ∑ i ∈ range (m.shapeOf ⟨p.tensor⟩).elements, m.gradients start p i * variation D v p i =
        if (⟨p.tensor⟩ : TensorId) ∈ m.reducedOutputs then variation D v p 0 else 0 := by
    intro p hp
    obtain ⟨hside, hhas, -⟩ := h.mem_pending.mp hp
    obtain ⟨t, ht, -⟩ := id hhas
    have hpos : 0 < (m.shapeOf ⟨p.tensor⟩).elements :=
      Network.shapeOf_eq (x := ⟨p.tensor⟩) ht ▸ h.lowered.elements _ t ht
    unfold gradients
    split
    · rw [sum_eq_single_of_mem 0 (Finset.mem_range.mpr hpos)
        fun i _ hne => by rw [Pi.single_eq_of_ne hne, zero_mul], Pi.single_eq_same, one_mul]
    · rw [blank p hhas hside]
      simp only [Pi.zero_apply, zero_mul, sum_const_zero]
  have hnodup : (m.losses.map place).Nodup := h.losses_nodup.map fun q q' heq => by
    simp only [place, Place.mk.injEq, true_and] at heq
    exact Prod.ext (TensorId.eq_of_index heq.1) heq.2
  have hlosses : D (m.lossOf v) = ∑ p ∈ (m.losses.map place).toFinset, variation D v p 0 := by
    rw [List.sum_toFinset _ hnodup, List.map_map, map_lossOf]
    rfl
  have hmem : ∀ p, p ∈ (m.losses.map place).toFinset ↔ ∃ (i : Nat) (node : Node ℚ) (step : Nat),
      m.nodes[i]? = some node ∧ node.op.reducesBatch = true ∧ step < m.maxSequence ∧
        m.Active node step ∧ gradPlace node step = p := by
    intro p
    simp only [List.mem_toFinset, List.mem_map, Prod.exists, mem_losses]
    constructor
    · rintro ⟨_, step, ⟨i, node, hi, hop, rfl, hs, hactive⟩, rfl⟩
      exact ⟨i, node, step, hi, (h.reducesBatch_iff hi).mpr hop, hs, hactive, rfl⟩
    · rintro ⟨i, node, step, hi, hop, hs, hactive, rfl⟩
      exact ⟨_, step, ⟨i, node, hi, (h.reducesBatch_iff hi).mp hop, rfl, hs, hactive⟩, rfl⟩
  rw [weighted, sum_congr rfl hsum, hlosses, ← sum_filter]
  refine (sum_subset (fun p hp => ?_) fun p hp hno => ?_).symm
  · obtain ⟨i, node, step, hi, hop, hs, hactive, rfl⟩ := (hmem p).mp hp
    refine mem_filter.mpr ⟨h.mem_pending.mpr ⟨rfl, ?_, fun _ _ _ _ => .inl hs⟩, ?_⟩
    · exact h.target_eq hi hactive ▸ h.lowered.has_target hi .backward step
    · exact (h.mem_reducedOutputs hi).mpr hop
  · obtain ⟨hp, hloss⟩ := mem_filter.mp hp
    obtain ⟨hside, hhas, hlater⟩ := h.mem_pending.mp hp
    obtain ⟨i, node, hi, hop, hout⟩ := exists_loss hloss
    have hplace : gradPlace node p.slot = p := by rw [gradPlace, hout, ← hside]
    have hslot := hlater i node hi (congrArg TensorId.index hout)
    have hidle : ¬m.Active node p.slot := fun hactive =>
      hno ((hmem p).mpr ⟨i, node, _, hi, hop, by omega, hactive, hplace⟩)
    rw [← hplace, hv.variation_idle h hi (hplace ▸ hhas) hidle, Pi.zero_apply]

/-- A gradient that no operator passes on is the derivative of the losses, where what stands at its
entry is all that varies. -/
theorem Sweeping.gradient (h : Algebraic m) {total : ℚ} {τ : Place → Nat → ℚ}
    (hc : m.Sweeping start τ total 0 0 c) {p : Place} (hp : m.Has p) (hside : p.side = .backward)
    (held : ∀ (i : Nat) (node : Node ℚ), m.nodes[i]? = some node → node.output.index ≠ p.tensor)
    (hi : i < (m.shapeOf ⟨p.tensor⟩).elements)
    (varies : ∀ q, m.Has q → q.side = .backward → (∀ (i : Nat) (node : Node ℚ),
      m.nodes[i]? = some node → node.output.index ≠ q.tensor) →
        τ q = (Pi.single p (Pi.single i 1) : Place → Nat → ℚ) q) :
    entry (m.values c p) i = total := by
  have hpending : ∀ q, q ∈ m.pending 0 0 ↔ q.side = .backward ∧ m.Has q ∧ ∀ (i : Nat)
      (node : Node ℚ), m.nodes[i]? = some node → node.output.index ≠ q.tensor := by
    intro q
    simp only [h.mem_pending, Nat.not_lt_zero, and_false, or_false, ne_eq]
  have hloss : (⟨p.tensor⟩ : TensorId) ∉ m.reducedOutputs := fun hloss => by
    obtain ⟨j, node, hj, -, hout⟩ := exists_loss hloss
    exact held j node hj (congrArg TensorId.index hout)
  have hsum : m.weighted (m.gradients c) τ (m.pending 0 0) = m.gradients c p i := by
    calc m.weighted (m.gradients c) τ (m.pending 0 0)
        = ∑ q ∈ m.pending 0 0, ∑ j ∈ range (m.shapeOf ⟨q.tensor⟩).elements,
            (Pi.single p (Pi.single i 1) : Place → Nat → ℚ) q j * m.gradients c q j :=
          sum_congr rfl fun q hq => sum_congr rfl fun j _ => by
            obtain ⟨hside, hhas, hq⟩ := (hpending q).mp hq
            rw [varies q hhas hside hq, mul_comm]
      _ = ∑ j ∈ range (m.shapeOf ⟨p.tensor⟩).elements,
            (Pi.single i 1 : Nat → ℚ) j * m.gradients c p j :=
          sum_single_mul ((hpending p).mpr ⟨hside, hp, held⟩) _ _ _
      _ = m.gradients c p i := by
          rw [sum_eq_single_of_mem i (Finset.mem_range.mpr hi) fun j _ hne => by
            rw [Pi.single_eq_of_ne hne, zero_mul], Pi.single_eq_same, one_mul]
  rw [← hc.total, hsum, gradients, if_neg hloss]

end Backprop.Network
