import Mathlib
import Backprop.Proofs.Network.Accumulation

/-! The backward pass as the adjoint of the forward pass. Weigh the derivatives of what stands in
the slots by the gradients there. Over the slots whose gradient has not been passed on yet the sum
stays the same all along the pass: it begins as the derivative of the losses, and ends as a sum over
what no operator writes. -/

namespace Backprop

open Finset

theorem Backend.Runs.reverse_flatMap_range {α : Type} [Scalar α] {b₀ b c : Backend α}
    {P : Nat → Backend α → Prop} {f : Nat → List (Request α)} {n : Nat} {ds : List (Dispatch α)}
    (hd : List.Forall₂ b₀.Implements ((List.range n).flatMap f) ds) (hr : Runs ds.reverse b c)
    (start : P n b)
    (next : ∀ i b c es, i < n → P (i + 1) b → List.Forall₂ b₀.Implements (f i) es →
      Runs es.reverse b c → P i c) : P 0 c := by
  induction n generalizing ds b with
  | zero =>
    simp only [List.range_zero, List.flatMap_nil, List.forall₂_nil_left_iff] at hd
    subst hd
    obtain rfl := hr
    exact start
  | succ n ih =>
    rw [List.range_succ, List.flatMap_append, List.flatMap_singleton] at hd
    have htake := (List.forall₂_take_append _ _ _ hd.flip).flip
    have hdrop := (List.forall₂_drop_append _ _ _ hd.flip).flip
    rw [← List.take_append_drop ((List.range n).flatMap f).length ds, List.reverse_append] at hr
    obtain ⟨m, hlast, hr⟩ := Runs.append.mp hr
    refine ih htake hr (next n b m _ (Nat.lt_succ_self n) start hdrop hlast) ?_
    exact fun i b c es hi => next i b c es (Nat.lt_succ_of_lt hi)

theorem sum_single_mul {ι : Type} [DecidableEq ι] {P : Finset ι} {a : ι} (ha : a ∈ P)
    (size : ι → Nat) (f : Nat → ℚ) (τ : ι → Nat → ℚ) :
    ∑ p ∈ P, ∑ i ∈ range (size p), (Pi.single a f : ι → Nat → ℚ) p i * τ p i =
      ∑ i ∈ range (size a), f i * τ a i := by
  rw [sum_eq_single_of_mem a ha, Pi.single_eq_same]
  intro p _ hne
  refine sum_eq_zero fun i _ => ?_
  rw [Pi.single_eq_of_ne hne, Pi.zero_apply, zero_mul]

namespace Network

variable [Inexact] {m k : Network ℚ} {b c start : Backend ℚ} {step count i : Nat} {node : Node ℚ}

/-! ### Places of gradients -/

open scoped Classical in
/-- The places of gradients that are not passed on before the first operators are played at a
step. -/
noncomputable def pending (m : Network ℚ) (step count : Nat) : Finset Place :=
  ((range m.tensors.size ×ˢ range (m.maxSequence + 1)).image fun q => ⟨q.1, .backward, q.2⟩).filter
    fun p => m.Has p ∧ ∀ (i : Nat) (node : Node ℚ), m.nodes[i]? = some node →
      node.output.index = p.tensor → p.slot < step ∨ p.slot = step ∧ i < count

theorem Algebraic.mem_pending (h : Algebraic m) {p : Place} : p ∈ m.pending step count ↔
    p.side = .backward ∧ m.Has p ∧ ∀ (i : Nat) (node : Node ℚ), m.nodes[i]? = some node →
      node.output.index = p.tensor → p.slot < step ∨ p.slot = step ∧ i < count := by
  simp only [pending, mem_filter, mem_image, mem_product, Finset.mem_range]
  refine ⟨?_, fun ⟨hside, hhas, hp⟩ => ⟨⟨(p.tensor, p.slot), ?_, by rw [← hside]⟩, hhas, hp⟩⟩
  · rintro ⟨⟨q, -, rfl⟩, hhas, hp⟩
    exact ⟨rfl, hhas, hp⟩
  · obtain ⟨t, ht, hl, hlt⟩ := hhas
    have hkind : t.kind ≠ .scratch := fun hk => by
      have hback := hl hside
      rw [hk] at hback
      cases hback
    have hle := (h.lowered.sequence _ t ht).2 hkind
    refine ⟨(Array.getElem?_eq_some_iff.mp ht).1, hlt.trans_le ?_⟩
    have hcount : t.slotCount ≤ max t.sequence 1 + 1 := by
      unfold Tensor.slotCount TensorKind.slotCount
      split <;> omega
    have hpos := (h.lowered.sequence _ t ht).1
    omega

omit [Inexact] in
theorem Has.lasting {p : Place} (hp : m.Has p) (hside : p.side = .backward) : m.Lasting p := by
  obtain ⟨t, ht, hl, -⟩ := hp
  refine ⟨t, ht, fun hk => ?_⟩
  have hback := hl hside
  rw [hk] at hback
  cases hback

/-- An operand has its gradient from operators that are played before the one that wrote it. -/
theorem Algebraic.operand_pending (h : Algebraic m) (hi : m.nodes[i]? = some node) {x : TensorId}
    (hx : x ∈ node.inputs) (step : Nat) : m.current .backward x step ∈ m.pending step i := by
  have hhas := h.lowered.has_current hi hx .backward step
  refine h.mem_pending.mpr ⟨rfl, hhas, fun j other hj heq => ?_⟩
  obtain ⟨⟨t, ht, hk⟩, -⟩ := h.stepwise j other hj
  have heq' : other.output.index = x.index := heq
  rw [heq'] at ht
  rw [h.lowered.current_eq hi hx ht, readSlot, if_neg (by simp [hk])]
  have hlt : j < i := by
    by_contra hle
    have hlater := (h.lowered.later i j node other t hi hj (by omega) (heq' ▸ ht) hk).1 x hx
    omega
  have hmod := Nat.mod_le step t.sequence
  simp only
  omega

/-- The place of an output where it may be written at a step. -/
def gradPlace (node : Node ℚ) (step : Nat) : Place := ⟨node.output.index, .backward, step⟩

theorem Algebraic.gradPlace_notMem (h : Algebraic m) (hi : m.nodes[i]? = some node) (step : Nat) :
    gradPlace node step ∉ m.pending step i := by
  intro hmem
  have hlt := (h.mem_pending.mp hmem).2.2 i node hi rfl
  simp only [gradPlace] at hlt
  omega

theorem Algebraic.pending_succ (h : Algebraic m) (hi : m.nodes[i]? = some node)
    (hhas : m.Has (gradPlace node step)) :
    m.pending step (i + 1) = insert (gradPlace node step) (m.pending step i) := by
  ext p
  rw [mem_insert, h.mem_pending, h.mem_pending]
  constructor
  · rintro ⟨hside, hp, hlater⟩
    by_cases heq : p = gradPlace node step
    · exact .inl heq
    · refine .inr ⟨hside, hp, fun j other hj hout => ?_⟩
      obtain hlt | ⟨hslot, hle⟩ := hlater j other hj hout
      · exact .inl hlt
      · refine .inr ⟨hslot, Nat.lt_of_le_of_ne (Nat.lt_succ_iff.mp hle) ?_⟩
        rintro rfl
        rw [hi] at hj
        cases hj
        exact heq (by rw [gradPlace, hout, ← hside, ← hslot])
  · rintro (rfl | ⟨hside, hp, hlater⟩)
    · refine ⟨rfl, hhas, fun j other hj hout => .inr ⟨rfl, ?_⟩⟩
      rw [h.lowered.output_inj h.stepwise hi hj hout]
      exact Nat.lt_succ_self i
    · exact ⟨hside, hp, fun j other hj hout => (hlater j other hj hout).imp id
        fun hlt => ⟨hlt.1, hlt.2.trans (Nat.lt_succ_self i)⟩⟩

theorem Algebraic.pending_succ_of_not (h : Algebraic m)
    (idle : ∀ node, m.nodes[i]? = some node → ¬m.Has (gradPlace node step)) :
    m.pending step (i + 1) = m.pending step i := by
  ext p
  rw [h.mem_pending, h.mem_pending]
  refine and_congr_right fun hside => and_congr_right fun hp => ?_
  refine forall_congr' fun j => forall_congr' fun other => forall_congr' fun hj =>
    forall_congr' fun hout => or_congr Iff.rfl (and_congr_right fun hslot => ?_)
  refine ⟨fun hlt => Nat.lt_of_le_of_ne (Nat.lt_succ_iff.mp hlt) ?_, fun hlt => by omega⟩
  rintro rfl
  refine idle other hj ?_
  rwa [gradPlace, hout, ← hside, ← hslot]

theorem Algebraic.pending_turn (h : Algebraic m) :
    m.pending (step + 1) 0 = m.pending step m.nodes.size := by
  ext p
  rw [h.mem_pending, h.mem_pending]
  refine and_congr_right fun _ => and_congr_right fun _ => forall_congr' fun j =>
    forall_congr' fun other => forall_congr' fun hj => forall_congr' fun _ => ?_
  have hlt := (Array.getElem?_eq_some_iff.mp hj).1
  omega

/-! ### Weighted derivatives -/

def gradients (m : Network ℚ) (c : Backend ℚ) (p : Place) : Nat → ℚ :=
  if ⟨p.tensor⟩ ∈ m.reducedOutputs then Pi.single 0 1 else entry (m.values c p)

def weighted (m : Network ℚ) (g τ : Place → Nat → ℚ) (P : Finset Place) : ℚ :=
  ∑ p ∈ P, ∑ i ∈ range (m.shapeOf ⟨p.tensor⟩).elements, g p i * τ p i

theorem Algebraic.weighted_succ (h : Algebraic m) (hi : m.nodes[i]? = some node)
    (hhas : m.Has (gradPlace node step)) (g τ : Place → Nat → ℚ) :
    m.weighted g τ (m.pending step (i + 1)) =
      ∑ j ∈ range (m.shapeOf node.output).elements,
        g (gradPlace node step) j * τ (gradPlace node step) j +
      m.weighted g τ (m.pending step i) := by
  rw [weighted, h.pending_succ hi hhas, sum_insert (h.gradPlace_notMem hi step)]
  rfl

theorem weighted_add_single (g τ : Place → Nat → ℚ) {P : Finset Place} {p : Place} (hp : p ∈ P)
    (f : Nat → ℚ) : m.weighted (g + Pi.single p f) τ P =
      m.weighted g τ P + ∑ j ∈ range (m.shapeOf ⟨p.tensor⟩).elements, f j * τ p j := by
  rw [← sum_single_mul hp (fun p => (m.shapeOf ⟨p.tensor⟩).elements) f τ, weighted, weighted,
    ← sum_add_distrib]
  refine sum_congr rfl fun q _ => ?_
  rw [← sum_add_distrib]
  exact sum_congr rfl fun j _ => add_mul _ _ _

/-- No operator reads a loss. -/
def LossesUnread (m : Network ℚ) : Prop :=
  ∀ (i : Nat) (node : Node ℚ), m.nodes[i]? = some node → ∀ x ∈ node.inputs, x ∉ m.reducedOutputs

/-- Values over an algebra which a homomorphism takes to those that a forward pass has left, and a
derivation of them, by which labels do not change. -/
structure Varied {R : Type} [CommRing R] [Algebra ℚ R] (m : Network ℚ) (start : Backend ℚ)
    (φ : R →ₐ[ℚ] ℚ) (D : R →ₗ[ℚ] ℚ) (v : Nat → Nat → Nat → R) : Prop where
  leibniz : ∀ p q, D (p * q) = D p * φ q + φ p * D q
  agrees : m.Agrees v
  values : ∀ x s, m.Has ⟨x, .forward, s⟩ → (fun i => φ (v x s i)) = m.entries start .forward x s
  labels : ∀ (i : Nat) (node : Node ℚ), m.nodes[i]? = some node → node.op.reducesBatch = true →
    ∀ s j, D (v node.last.index s j) = 0

omit [Inexact] in
theorem exists_loss {x : TensorId} (hx : x ∈ m.reducedOutputs) : ∃ (i : Nat) (node : Node ℚ),
    m.nodes[i]? = some node ∧ node.op.reducesBatch = true ∧ node.output = x := by
  simp only [reducedOutputs, List.mem_map, List.mem_filter, Array.mem_toList_iff] at hx
  obtain ⟨node, ⟨hmem, hop⟩, hout⟩ := hx
  obtain ⟨i, hi⟩ := Array.getElem?_of_mem hmem
  exact ⟨i, node, hi, hop, hout⟩

theorem Algebraic.mem_reducedOutputs (h : Algebraic m) (hi : m.nodes[i]? = some node) :
    node.output ∈ m.reducedOutputs ↔ node.op.reducesBatch = true := by
  refine ⟨fun hloss => ?_, fun hop => ?_⟩
  · obtain ⟨j, other, hj, hop, hout⟩ := exists_loss hloss
    obtain rfl := h.lowered.output_inj h.stepwise hi hj (congrArg TensorId.index hout)
    rw [hi] at hj
    cases hj
    exact hop
  · simp only [reducedOutputs, List.mem_map, List.mem_filter, Array.mem_toList_iff]
    exact ⟨node, ⟨Array.mem_of_getElem? hi, hop⟩, rfl⟩

theorem Algebraic.received_eq (h : Algebraic m) (hi : m.nodes[i]? = some node) (c : Backend ℚ)
    (step : Nat) : received node.op (m.values c (gradPlace node step)) =
      m.gradients c (gradPlace node step) := by
  rw [received, gradients]
  by_cases hop : node.op.reducesBatch = true
  · have hmem : (⟨(gradPlace node step).tensor⟩ : TensorId) ∈ m.reducedOutputs :=
      (h.mem_reducedOutputs hi).mpr hop
    rw [if_pos hop, if_pos hmem]
  · have hmem : (⟨(gradPlace node step).tensor⟩ : TensorId) ∉ m.reducedOutputs := fun hmem =>
      hop ((h.mem_reducedOutputs hi).mp hmem)
    rw [if_neg hop, if_neg hmem]

theorem Algebraic.target_eq (h : Algebraic m) (hi : m.nodes[i]? = some node)
    (hactive : m.Active node step) : m.target .backward node step = gradPlace node step :=
  h.stepwise.target hi hactive .backward

theorem Adds.gradients {f g : Nat → ℚ} (hadds : m.Adds
      (Pi.single (m.current .backward node.first step) f +
        Pi.single (m.current .backward node.last step) g) b c)
    (hfirst : node.first ∉ m.reducedOutputs) (hlast : node.last ∉ m.reducedOutputs) {p : Place}
    (hp : m.Has p) (hside : p.side = .backward) :
    m.gradients c p = m.gradients b p + (Pi.single (m.current .backward node.first step) f +
      Pi.single (m.current .backward node.last step) g : Place → Nat → ℚ) p := by
  by_cases hloss : (⟨p.tensor⟩ : TensorId) ∈ m.reducedOutputs
  · have hne : ∀ x ∉ m.reducedOutputs, p ≠ m.current .backward x step := by
      rintro x hx rfl
      exact hx hloss
    rw [Network.gradients, Network.gradients, if_pos hloss, if_pos hloss, Pi.add_apply,
      Pi.single_eq_of_ne (hne _ hfirst), Pi.single_eq_of_ne (hne _ hlast), add_zero, add_zero]
  · rw [Network.gradients, Network.gradients, if_neg hloss, if_neg hloss,
      hadds.entry p hp (hp.lasting hside)]

theorem Adds.weighted (h : Algebraic m) (hi : m.nodes[i]? = some node) {f g : Nat → ℚ}
    (hadds : m.Adds (Pi.single (m.current .backward node.first step) f +
      Pi.single (m.current .backward node.last step) g) b c)
    (hx : node.first ∈ node.inputs) (hy : node.last ∈ node.inputs)
    (hfirst : node.first ∉ m.reducedOutputs) (hlast : node.last ∉ m.reducedOutputs)
    (τ : Place → Nat → ℚ) :
    m.weighted (m.gradients c) τ (m.pending step i) =
      m.weighted (m.gradients b) τ (m.pending step i) +
      ∑ j ∈ range (m.shapeOf node.first).elements,
        f j * τ (m.current .backward node.first step) j +
      ∑ j ∈ range (m.shapeOf node.last).elements,
        g j * τ (m.current .backward node.last step) j := by
  have hsum : m.weighted (m.gradients c) τ (m.pending step i) =
      m.weighted (m.gradients b + Pi.single (m.current .backward node.first step) f +
        Pi.single (m.current .backward node.last step) g) τ (m.pending step i) := by
    refine sum_congr rfl fun p hp => sum_congr rfl fun j _ => congrArg (· * _) ?_
    obtain ⟨hside, hhas, -⟩ := h.mem_pending.mp hp
    rw [hadds.gradients hfirst hlast hhas hside, add_assoc]
    rfl
  rw [hsum, weighted_add_single _ _ (h.operand_pending hi hy step),
    weighted_add_single _ _ (h.operand_pending hi hx step)]
  rfl

section

variable {R : Type} [CommRing R] [Algebra ℚ R] {φ : R →ₐ[ℚ] ℚ} {D : R →ₗ[ℚ] ℚ}
  {v : Nat → Nat → Nat → R}

/-- How the values at the place of a gradient vary. -/
def variation (D : R →ₗ[ℚ] ℚ) (v : Nat → Nat → Nat → R) (p : Place) (i : Nat) : ℚ :=
  D (v p.tensor p.slot i)

theorem Varied.variation_idle (hv : m.Varied start φ D v) (h : Algebraic m)
    (hi : m.nodes[i]? = some node) (hhas : m.Has (gradPlace node step))
    (idle : ¬m.Active node step) : variation D v (gradPlace node step) = 0 := by
  obtain ⟨t, ht, -, hslot⟩ := id hhas
  have hlt : step < t.sequence := by
    rw [Tensor.slotCount, h.stepwise.kind_output hi ht] at hslot
    exact hslot
  have hoffset : step < node.timeOffset := by
    by_contra hle
    exact idle ⟨t, ht, Nat.le_of_not_lt hle, hlt⟩
  funext j
  simp only [variation, gradPlace, Pi.zero_apply, map_zero,
    hv.agrees.idle i node step hi ⟨t, ht, t.lives_forward, hslot⟩ hoffset]

/-- What an operator adds to the gradients of its operands weighs as much as the gradient of its
output. -/
theorem Varied.transposes (hv : m.Varied start φ D v) (h : Algebraic m) (roomy : m.Roomy)
    (hi : m.nodes[i]? = some node) (hactive : m.Active node step) (g : Nat → ℚ) :
    ∑ j ∈ range (m.shapeOf node.output).elements, g j * variation D v (gradPlace node step) j =
      ∑ j ∈ range (m.shapeOf node.first).elements,
          node.op.left (m.shapeOf node.first) (m.shapeOf node.last) step
            (entry (m.values start (m.current .forward node.first step)))
            (entry (m.values start (m.current .forward node.last step))) g j *
              variation D v (m.current .backward node.first step) j +
        ∑ j ∈ range (m.shapeOf node.last).elements,
          passedLast node.op (m.shapeOf node.first) (m.shapeOf node.last)
            (entry (m.values start (m.current .forward node.first step)))
            (entry (m.values start (m.current .forward node.last step))) g j *
              variation D v (m.current .backward node.last step) j := by
  have harity := (h.lowered.fitted i node hi).arity
  have hreach := roomy i node step hi hactive
  have hfirst := hv.values _ _ (h.lowered.has_current hi (Node.first_mem harity) .forward step)
  have hlast := hv.values _ _ (h.lowered.has_current hi (Node.last_mem harity) .forward step)
  have htransposed := node.op.sum_derivation hv.leibniz step (g := g)
    (x := v node.first.index (m.slotOf node.first.index .current step))
    (y := v node.last.index (m.slotOf node.last.index .current step))
    hreach.first hreach.second hreach.output
  rw [← hv.agrees.computed i node step hi hactive, hfirst, hlast] at htransposed
  refine (sum_congr rfl fun j _ => mul_comm _ _).trans (htransposed.trans (congrArg _ ?_))
  refine sum_congr rfl fun j _ => ?_
  unfold passedLast
  split
  · next hop =>
    have hlabel := hv.labels i node hi hop (m.slotOf node.last.index .current step) j
    simp only [variation, current, hlabel, mul_zero]
  · rfl

/-- A backward pass over the last operators at a step, and over all at later steps. -/
structure Sweeping (m : Network ℚ) (start : Backend ℚ) (τ : Place → Nat → ℚ) (total : ℚ)
    (step count : Nat) (c : Backend ℚ) : Prop where
  layout : m.backend.SameLayout c
  forward : ∀ p, m.Has p → m.Lasting p → p.side = .forward →
    entry (m.values c p) = entry (m.values start p)
  total : m.weighted (m.gradients c) τ (m.pending step count) = total

variable {total : ℚ}

theorem Sweeping.pass (hv : m.Varied start φ D v) (h : Algebraic m)
    (hc : m.Sweeping start (variation D v) total step (i + 1) c)
    (idle : ∀ node, m.nodes[i]? = some node → ¬m.Active node step) :
    m.Sweeping start (variation D v) total step i c := by
  refine ⟨hc.layout, hc.forward, ?_⟩
  by_cases hslot : ∃ node, m.nodes[i]? = some node ∧ m.Has (gradPlace node step)
  · obtain ⟨node, hi, hhas⟩ := hslot
    have htotal := hc.total
    have hzero := hv.variation_idle h hi hhas (idle node hi)
    rw [h.weighted_succ hi hhas] at htotal
    simpa only [hzero, Pi.zero_apply, mul_zero, sum_const_zero, zero_add] using htotal
  · rw [← h.pending_succ_of_not fun node hi hhas => hslot ⟨node, hi, hhas⟩]
    exact hc.total

theorem Sweeping.run (hv : m.Varied start φ D v) (h : Algebraic m) (roomy : m.Roomy)
    (unread : m.LossesUnread) (hc : m.Sweeping start (variation D v) total step (i + 1) b)
    (hi : m.nodes[i]? = some node) (hactive : m.Active node step)
    (hadds : m.Adds (Pi.single (m.current .backward node.first step)
        (node.op.left (m.shapeOf node.first) (m.shapeOf node.last) step
          (entry (m.values b (m.current .forward node.first step)))
          (entry (m.values b (m.current .forward node.last step)))
          (received node.op (m.values b (gradPlace node step)))) +
      Pi.single (m.current .backward node.last step)
        (passedLast node.op (m.shapeOf node.first) (m.shapeOf node.last)
          (entry (m.values b (m.current .forward node.first step)))
          (entry (m.values b (m.current .forward node.last step)))
          (received node.op (m.values b (gradPlace node step))))) b c) :
    m.Sweeping start (variation D v) total step i c := by
  have harity := (h.lowered.fitted i node hi).arity
  have hfirst := Node.first_mem harity
  have hlast := Node.last_mem harity
  have hstart : ∀ x ∈ node.inputs, entry (m.values b (m.current .forward x step)) =
      entry (m.values start (m.current .forward x step)) := fun x hx =>
    hc.forward _ (h.lowered.has_current hi hx .forward step)
      ((h.lowered.fitted i node hi).inputs x hx) rfl
  rw [hstart _ hfirst, hstart _ hlast, h.received_eq hi] at hadds
  refine ⟨hadds.layout, fun p hp hl hside => ?_, ?_⟩
  · have hne : ∀ x, p ≠ m.current .backward x step := by
      rintro x rfl
      cases hside
    rw [hadds.entry p hp hl, ← hc.forward p hp hl hside, Pi.add_apply,
      Pi.single_eq_of_ne (hne _), Pi.single_eq_of_ne (hne _), add_zero, add_zero]
  · have hhas : m.Has (gradPlace node step) :=
      h.target_eq hi hactive ▸ h.lowered.has_target hi .backward step
    have htotal := hc.total
    rw [h.weighted_succ hi hhas, hv.transposes h roomy hi hactive] at htotal
    rw [hadds.weighted h hi hfirst hlast (unread i node hi _ hfirst) (unread i node hi _ hlast),
      ← htotal, add_assoc, add_comm]

end

end Network

end Backprop
