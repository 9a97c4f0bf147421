import Mathlib
import Backprop.Proofs.Network.Places

/-! The graph of a compiled network: what is known of its operators and of their order, and the
requests that stand in its lists. -/

namespace Backprop

variable {α : Type}

namespace Network

theorem atStep_tensor_ok_iff {m : Network α} {step : Nat} {x : TensorId} {t : Tensor} :
    (m.atStep step).tensor x = .ok t ↔
      ∃ u, m.tensors[x.index]? = some u ∧ t = u.atStep step := by
  rw [tensor_ok_iff]
  simp only [Network.atStep, Array.getElem?_map, Option.map_eq_some_iff]
  exact exists_congr fun u => and_congr_right fun _ => eq_comm

theorem shapeOf_eq {m : Network α} {x : TensorId} {t : Tensor}
    (ht : m.tensors[x.index]? = some t) : m.shapeOf x = t.shape := by
  rw [shapeOf, ht]

/-- An operator of a compiled network. -/
structure Fitted (m : Network α) (node : Node α) : Prop where
  arity : node.inputs.length = node.op.arity
  inputs : ∀ x ∈ node.inputs, ∃ t, m.tensors[x.index]? = some t ∧ t.kind ≠ .scratch
  output : ∃ t, m.tensors[node.output.index]? = some t ∧ (t.kind = .intermediate ∨
    t.kind = .recurrent ∧ node.timeOffset = 0 ∧ node.output ∉ node.inputs ∧
      (node.op = .copy 1 ∨ node.op = .copyInit))
  scratch : ∀ x ∈ node.scratch, ∃ t, m.tensors[x.index]? = some t ∧ t.kind = .scratch

/-- The tensors of an operator, whatever else they are. -/
structure Joined (m : Network α) (node : Node α) : Prop where
  arity : node.inputs.length = node.op.arity
  inputs : ∀ x ∈ node.inputs, ∃ t, m.tensors[x.index]? = some t ∧ t.kind ≠ .scratch
  output : ∃ t, m.tensors[node.output.index]? = some t ∧ t.kind ≠ .scratch
  scratch : ∀ x ∈ node.scratch, ∃ t, m.tensors[x.index]? = some t ∧ t.kind = .scratch

theorem Fitted.joined {m : Network α} {node : Node α} (h : m.Fitted node) : m.Joined node := by
  refine ⟨h.arity, h.inputs, ?_, h.scratch⟩
  obtain ⟨t, ht, hk | ⟨hk, -⟩⟩ := h.output
  · exact ⟨t, ht, by simp [hk]⟩
  · exact ⟨t, ht, by simp [hk]⟩

/-- A compiled network. -/
structure Lowered [Zero α] (m : Network α) : Prop where
  sequence : ∀ (i : Nat) (t : Tensor), m.tensors[i]? = some t →
    0 < t.sequence ∧ (t.kind ≠ .scratch → t.sequence ≤ m.maxSequence)
  elements : ∀ (i : Nat) (t : Tensor), m.tensors[i]? = some t → 0 < t.shape.elements
  fitted : ∀ (i : Nat) (node : Node α), m.nodes[i]? = some node → m.Fitted node
  /-- An output of its own is later than all that was there before. -/
  later : ∀ (i j : Nat) (a b : Node α) (t : Tensor), m.nodes[i]? = some a → m.nodes[j]? = some b →
    i ≤ j → m.tensors[b.output.index]? = some t → t.kind = .intermediate →
      (∀ x ∈ a.inputs, x.index < b.output.index) ∧ (i < j → a.output.index < b.output.index)
  /-- A first slot is written before it is read. -/
  first : ∀ (i j : Nat) (a b : Node α), m.nodes[i]? = some a → m.nodes[j]? = some b → i ≤ j →
    b.op = .copyInit → b.output ∉ a.inputs
  arranged : ∃ allocation, Arranged m m.auxiliaryCount allocation
  emits : ∀ step < m.maxSequence, ∀ i, (m.atStep step).EmitsAt step i
  lists : ∀ pass, List.Forall₂ m.backend.Implements
    (m.scheduled pass ++ if pass = .update then m.updates else [])
    (m.backend.dispatches.get pass).toList

section

variable {b : Backend α} {n m : Network α} {batch : Nat}

theorem Expanded.tensor_cases (h : Expanded n m batch) {i : Nat} {t : Tensor}
    (ht : m.tensors[i]? = some t) :
    (∃ u, n.tensors[i]? = some u ∧ (n.batchTensor batch i u).SameButStorage t) ∨
      n.tensors.size ≤ i ∧ ∃ elements, (scratchTensor elements).SameButStorage t := by
  by_cases hi : i < n.tensors.size
  · left
    obtain ⟨t', ht', hs⟩ := h.tensor i _ (Array.getElem?_eq_getElem hi)
    rw [ht] at ht'
    cases ht'
    exact ⟨_, Array.getElem?_eq_getElem hi, hs⟩
  · exact .inr ⟨Nat.le_of_not_lt hi, h.scratch i t (Nat.le_of_not_lt hi) ht⟩

theorem Expanded.tensor_keeps (h : Expanded n m batch) {i : Nat} {u : Tensor}
    (hu : n.plain[i]? = some u) :
    ∃ t, m.tensors[i]? = some t ∧ t.kind = u.kind ∧ t.sequence = u.sequence ∧
      t.timeOffset = u.timeOffset := by
  rw [plain_getElem?, Option.map_eq_some_iff] at hu
  obtain ⟨v, hv, rfl⟩ := hu
  obtain ⟨t, ht, hs⟩ := h.tensor i v hv
  rw [batchTensor_eq] at hs
  exact ⟨t, ht, by rw [hs]; rfl, by rw [hs]; rfl, by rw [hs]; rfl⟩

/-- An operator of such a network is one that was built, with scratch. -/
theorem Expanded.origin (h : Expanded n m batch) {i : Nat} {node : Node α}
    (hi : m.nodes[i]? = some node) :
    ∃ node', n.nodes[i]? = some node' ∧ node.op = node'.op ∧ node.inputs = node'.inputs ∧
      node.output = node'.output ∧ node.timeOffset = node'.timeOffset ∧
      (∀ x ∈ node.scratch, n.tensors.size ≤ x.index) ∧ ∃ needs, m.nodeScratch node' = .ok needs ∧
        List.Forall₂ (fun x need => ∃ t, m.tensors[x.index]? = some t ∧ need ≤ t.shape.elements)
          node.scratch needs := by
  have hlt : i < n.nodes.size := h.size_nodes ▸ (Array.getElem?_eq_some_iff.mp hi).1
  obtain ⟨ids, needs, hsame, hids, hneeds, hcov⟩ := h.node i _ (Array.getElem?_eq_getElem hlt)
  rw [hi, Option.map_some, Option.some.injEq] at hsame
  obtain ⟨op, inputs, output, timeOffset, scratch, forward, backward⟩ := node
  simp only [unlisted, Node.mk.injEq, and_true] at hsame
  obtain ⟨rfl, rfl, rfl, rfl, rfl⟩ := hsame
  exact ⟨_, Array.getElem?_eq_getElem hlt, rfl, rfl, rfl, rfl, hids, needs, hneeds, hcov⟩

theorem Expanded.sequence_pos (hn : Outline b n) (h : Expanded n m batch) {i : Nat} {t : Tensor}
    (ht : m.tensors[i]? = some t) : 0 < t.sequence := by
  obtain ⟨u, hu, hs⟩ | ⟨-, elements, hs⟩ := h.tensor_cases ht
  · have hsound := (hn.tensors i u.plain (by rw [plain_getElem?, hu, Option.map_some])).1
    rw [batchTensor_eq] at hs
    rw [hs]
    exact hsound.sequence
  · rw [hs]
    exact (scratchTensor_sound elements).sequence

theorem Expanded.joined (hn : Outline b n) (h : Expanded n m batch) {i : Nat} {node : Node α}
    (hi : m.nodes[i]? = some node) : m.Joined node := by
  obtain ⟨node', hi', hop, hin, hout, -, hids, needs, -, hcov⟩ := h.origin hi
  obtain ⟨harity, hinputs, houtput⟩ := hn.joins i node' hi'
  have hlasting : ∀ j, j < n.plain.size → ∃ t, m.tensors[j]? = some t ∧ t.kind ≠ .scratch := by
    intro j hj
    obtain ⟨t, ht, hk, -⟩ := h.tensor_keeps (Array.getElem?_eq_getElem hj)
    exact ⟨t, ht, hk ▸ (hn.tensors _ _ (Array.getElem?_eq_getElem hj)).2.1⟩
  refine ⟨by rw [hop, hin, harity], ?_, ?_, fun x hx => ?_⟩
  · rw [hin]
    exact fun x hx => hlasting _ (hinputs x hx)
  · rw [hout]
    exact hlasting _ houtput
  · obtain ⟨j, hj⟩ := List.getElem?_of_mem hx
    obtain ⟨need, -, t, ht, -⟩ := forall₂_getElem? hcov hj
    obtain ⟨elements, hs⟩ := h.scratch x.index t (hids x hx) ht
    exact ⟨t, ht, by rw [hs, scratchTensor_eq]; rfl⟩

theorem Expanded.fitted (hn : Sketch b n) (h : Expanded n m batch) {i : Nat} {node : Node α}
    (hi : m.nodes[i]? = some node) : m.Fitted node := by
  have hj := h.joined hn.outline hi
  obtain ⟨node', hi', hop, hin, hout, hoff, -⟩ := h.origin hi
  refine ⟨hj.arity, hj.inputs, ?_, hj.scratch⟩
  rw [hout, hoff, hop, hin]
  obtain ⟨u, hu, hk, -⟩ | ⟨u, shape, hu, hk, ho, hne, hop', -⟩ := hn.writes i node' hi'
  · obtain ⟨t, ht, hk', -⟩ := h.tensor_keeps hu
    exact ⟨t, ht, .inl (hk'.trans hk)⟩
  · obtain ⟨t, ht, hk', -⟩ := h.tensor_keeps hu
    exact ⟨t, ht, .inr ⟨hk'.trans hk, ho, hne, hop'⟩⟩

variable [Zero α]

theorem Compiled.lowered (hn : Sketch b n) (h : Compiled n m batch) : Lowered m := by
  have hgraph := h.expanded
  have hkind : ∀ (i : Nat) (t u : Tensor), m.tensors[i]? = some t → n.plain[i]? = some u →
      t.kind = u.kind := by
    intro i t u ht hu
    obtain ⟨t', ht', hk, -⟩ := hgraph.tensor_keeps hu
    rw [ht] at ht'
    cases ht'
    exact hk
  have howns : ∀ (i : Nat) (node : Node α) (t : Tensor), n.nodes[i]? = some node →
      m.tensors[node.output.index]? = some t → t.kind = .intermediate → node.Owns n.plain := by
    intro i node t hi ht hk
    obtain ho | ⟨u, shape, hu, hkind', -⟩ := hn.writes i node hi
    · exact ho
    · rw [hkind _ t u ht hu, hkind'] at hk
      cases hk
  refine
    { sequence := fun i t ht => ?_
      elements := fun i t ht => ?_
      fitted := fun i node hi => hgraph.fitted hn hi
      later := fun i j c d t hc hd hij ht hk => ?_
      first := fun i j c d hc hd hij hop => ?_
      arranged := ?_
      emits := h.emits
      lists := h.lists }
  · refine ⟨hgraph.sequence_pos hn.outline ht, fun hne => ?_⟩
    obtain ⟨u, hu, hs⟩ | ⟨-, elements, hs⟩ := hgraph.tensor_cases ht
    · have hd := hn.tensors i u.plain (by rw [plain_getElem?, hu, Option.map_some])
      rw [batchTensor_eq] at hs
      rw [hs]
      exact hd.longest.trans_eq h.longest.symm
    · exact absurd (by rw [hs, scratchTensor_eq]; rfl) hne
  · obtain ⟨u, hu, hs⟩ | ⟨-, elements, hs⟩ := hgraph.tensor_cases ht
    · have hd := hn.tensors i u.plain (by rw [plain_getElem?, hu, Option.map_some])
      have hu' : u.Sound := ⟨hd.sound.sequence, hd.sound.cursor, hd.sound.elements, hd.sound.bare⟩
      rw [hs]
      exact (batchTensor_sound n batch i hu').elements
    · rw [hs]
      exact (scratchTensor_sound elements).elements
  · obtain ⟨c', hc', -, hin, hout, -⟩ := hgraph.origin hc
    obtain ⟨d', hd', -, -, hout', -⟩ := hgraph.origin hd
    rw [hout'] at ht
    have hl := hn.later i j c' d' hc' hd' hij (howns j d' t hd' ht hk)
    rw [hin, hout, hout']
    exact hl
  · obtain ⟨c', hc', -, hin, -⟩ := hgraph.origin hc
    obtain ⟨d', hd', hop', -, hout', -⟩ := hgraph.origin hd
    rw [hin, hout']
    exact hn.first i j c' d' hc' hd' hij (hop' ▸ hop)
  · obtain ⟨allocation, ha⟩ := h.arranged
    have haux : n.auxiliaryCount = m.auxiliaryCount := by
      rw [auxiliaryCount, auxiliaryCount, h.optimizer]
    exact ⟨allocation, haux ▸ ha⟩

/-! ### Requests at an unroll step -/

theorem Arranged.wired {auxiliary : Nat} {allocation : Nat → Side → Nat}
    (ha : Arranged m auxiliary allocation)
    (sequence : ∀ (i : Nat) (t : Tensor), m.tensors[i]? = some t → 0 < t.sequence)
    {node : Node α} (hj : m.Joined node) {step : Nat} {inputs scratch : List Tensor}
    {output : Tensor} {out : BufferId}
    (hin : List.Forall₂ (fun x t => (m.atStep step).tensor x = .ok t) node.inputs inputs)
    (hout : (m.atStep step).tensor node.output = .ok output)
    (hscratch : List.Forall₂ (fun x t => (m.atStep step).tensor x = .ok t) node.scratch scratch)
    (hplace : output.forwardBuffer node.op.place = .ok out) :
    node.op.Wired inputs output scratch { m.wires node step with out } := by
  have hinput : ∀ x ∈ node.inputs, ∀ t, (m.atStep step).tensor x = .ok t →
      t.forwardBuffer .current = .ok (m.handle (m.current .forward x step)) ∧
        t.backwardBuffer .current = .ok (m.handle (m.current .backward x step)) := by
    intro x hx t ht
    obtain ⟨u, hu, rfl⟩ := atStep_tensor_ok_iff.mp ht
    obtain ⟨u', hu', hne⟩ := hj.inputs x hx
    rw [hu] at hu'
    cases hu'
    have hlt := (chosen_lt (sequence _ u hu) node.op step).2
    have hf := ha.forwardBuffer hu hlt (by simp)
    have hb := ha.backwardBuffer hu hlt hne
    simp only [current, slotOf, hu]
    exact ⟨hf, hb⟩
  refine ⟨fun t ht => ?_, fun t ht => ?_, ⟨hplace, ?_⟩, fun t ht => ?_⟩
  · obtain ⟨x, hx, htx⟩ := forall₂_getElem? hin.flip ht
    have hfirst : node.first = x := by
      rw [Node.first, List.head?_eq_getElem?, hx, Option.getD_some]
    simp only [wires, hfirst]
    exact hinput x (List.mem_of_getElem? hx) t htx
  · obtain ⟨x, hx, htx⟩ := forall₂_getElem? hin.flip ht
    have hlast : node.last = x := by
      rw [Node.last, hx]
      rfl
    simp only [wires, hlast]
    exact hinput x (List.mem_of_getElem? hx) t htx
  · obtain ⟨u, hu, rfl⟩ := atStep_tensor_ok_iff.mp hout
    obtain ⟨u', hu', hne⟩ := hj.output
    rw [hu] at hu'
    cases hu'
    have hb := ha.backwardBuffer hu (chosen_lt (sequence _ u hu) node.op step).1 hne
    simp only [wires, target, slotOf, hu]
    exact hb
  · rw [List.head?_eq_getElem?] at ht
    obtain ⟨x, hx, htx⟩ := forall₂_getElem? hscratch.flip ht
    obtain ⟨u, hu, rfl⟩ := atStep_tensor_ok_iff.mp htx
    obtain ⟨u', hu', hk⟩ := hj.scratch x (List.mem_of_getElem? hx)
    rw [hu] at hu'
    cases hu'
    have hf := ha.forwardBuffer hu (chosen_lt (sequence _ u hu) node.op step).2 (by simp)
    have hzero : (u.atStep step).chosen .current = 0 := by
      have hkind : (u.atStep step).kind = .scratch := hk
      rw [Tensor.chosen, Tensor.currentSlot, hkind]
    rw [hzero] at hf
    simp only [wires, scratchPlace, List.head?_eq_getElem?, hx, Option.getD_some]
    exact hf

section

variable {auxiliary : Nat} {allocation : Nat → Side → Nat} (ha : Arranged m auxiliary allocation)
  (sequence : ∀ (i : Nat) (t : Tensor), m.tensors[i]? = some t → 0 < t.sequence) {node : Node α}
  (hfit : m.Fitted node)

include ha sequence hfit

theorem Fitted.wired {step : Nat} {inputs scratch : List Tensor} {output : Tensor}
    (hin : List.Forall₂ (fun x t => (m.atStep step).tensor x = .ok t) node.inputs inputs)
    (hout : (m.atStep step).tensor node.output = .ok output)
    (hscratch : List.Forall₂ (fun x t => (m.atStep step).tensor x = .ok t) node.scratch scratch) :
    node.op.Wired inputs output scratch (m.wires node step) := by
  refine ha.wired sequence hfit.joined hin hout hscratch ?_
  obtain ⟨u, hu, rfl⟩ := atStep_tensor_ok_iff.mp hout
  obtain ⟨u', hu', hk⟩ := hfit.output
  rw [hu] at hu'
  cases hu'
  have hf := ha.forwardBuffer hu (chosen_lt (sequence _ u hu) node.op step).1 fun j _ hp => by
    obtain hk | ⟨hk, -⟩ := hk
    · rw [hk] at hp
      cases hp
    · rw [hk] at hp
      cases hp
  simp only [target, slotOf, hu]
  exact hf

theorem Fitted.emission {step : Nat} {e : Emission α}
    (he : (m.atStep step).emission node step = .ok e) :
    (m.Active node step → (m.atStep step).emission node step = .ok (m.requestsOf node step)) ∧
      (¬m.Active node step → (m.atStep step).emission node step = .ok {}) := by
  simp only [Network.emission, Except.bind_ok_iff] at he
  obtain ⟨output, hout, he⟩ := he
  obtain ⟨o, ho, rfl⟩ := atStep_tensor_ok_iff.mp hout
  have hactive : Node.isActive node (o.atStep step) step = true ↔ m.Active node step := by
    simp only [Node.isActive, Bool.and_eq_true, decide_eq_true_eq]
    constructor
    · rintro ⟨hlt, hle⟩
      exact ⟨o, ho, hle, hlt⟩
    · rintro ⟨o', ho', hle, hlt⟩
      rw [ho] at ho'
      cases ho'
      exact ⟨hlt, hle⟩
  simp only [Network.emission, Except.bind_ok_iff]
  refine ⟨fun hact => ⟨_, hout, ?_⟩, fun hact => ⟨_, hout, ?_⟩⟩
  · rw [if_pos (hactive.mpr hact)] at he ⊢
    simp only [Except.bind_ok_iff, Except.mapM_ok_iff] at he ⊢
    obtain ⟨inputs, hin, scratch, hsc, he⟩ := he
    refine ⟨inputs, hin, scratch, hsc, ?_⟩
    have hwired := hfit.wired ha sequence hin hout hsc
    have hlen : inputs.length = node.op.arity := by rw [← hin.length_eq, hfit.arity]
    obtain ⟨a, rest, rfl⟩ : ∃ a rest, inputs = a :: rest := by
      cases inputs with
      | nil => cases hop : node.op <;> simp [hop, Operator.arity] at hlen
      | cons a rest => exact ⟨a, rest, rfl⟩
    rw [he, Operator.emit_eq hwired hlen he]
    congr 1
    obtain ⟨o', ho', hle, hlt⟩ := hact
    rw [ho] at ho'
    cases ho'
    have hshape : ∀ x t, (m.atStep step).tensor x = .ok t → m.shapeOf x = t.shape := by
      intro x t ht
      obtain ⟨u, hu, rfl⟩ := atStep_tensor_ok_iff.mp ht
      have hshape := shapeOf_eq hu
      exact hshape
    have hcursor : (o.atStep step).cursor = step := Nat.mod_eq_of_lt hlt
    obtain ⟨x, xs, hx, hxs, hinputs⟩ := List.forall₂_cons_right_iff.mp hin
    have hfirst : node.first = x := by
      rw [Node.first, hinputs]
      rfl
    have hlast : m.shapeOf node.last = Operator.secondShape (a :: rest) := by
      rw [Node.last, hinputs]
      cases hxs with
      | nil => exact hshape _ _ hx
      | cons hy _ => exact hshape _ _ hy
    rw [requestsOf, hfirst, hlast, hshape x a hx, hshape _ _ hout, hcursor]
  · have hf : ¬Node.isActive node (o.atStep step) step = true := fun hh => hact (hactive.mp hh)
    rw [if_neg hf]
    rfl

end

theorem Lowered.emission (h : Lowered m) {i : Nat} {node : Node α} (hi : m.nodes[i]? = some node)
    {step : Nat} (hs : step < m.maxSequence) :
    (m.Active node step → (m.atStep step).emission node step = .ok (m.requestsOf node step)) ∧
      (¬m.Active node step → (m.atStep step).emission node step = .ok {}) := by
  obtain ⟨allocation, ha⟩ := h.arranged
  obtain ⟨e, he⟩ := h.emits step hs i node hi
  exact (h.fitted i node hi).emission ha (fun j t ht => (h.sequence j t ht).1) he

theorem Lowered.mem_emits (h : Lowered m) {pass : Pass} {step i : Nat} {r : Request α}
    (hs : step < m.maxSequence) (hr : r ∈ (m.atStep step).emits pass step i) :
    ∃ node, m.nodes[i]? = some node ∧ m.Active node step ∧
      r ∈ (m.requestsOf node step).get pass := by
  unfold Network.emits at hr
  have hnodes : (m.atStep step).nodes = m.nodes := rfl
  rw [hnodes] at hr
  cases hi : m.nodes[i]? with
  | none => simp [hi] at hr
  | some node =>
    obtain ⟨hactive, hidle⟩ := h.emission hi hs
    simp only [hi] at hr
    by_cases ha : m.Active node step
    · rw [hactive ha] at hr
      exact ⟨node, rfl, ha, hr⟩
    · rw [hidle ha] at hr
      cases pass <;> cases hr

/-! ### Places of an operator -/

omit [Zero α] in
theorem Joined.has_current {node : Node α} (hj : m.Joined node)
    (sequence : ∀ (i : Nat) (t : Tensor), m.tensors[i]? = some t → 0 < t.sequence) {x : TensorId}
    (hx : x ∈ node.inputs) (side : Side) (step : Nat) : m.Has (m.current side x step) := by
  obtain ⟨t, ht, hk⟩ := hj.inputs x hx
  refine ⟨t, ht, fun _ => ?_, ?_⟩
  · cases hkind : t.kind <;> simp_all [TensorKind.hasBackward]
  · simp only [current, slotOf, ht]
    exact (chosen_lt (sequence _ t ht) node.op step).2

theorem Lowered.has_current (h : Lowered m) {i : Nat} {node : Node α}
    (hi : m.nodes[i]? = some node) {x : TensorId} (hx : x ∈ node.inputs) (side : Side)
    (step : Nat) : m.Has (m.current side x step) :=
  (h.fitted i node hi).joined.has_current (fun j t ht => (h.sequence j t ht).1) hx side step

omit [Zero α] in
theorem Fitted.has_target {node : Node α} (hfit : m.Fitted node)
    (sequence : ∀ (i : Nat) (t : Tensor), m.tensors[i]? = some t → 0 < t.sequence) (side : Side)
    (step : Nat) : m.Has (m.target side node step) := by
  obtain ⟨t, ht, hk⟩ := hfit.output
  refine ⟨t, ht, fun _ => ?_, ?_⟩
  · obtain hk | ⟨hk, -⟩ := hk <;> rw [hk] <;> rfl
  · simp only [target, slotOf, ht]
    exact (chosen_lt (sequence _ t ht) node.op step).1

omit [Zero α] in
theorem Fitted.has_scratch {node : Node α} (hfit : m.Fitted node)
    (sequence : ∀ (i : Nat) (t : Tensor), m.tensors[i]? = some t → 0 < t.sequence) :
    m.Has (scratchPlace node) := by
  have hfirst : ∃ t, m.tensors[(node.scratch.head?.getD default).index]? = some t := by
    cases hs : node.scratch with
    | nil =>
      obtain ⟨t, ht, -⟩ := hfit.output
      have hlt : 0 < m.tensors.size := Nat.zero_lt_of_lt (Array.getElem?_eq_some_iff.mp ht).1
      exact ⟨_, Array.getElem?_eq_getElem hlt⟩
    | cons x xs =>
      obtain ⟨t, ht, -⟩ := hfit.scratch x (hs ▸ List.mem_cons_self)
      exact ⟨t, ht⟩
  obtain ⟨t, ht⟩ := hfirst
  exact ⟨t, ht, t.lives_forward, Tensor.slotCount_pos (sequence _ t ht)⟩

theorem Lowered.has_target (h : Lowered m) {i : Nat} {node : Node α}
    (hi : m.nodes[i]? = some node) (side : Side) (step : Nat) :
    m.Has (m.target side node step) :=
  (h.fitted i node hi).has_target (fun j t ht => (h.sequence j t ht).1) side step

theorem Lowered.has_scratch (h : Lowered m) {i : Nat} {node : Node α}
    (hi : m.nodes[i]? = some node) : m.Has (scratchPlace node) :=
  (h.fitted i node hi).has_scratch fun j t ht => (h.sequence j t ht).1

end

end Network

end Backprop
