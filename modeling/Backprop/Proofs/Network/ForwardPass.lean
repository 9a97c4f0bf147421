import Mathlib
import Backprop.Proofs.Network.HostWrites
import Backprop.Proofs.Network.Interpreter
import Backprop.Proofs.Network.Order
import Backprop.Proofs.Network.Values

/-! The forward pass, operator by operator and step by step: what it leaves in the slots is what
the equations of the interpreter say. -/

namespace Backprop

variable {α : Type} [Scalar α]

theorem Except.mapM_eq_map {ε β γ : Type} {f : β → Except ε γ} {g : β → γ} {l : List β}
    (h : ∀ x ∈ l, f x = .ok (g x)) : l.mapM f = .ok (l.map g) := by
  refine Except.mapM_ok_iff.mpr (List.forall₂_map_right_iff.mpr ?_)
  exact List.forall₂_same.mpr h

namespace Network

/-- Every operator owns its output and writes it in step. -/
def FeedForward (m : Network α) : Prop :=
  ∀ (i : Nat) (node : Node α), m.nodes[i]? = some node →
    (∃ t, m.tensors[node.output.index]? = some t ∧ t.kind = .intermediate) ∧
      InStep node.op ∧ node.op ≠ .copyInit

/-- Values that agree with what a backend holds, but for the outputs of operators, which follow
from the values of their operands. -/
structure Solves (m : Network α) (start : Backend α) (v : Values α) : Prop where
  held : ∀ (x : TensorId) (j : Nat), m.Has ⟨x.index, .forward, j⟩ →
    (∀ (i : Nat) (node : Node α), m.nodes[i]? = some node → x ≠ node.output) →
      v x j = .ok (m.values start ⟨x.index, .forward, j⟩)
  output : ∀ (i : Nat) (node : Node α), m.nodes[i]? = some node → ∀ step,
    v node.output step = slotValue m.tensor v node step

/-- What a forward pass has done when all operators have run at the first steps, and some of
them at the step that follows. -/
structure Computing (m : Network α) (start : Backend α) (v : Values α) (step count : Nat)
    (c : Backend α) : Prop where
  layout : m.backend.SameLayout c
  output : ∀ (i : Nat) (node : Node α) (t : Tensor) (j : Nat), m.nodes[i]? = some node →
    m.tensors[node.output.index]? = some t → j < t.sequence →
      if j < step ∨ j = step ∧ i < count
      then v node.output j = .ok (m.values c ⟨node.output.index, .forward, j⟩)
      else m.values c ⟨node.output.index, .forward, j⟩ = Array.replicate t.shape.elements 0
  other : ∀ p, m.Has p → (∀ (i : Nat) (node : Node α), m.nodes[i]? = some node →
    node.output.index ≠ p.tensor) → m.values c p = m.values start p

variable {m : Network α} {start b c : Backend α} {v : Values α} {step count i : Nat}
  {node : Node α}

theorem Lowered.operands_eq (h : Lowered m) (hi : m.nodes[i]? = some node) :
    node.op.operands (m.wires node step) =
      node.inputs.map fun x => m.handle (m.current .forward x step) := by
  have harity := (h.fitted i node hi).arity
  have htwo : node.op.arity = 1 ∨ node.op.arity = 2 := by
    cases node.op <;> simp [Operator.arity]
  unfold Operator.operands
  obtain hone | htwo := htwo
  · rw [hone] at harity
    obtain ⟨x, hx⟩ := List.length_eq_one_iff.mp harity
    rw [if_neg (by omega), hx, wires, Node.first, hx]
    rfl
  · rw [htwo] at harity
    obtain ⟨x, y, hxy⟩ := List.length_eq_two.mp harity
    rw [if_pos htwo, hxy, wires, Node.first, Node.last, hxy]
    rfl

omit [Scalar α] in
theorem FeedForward.target (h : m.FeedForward) (hi : m.nodes[i]? = some node)
    (hactive : m.Active node step) (side : Side) :
    m.target side node step = ⟨node.output.index, side, step⟩ := by
  obtain ⟨⟨t, ht, hk⟩, hstep, hinit⟩ := h i node hi
  obtain ⟨t', ht', -, hlt⟩ := hactive
  rw [ht] at ht'
  cases ht'
  have hslot := slot_of_intermediate hk hstep hlt fun hp => by
    cases hop : node.op <;> simp_all [Operator.place]
  simp only [Network.target, slotOf, ht, hslot]

omit [Scalar α] in
theorem FeedForward.requestsOf (h : m.FeedForward) (hi : m.nodes[i]? = some node) (step : Nat) :
    m.requestsOf node step = ⟨[node.op.forwardRequest (m.shapeOf node.first) (m.shapeOf node.last)
      (m.shapeOf node.output) step (m.wires node step)], node.op.backwardRequests
      (m.shapeOf node.first) (m.shapeOf node.last) step (m.wires node step)⟩ := by
  unfold Network.requestsOf Operator.requestsAt
  rw [if_neg]
  rintro ⟨hp, -⟩
  have hinit := (h i node hi).2.2
  cases hop : node.op <;> simp_all [Operator.place]

theorem Lowered.current_eq (h : Lowered m) (hi : m.nodes[i]? = some node) {x : TensorId}
    (hx : x ∈ node.inputs) {t : Tensor} (ht : m.tensors[x.index]? = some t) (side : Side)
    (step : Nat) : m.current side x step = ⟨x.index, side, readSlot t step⟩ := by
  obtain ⟨t', ht', hk⟩ := (h.fitted i node hi).inputs x hx
  rw [ht] at ht'
  cases ht'
  simp only [current, slotOf, ht, readSlot]
  by_cases hp : t.kind = .parameter
  · rw [if_pos hp]
    have hzero : (t.atStep step).chosen .current = 0 := by
      have hkind : (t.atStep step).kind = .parameter := hp
      rw [Tensor.chosen, Tensor.currentSlot, hkind]
    rw [hzero]
  · rw [if_neg hp, currentSlot_atStep hp hk]

theorem Computing.operand (hc : m.Computing start v step count c) (h : Lowered m)
    (hf : m.FeedForward) (hv : m.Solves start v) (hi : m.nodes[count]? = some node)
    {x : TensorId} (hx : x ∈ node.inputs) {t : Tensor} (ht : m.tensors[x.index]? = some t) :
    v x (readSlot t step) = .ok (m.values c (m.current .forward x step)) := by
  have hhas := h.has_current hi hx .forward step
  rw [h.current_eq hi hx ht] at hhas ⊢
  by_cases hout : ∃ (j : Nat) (other : Node α), m.nodes[j]? = some other ∧ x = other.output
  · obtain ⟨j, other, hj, rfl⟩ := hout
    obtain ⟨⟨t', ht', hk⟩, -⟩ := hf j other hj
    rw [ht] at ht'
    cases ht'
    have hlt : j < count := by
      by_contra hle
      exact Nat.lt_irrefl _ ((h.later count j node other t hi hj (by omega) ht hk).1 _ hx)
    have hread : readSlot t step = step % t.sequence := by
      rw [readSlot, if_neg (by simp [hk])]
    have hmod := Nat.mod_lt step (h.sequence _ t ht).1
    have hle := Nat.mod_le step t.sequence
    have hdone := hc.output j other t (step % t.sequence) hj ht hmod
    rw [if_pos (by omega)] at hdone
    rw [hread, hdone]
  · have hne : ∀ (j : Nat) (other : Node α), m.nodes[j]? = some other → x ≠ other.output :=
      fun j other hj heq => hout ⟨j, other, hj, heq⟩
    rw [hv.held x _ hhas hne, hc.other _ hhas]
    intro j other hj heq
    exact hne j other hj (TensorId.eq_of_index heq.symm)

theorem Computing.value (hc : m.Computing start v step count c) (h : Lowered m)
    (hf : m.FeedForward) (hv : m.Solves start v) (hi : m.nodes[count]? = some node)
    (hactive : m.Active node step) {c' : Backend α} {d : Dispatch α}
    (hd : m.backend.Implements (node.op.forwardRequest (m.shapeOf node.first)
      (m.shapeOf node.last) (m.shapeOf node.output) step (m.wires node step)) d)
    (he : Backend.Executes d c c') :
    v node.output step = .ok (m.values c' ⟨node.output.index, .forward, step⟩) ∧
      m.backend.SameLayout c' ∧ ∀ q, m.Has q → q ≠ ⟨node.output.index, .forward, step⟩ →
        m.values c' q = m.values c q := by
  have hfit := h.fitted count node hi
  have hout := hf.target hi hactive .forward
  obtain ⟨data, hrun, hlayout, hdata, hother⟩ := h.executes hc.layout he hd
    node.op.forwardKernel_ofName node.op.forwardKernel_outputs
    (node.op.forwardRequest_output ..) (h.has_target hi .forward step)
  rw [hout] at hdata hother
  refine ⟨?_, hlayout, hother⟩
  obtain ⟨t, ht, hoff, hlt⟩ := hactive
  have hzero := hc.output count node t step hi ht hlt
  rw [if_neg (by omega)] at hzero
  have hinput : ∀ x ∈ node.inputs, ∃ u, m.tensors[x.index]? = some u := fun x hx =>
    (hfit.inputs x hx).imp fun _ hu => hu.1
  obtain ⟨a, ha⟩ := hinput _ (Node.first_mem hfit.arity)
  obtain ⟨b, hb⟩ := hinput _ (Node.last_mem hfit.arity)
  have hmap : (node.inputs.mapM fun x => do v x (readSlot (← m.tensor x) step)) =
      .ok (node.inputs.map fun x => m.values c (m.current .forward x step)) := by
    refine Except.mapM_eq_map fun x hx => ?_
    obtain ⟨u, hu⟩ := hinput x hx
    rw [tensor_ok_iff.mpr hu]
    exact hc.operand h hf hv hi hx hu
  have hwords : (node.op.forwardRequest (m.shapeOf node.first) (m.shapeOf node.last)
      (m.shapeOf node.output) step (m.wires node step)).args.map c.operand =
      ((node.inputs.map fun x => m.values c (m.current .forward x step)) ++
        [Array.replicate t.shape.elements 0]).map Operand.words ++
          (node.op.numbers a.shape b.shape step).map .scalar := by
    have hgo : c.contents (m.wires node step).out = Array.replicate t.shape.elements 0 := by
      rw [← hzero, ← hout]
      rfl
    have hoperands : node.op.operands (m.wires node step) =
        node.inputs.map fun x => m.handle (m.current .forward x step) := h.operands_eq hi
    simp only [Operator.forwardRequest, Operator.request, hoperands, List.map_append, List.map_map,
      List.map_cons, List.map_nil, shapeOf_eq ha, shapeOf_eq hb]
    refine congrArg₂ _ (congrArg₂ _ rfl ?_) rfl
    rw [Backend.operand, hgo]
  have hlaunch : (node.op.forwardRequest (m.shapeOf node.first) (m.shapeOf node.last)
      (m.shapeOf node.output) step (m.wires node step)).launch =
        node.op.forwardLaunch a.shape b.shape t.shape := by
    rw [shapeOf_eq ha, shapeOf_eq hb, shapeOf_eq ht]
    rfl
  rw [hwords, hlaunch] at hrun
  rw [hv.output count node hi step, slotValue, tensor_ok_iff.mpr ht, tensor_ok_iff.mpr ha,
    tensor_ok_iff.mpr hb, hmap, hdata]
  have hidle : ¬step < node.timeOffset := by omega
  simp only [bind, Except.bind, if_neg hidle, Operator.forwardValue, List.length_map, hfit.arity,
    hrun, List.lookup, beq_self_eq_true]

theorem Lowered.output_inj (h : Lowered m) (hf : m.FeedForward) {j : Nat} {other : Node α}
    (hi : m.nodes[i]? = some node) (hj : m.nodes[j]? = some other)
    (heq : other.output.index = node.output.index) : j = i := by
  obtain ⟨⟨t, ht, hk⟩, -⟩ := hf i node hi
  obtain ⟨⟨u, hu, hk'⟩, -⟩ := hf j other hj
  by_contra hne
  obtain hlt | hgt := Nat.lt_or_gt_of_ne hne
  · have hlater := (h.later j i other node t hj hi hlt.le ht hk).2 hlt
    omega
  · have hlater := (h.later i j node other u hi hj hgt.le hu hk').2 hgt
    omega

theorem Computing.run (hc : m.Computing start v step count c) (h : Lowered m)
    (hf : m.FeedForward) (hv : m.Solves start v) (hi : m.nodes[count]? = some node)
    (hactive : m.Active node step) {c' : Backend α} {d : Dispatch α}
    (hd : m.backend.Implements (node.op.forwardRequest (m.shapeOf node.first)
      (m.shapeOf node.last) (m.shapeOf node.output) step (m.wires node step)) d)
    (he : Backend.Executes d c c') : m.Computing start v step (count + 1) c' := by
  obtain ⟨hvalue, hlayout, hother⟩ := hc.value h hf hv hi hactive hd he
  refine ⟨hlayout, fun j other u k hj hu hk => ?_, fun p hp hne => ?_⟩
  · by_cases hsame : k = step ∧ j = count
    · obtain ⟨rfl, rfl⟩ := hsame
      rw [hi] at hj
      cases hj
      rw [if_pos (.inr ⟨rfl, Nat.lt_succ_self _⟩)]
      exact hvalue
    · have hhas : m.Has ⟨other.output.index, .forward, k⟩ := by
        obtain ⟨⟨u', hu', hkind⟩, -⟩ := hf j other hj
        rw [hu] at hu'
        cases hu'
        refine ⟨u, hu, u.lives_forward, ?_⟩
        change k < u.kind.slotCount u.sequence
        rw [hkind]
        exact hk
      have hapart : (⟨other.output.index, .forward, k⟩ : Place) ≠
          ⟨node.output.index, .forward, step⟩ := by
        intro heq
        simp only [Place.mk.injEq, true_and] at heq
        exact hsame ⟨heq.2, h.output_inj hf hi hj heq.1⟩
      rw [hother _ hhas hapart]
      have hold := hc.output j other u k hj hu hk
      by_cases hdone : k < step ∨ k = step ∧ j < count
      · rw [if_pos hdone] at hold
        rwa [if_pos (by omega)]
      · rw [if_neg hdone] at hold
        rwa [if_neg (by omega)]
  · rw [hother p hp fun heq => hne count node hi (by rw [heq]), hc.other p hp hne]

theorem Computing.pass (hc : m.Computing start v step count c) (hv : m.Solves start v)
    (idle : ∀ node, m.nodes[count]? = some node → ¬m.Active node step) :
    m.Computing start v step (count + 1) c := by
  refine ⟨hc.layout, fun j other u k hj hu hk => ?_, hc.other⟩
  have hold := hc.output j other u k hj hu hk
  by_cases hsame : k = step ∧ j = count
  · obtain ⟨rfl, rfl⟩ := hsame
    have hlt : k < other.timeOffset := by
      by_contra hle
      exact idle other hj ⟨u, hu, Nat.le_of_not_lt hle, hk⟩
    rw [if_neg (by omega)] at hold
    rw [if_pos (.inr ⟨rfl, Nat.lt_succ_self _⟩), hv.output j other hj, slotValue,
      tensor_ok_iff.mpr hu, hold]
    simp only [bind, Except.bind, if_pos hlt]
    rfl
  · by_cases hdone : k < step ∨ k = step ∧ j < count
    · rw [if_pos hdone] at hold
      rwa [if_pos (by omega)]
    · rw [if_neg hdone] at hold
      rwa [if_neg (by omega)]

theorem Lowered.emits_eq (h : Lowered m) (hs : step < m.maxSequence)
    (hi : m.nodes[i]? = some node) (pass : Pass) :
    (m.Active node step → (m.atStep step).emits pass step i =
        (m.requestsOf node step).get pass) ∧
      (¬m.Active node step → (m.atStep step).emits pass step i = []) := by
  obtain ⟨hactive, hidle⟩ := h.emission hi hs
  have hnode : (m.atStep step).nodes[i]? = some node := hi
  simp only [Network.emits, hnode]
  refine ⟨fun ha => by rw [hactive ha], fun ha => ?_⟩
  rw [hidle ha]
  cases pass <;> rfl

theorem Computing.next (hc : m.Computing start v step count c) (h : Lowered m)
    (hf : m.FeedForward) (hv : m.Solves start v) (hs : step < m.maxSequence)
    {c' : Backend α} {ds : List (Dispatch α)}
    (hd : List.Forall₂ m.backend.Implements ((m.atStep step).emits .forward step count) ds)
    (he : Backend.Runs ds c c') : m.Computing start v step (count + 1) c' := by
  by_cases hrun : ∃ node, m.nodes[count]? = some node ∧ m.Active node step
  · obtain ⟨node, hi, hactive⟩ := hrun
    rw [(h.emits_eq hs hi .forward).1 hactive, hf.requestsOf hi] at hd
    obtain ⟨d, _, hfirst, hnil, rfl⟩ := List.forall₂_cons_left_iff.mp hd
    obtain rfl := List.forall₂_nil_left_iff.mp hnil
    obtain ⟨c'', he, rfl⟩ := he
    exact hc.run h hf hv hi hactive hfirst he
  · have hidle : ∀ node, m.nodes[count]? = some node → ¬m.Active node step :=
      fun node hi hactive => hrun ⟨node, hi, hactive⟩
    have hempty : (m.atStep step).emits .forward step count = [] := by
      cases hi : m.nodes[count]? with
      | none =>
        have hnode : (m.atStep step).nodes[count]? = none := hi
        simp only [Network.emits, hnode]
      | some node => exact (h.emits_eq hs hi .forward).2 (hidle node hi)
    rw [hempty] at hd
    obtain rfl := List.forall₂_nil_left_iff.mp hd
    obtain rfl := he
    exact hc.pass hv hidle

theorem Computing.turn (hc : m.Computing start v step m.nodes.size c) :
    m.Computing start v (step + 1) 0 c := by
  refine ⟨hc.layout, fun j other u k hj hu hk => ?_, hc.other⟩
  have hlt : j < m.nodes.size := (Array.getElem?_eq_some_iff.mp hj).1
  have hold := hc.output j other u k hj hu hk
  by_cases hdone : k < step ∨ k = step ∧ j < m.nodes.size
  · rw [if_pos hdone] at hold
    rwa [if_pos (by omega)]
  · rw [if_neg hdone] at hold
    rwa [if_neg (by omega)]

/-- What a forward pass begins with. -/
structure Fresh (m : Network α) (start : Backend α) : Prop where
  layout : m.backend.SameLayout start
  blank : ∀ (i : Nat) (node : Node α) (t : Tensor) (j : Nat), m.nodes[i]? = some node →
    m.tensors[node.output.index]? = some t → j < t.sequence →
      m.values start ⟨node.output.index, .forward, j⟩ = Array.replicate t.shape.elements 0

/-- A forward pass leaves the value of every output in its place. -/
theorem Lowered.forward_computes (h : Lowered m) (hf : m.FeedForward) (hv : m.Solves start v)
    (fresh : m.Fresh start) {ds : List (Dispatch α)}
    (hd : List.Forall₂ m.backend.Implements (m.scheduled .forward) ds)
    (hr : Backend.Runs ds start c) : m.Computing start v m.maxSequence 0 c := by
  refine hr.flatMap_range (P := fun step => m.Computing start v step 0) hd ?_ ?_
  · refine ⟨fresh.layout, fun i node t j hi ht hj => ?_, fun _ _ _ => rfl⟩
    rw [if_neg (by omega)]
    exact fresh.blank i node t j hi ht hj
  · intro step b c es hs hb hes hr
    have hall := hr.flatMap_range (P := fun count => m.Computing start v step count) hes hb
      fun count b c es _ hb hes hr => hb.next h hf hv hs hes hr
    exact hall.turn

end Network

end Backprop
