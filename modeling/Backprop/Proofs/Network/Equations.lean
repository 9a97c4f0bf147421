import Mathlib
import Backprop.Proofs.Network.BatchRows

/-! A forward pass as a system of equations. No slot is written twice, or read before it is
written; so at the end of the pass every slot that was written holds what its operator makes of
what stands in the slots then. -/

namespace Backprop.Network

variable {α : Type} [Scalar α] {m k : Network α} {start b c c' : Backend α}
  {step count i : Nat} {node : Node α}

/-- The slot that an operator writes at a step holds what its kernel makes of the slots that it
reads, and of what was there before the pass. -/
def Solved (m : Network α) (start c : Backend α) (node : Node α) (step : Nat) : Prop :=
  node.op.forwardKernel.run (node.op.forwardOperands (m.shapeOf node.first) (m.shapeOf node.last)
    (m.shapeOf node.output) step (m.values c (m.current .forward node.first step))
    (m.values c (m.current .forward node.last step))
    (m.values start (m.target .forward node step))) =
      .ok [(node.op.arity, m.values c (m.target .forward node step))]

/-- No slot is written by two operators, or at two steps. -/
def WritesOnce (m : Network α) : Prop :=
  ∀ (i j : Nat) (a b : Node α) (s s' : Nat), m.nodes[i]? = some a → m.nodes[j]? = some b →
    m.Computes a s → m.Computes b s' → m.target .forward a s = m.target .forward b s' →
      i = j ∧ s = s'

/-- No two operators feed a recurrent state in the same way. -/
def FeedsOnce (m : Network α) : Prop :=
  ∀ (i j : Nat) (a b : Node α) (t : Tensor), m.nodes[i]? = some a → m.nodes[j]? = some b →
    m.tensors[a.output.index]? = some t → t.kind = .recurrent → a.output = b.output →
      a.op = b.op → i = j

/-- A forward pass when all operators have run at the first steps, and some of them at the step
that follows. -/
structure Solving (m : Network α) (start : Backend α) (step count : Nat) (c : Backend α) :
    Prop where
  layout : m.backend.SameLayout c
  solved : ∀ (i : Nat) (node : Node α) (s : Nat), m.nodes[i]? = some node → m.Computes node s →
    s < step ∨ s = step ∧ i < count → m.Solved start c node s
  other : ∀ p, m.Has p → (∀ (i : Nat) (node : Node α) (s : Nat), m.nodes[i]? = some node →
    m.Computes node s → s < step ∨ s = step ∧ i < count → m.target .forward node s ≠ p) →
      m.values c p = m.values start p

theorem Lowered.active_lt (h : Lowered m) (hi : m.nodes[i]? = some node) {step : Nat}
    (hactive : m.Active node step) : step < m.maxSequence := by
  obtain ⟨t, ht, -, hlt⟩ := hactive
  obtain ⟨u, hu, hscratch⟩ := (h.fitted i node hi).joined.output
  rw [ht] at hu
  cases hu
  exact hlt.trans_le ((h.sequence _ t ht).2 hscratch)

omit [Scalar α] in
theorem Computes.first (h : m.Computes node step) (hp : node.op.place = .timestep 0) : step = 0 := by
  by_contra hs
  exact h.2 ⟨hp, hs⟩

/-- Slots that are written differ: outputs of their own in the tensor or in the timestep, and
slots of a state in the timestep. -/
theorem Lowered.writesOnce (h : Lowered m) (hstep : m.StaysInStep) (feeds : m.FeedsOnce) :
    m.WritesOnce := by
  intro i j a b s s' hi hj ha hb heq
  simp only [target, Place.mk.injEq, true_and] at heq
  obtain ⟨hindex, hslot⟩ := heq
  have hout : a.output = b.output := TensorId.eq_of_index hindex
  obtain ⟨t, ht, -, hlt⟩ := ha.1
  obtain ⟨t', ht', -, hlt'⟩ := hb.1
  rw [← hindex, ht] at ht'
  cases ht'
  have hkind : ∀ {l : Nat} {o : Node α}, m.nodes[l]? = some o → o.output = a.output →
      t.kind = .intermediate ∨ t.kind = .recurrent ∧ (o.op = .copy 1 ∨ o.op = .copyInit) := by
    intro l o hl ho
    obtain ⟨u, hu, hk⟩ := (h.fitted l o hl).output
    rw [ho, ht] at hu
    cases hu
    exact hk.imp id fun hk => ⟨hk.1, hk.2.2.2⟩
  simp only [slotOf, ← hindex, ht] at hslot
  obtain hk | ⟨hk, hopa⟩ := hkind hi rfl
  · have ht' : m.tensors[b.output.index]? = some t := hindex ▸ ht
    rw [slot_of_intermediate hk (hstep i a t hi ht hk) hlt ha.first,
      slot_of_intermediate hk (hstep j b t hj ht' hk) hlt' hb.first] at hslot
    refine ⟨?_, hslot⟩
    obtain hij | hij | hij := Nat.lt_trichotomy i j
    · have hlater := (h.later i j a b t hi hj hij.le ht' hk).2 hij
      omega
    · exact hij
    · have hlater := (h.later j i b a t hj hi hij.le ht hk).2 hij
      omega
  · obtain hk' | ⟨-, hopb⟩ := hkind hj hout.symm
    · simp [hk] at hk'
    obtain hopa | hopa := hopa <;> obtain hopb | hopb := hopb
    · rw [slot_of_recurrent hk hopa hlt, slot_of_recurrent hk hopb hlt'] at hslot
      exact ⟨feeds i j a b t hi hj ht hk hout (hopa.trans hopb.symm), by omega⟩
    · rw [slot_of_recurrent hk hopa hlt, hopb] at hslot
      cases hslot
    · rw [slot_of_recurrent hk hopb hlt', hopa] at hslot
      cases hslot
    · have hs := ha.first (by rw [hopa]; rfl)
      have hs' := hb.first (by rw [hopb]; rfl)
      exact ⟨feeds i j a b t hi hj ht hk hout (hopa.trans hopb.symm), hs.trans hs'.symm⟩

theorem Lowered.forward_emits (h : Lowered m) (hs : step < m.maxSequence)
    (hi : m.nodes[i]? = some node) :
    (m.Computes node step → (m.atStep step).emits .forward step i =
        [node.op.forwardRequest (m.shapeOf node.first) (m.shapeOf node.last)
          (m.shapeOf node.output) step (m.wires node step)]) ∧
      (¬m.Computes node step → (m.atStep step).emits .forward step i = []) := by
  obtain ⟨hactive, hidle⟩ := h.emits_eq hs hi .forward
  by_cases ha : m.Active node step
  · rw [hactive ha]
    unfold requestsOf Operator.requestsAt Computes
    split
    · next hskip => exact ⟨fun hc => absurd hskip hc.2, fun _ => rfl⟩
    · next hrun => exact ⟨fun _ => rfl, fun hc => absurd ⟨ha, hrun⟩ hc⟩
  · rw [hidle ha]
    exact ⟨fun hc => absurd hc.1 ha, fun _ => rfl⟩

/-! ### One operator after the other -/

theorem Solving.run (hc : m.Solving start step count c) (h : Lowered m) (hstep : m.StaysInStep)
    (once : m.WritesOnce) (hi : m.nodes[count]? = some node) (hrun : m.Computes node step)
    {d : Dispatch α} (hd : m.backend.Implements (node.op.forwardRequest (m.shapeOf node.first)
      (m.shapeOf node.last) (m.shapeOf node.output) step (m.wires node step)) d)
    (he : Backend.Executes d c c') : m.Solving start step (count + 1) c' := by
  obtain ⟨data, hdata, hlayout, hout, hother⟩ := h.executes hc.layout he hd
    node.op.forwardKernel_ofName node.op.forwardKernel_outputs
    (node.op.forwardRequest_output ..) (h.has_target hi .forward step)
  -- what is written now has not been read yet
  have hkeep : ∀ (j : Nat) (other : Node α) (s : Nat), m.nodes[j]? = some other →
      s < step ∨ s = step ∧ j < count + 1 → ∀ x ∈ other.inputs,
        m.values c' (m.current .forward x s) = m.values c (m.current .forward x s) := by
    intro j other s hj hbefore x hx
    refine hother _ (h.has_current hj hx .forward s) fun heq => ?_
    simp only [current, target, Place.mk.injEq, true_and] at heq
    have hlt := h.writer_first hstep hi hj hrun.1 hrun.first hx heq.1 heq.2
    omega
  refine ⟨hlayout, fun j other s hj hcomputes hbefore => ?_, fun p hp hne => ?_⟩
  · have hfit := h.fitted j other hj
    unfold Solved
    rw [hkeep j other s hj hbefore _ (Node.first_mem hfit.arity),
      hkeep j other s hj hbefore _ (Node.last_mem hfit.arity)]
    by_cases hsame : s = step ∧ j = count
    · obtain ⟨rfl, rfl⟩ := hsame
      rw [hi] at hj
      cases hj
      have hold : m.values c (m.target .forward node s) = m.values start (m.target .forward node s) :=
        hc.other _ (h.has_target hi .forward s) fun i' other s' hi' hcomputes' hbefore' heq => by
          obtain ⟨rfl, rfl⟩ := once _ _ _ _ _ _ hi' hi hcomputes' hcomputes heq
          omega
      rw [Operator.contents_forwardRequest] at hdata
      rw [hout, ← hold]
      exact hdata
    · have hapart : m.target .forward other s ≠ m.target .forward node step := fun heq => by
        obtain ⟨rfl, rfl⟩ := once _ _ _ _ _ _ hj hi hcomputes hrun heq
        exact hsame ⟨rfl, rfl⟩
      rw [hother _ (h.has_target hj .forward s) hapart]
      exact hc.solved j other s hj hcomputes (by omega)
  · rw [hother p hp fun heq => hne count node step hi hrun (by omega) heq.symm]
    exact hc.other p hp fun j other s hj hcomputes hbefore =>
      hne j other s hj hcomputes (by omega)

theorem Solving.pass (hc : m.Solving start step count c)
    (idle : ∀ node, m.nodes[count]? = some node → ¬m.Computes node step) :
    m.Solving start step (count + 1) c := by
  refine ⟨hc.layout, fun j other s hj hcomputes hbefore => ?_, fun p hp hne => ?_⟩
  · refine hc.solved j other s hj hcomputes ?_
    by_contra hnot
    obtain ⟨rfl, rfl⟩ : s = step ∧ j = count := by omega
    exact idle other hj hcomputes
  · exact hc.other p hp fun j other s hj hcomputes hbefore =>
      hne j other s hj hcomputes (by omega)

theorem Solving.next (hc : m.Solving start step count c) (h : Lowered m) (hstep : m.StaysInStep)
    (once : m.WritesOnce) (hs : step < m.maxSequence) {ds : List (Dispatch α)}
    (hd : List.Forall₂ m.backend.Implements ((m.atStep step).emits .forward step count) ds)
    (hr : Backend.Runs ds c c') : m.Solving start step (count + 1) c' := by
  by_cases hrun : ∃ node, m.nodes[count]? = some node ∧ m.Computes node step
  · obtain ⟨node, hi, hcomputes⟩ := hrun
    rw [(h.forward_emits hs hi).1 hcomputes] at hd
    obtain ⟨d, _, hfirst, hnil, rfl⟩ := List.forall₂_cons_left_iff.mp hd
    obtain rfl := List.forall₂_nil_left_iff.mp hnil
    obtain ⟨_, he, rfl⟩ := hr
    exact hc.run h hstep once hi hcomputes hfirst he
  · have hidle : ∀ node, m.nodes[count]? = some node → ¬m.Computes node step :=
      fun node hi hcomputes => hrun ⟨node, hi, hcomputes⟩
    have hempty : (m.atStep step).emits .forward step count = [] := by
      cases hi : m.nodes[count]? with
      | none =>
        have hnode : (m.atStep step).nodes[count]? = none := hi
        simp only [Network.emits, hnode]
      | some node => exact (h.forward_emits hs hi).2 (hidle node hi)
    rw [hempty] at hd
    obtain rfl := List.forall₂_nil_left_iff.mp hd
    obtain rfl := hr
    exact hc.pass hidle

theorem Solving.turn (hc : m.Solving start step m.nodes.size c) :
    m.Solving start (step + 1) 0 c := by
  have hbefore : ∀ {j s : Nat} {other : Node α}, m.nodes[j]? = some other →
      (s < step + 1 ∨ s = step + 1 ∧ j < 0 ↔ s < step ∨ s = step ∧ j < m.nodes.size) := by
    intro j s other hj
    have hlt := (Array.getElem?_eq_some_iff.mp hj).1
    omega
  exact ⟨hc.layout, fun j other s hj hcomputes hlt => hc.solved j other s hj hcomputes
    ((hbefore hj).mp hlt), fun p hp hne => hc.other p hp fun j other s hj hcomputes hlt =>
      hne j other s hj hcomputes ((hbefore hj).mpr hlt)⟩

/-- A forward pass solves the equations of all operators. -/
theorem Lowered.forward_solves (h : Lowered m) (hstep : m.StaysInStep) (once : m.WritesOnce)
    (layout : m.backend.SameLayout start) {ds : List (Dispatch α)}
    (hd : List.Forall₂ m.backend.Implements (m.scheduled .forward) ds)
    (hr : Backend.Runs ds start c) : m.Solving start m.maxSequence 0 c := by
  refine hr.flatMap_range (P := fun step => m.Solving start step 0) hd ?_ ?_
  · exact ⟨layout, fun _ _ _ _ _ hlt => by omega, fun _ _ _ => rfl⟩
  · intro step b c es hs hb hes hr
    have hall := hr.flatMap_range (P := fun count => m.Solving start step count) hes hb
      fun count b c es _ hb hes hr => hb.next h hstep once hs hes hr
    exact hall.turn

/-! ### Success -/

/-- The forward kernels of all operators take whatever stands in the slots. -/
def Ready (m : Network α) : Prop :=
  ∀ (i : Nat) (node : Node α) (step : Nat), m.nodes[i]? = some node → m.Computes node step →
    ∀ c, m.backend.SameLayout c → ∃ ws, node.op.forwardKernel.run (node.op.forwardOperands
      (m.shapeOf node.first) (m.shapeOf node.last) (m.shapeOf node.output) step
      (m.values c (m.current .forward node.first step))
      (m.values c (m.current .forward node.last step))
      (m.values c (m.target .forward node step))) = .ok ws

theorem Lowered.forward_executes (h : Lowered m) (ready : m.Ready) (hi : m.nodes[i]? = some node)
    (hrun : m.Computes node step) (hb : m.backend.SameLayout b) {d : Dispatch α}
    (hd : m.backend.Implements (node.op.forwardRequest (m.shapeOf node.first)
      (m.shapeOf node.last) (m.shapeOf node.output) step (m.wires node step)) d) :
    ∃ c, Backend.Executes d b c := by
  obtain ⟨ws, hws⟩ := ready i node step hi hrun b hb
  obtain ⟨compiled, hcompiled, hname⟩ := hd.kernel
  have hkernel : compiled.kernel = node.op.forwardKernel := by
    have hown := node.op.forwardKernel_ofName
    rw [show (node.op.forwardRequest (m.shapeOf node.first) (m.shapeOf node.last)
      (m.shapeOf node.output) step (m.wires node step)).kernel = node.op.forwardKernel.name
      from rfl, hown] at hname
    exact (Option.some.inj hname).symm
  obtain ⟨allocation, ha⟩ := h.arranged
  have hfit := h.fitted i node hi
  have hresolves : ∀ l, KernelArg.buffer l ∈ d.args → b.Resolves l := by
    intro l hl
    rw [hd.args] at hl
    simp only [Operator.forwardRequest, Operator.request, List.map_append, List.mem_append,
      List.mem_map, KernelArg.buffer.injEq, exists_eq_right, List.map_cons, List.map_nil,
      List.mem_singleton, reduceCtorEq, and_false, exists_false, or_false] at hl
    obtain hl | rfl := hl
    · obtain rfl | rfl := mem_operands hl
      · exact hb.resolves (ha.resolves (h.has_current hi (Node.first_mem hfit.arity) .forward step))
      · exact hb.resolves (ha.resolves (h.has_current hi (Node.last_mem hfit.arity) .forward step))
    · exact hb.resolves (ha.resolves (h.has_target hi .forward step))
  refine ⟨_, _, Backend.execute_ok_iff.mpr ⟨compiled, ws, ?_, hresolves, ?_, rfl⟩, rfl⟩
  · rw [hb.same]
    exact hcompiled
  · rw [hkernel, hd.args, hd.launch, Operator.contents_forwardRequest]
    exact hws

/-- A forward pass whose kernels all take what they are given succeeds, and solves the equations
of all operators. -/
theorem Lowered.forward_equations (h : Lowered m) (hstep : m.StaysInStep) (once : m.WritesOnce)
    (ready : m.Ready) (stage : m.stage = .compiled) (hk : m.SameGraphAs k) :
    ∃ k', forward k = .ok ⟨⟩ k' ∧ m.SameGraphAs k' ∧
      m.Solving k.backend m.maxSequence 0 k'.backend := by
  have hlist : (k.backend.dispatches.get .forward).toList =
      (m.backend.dispatches.get .forward).toList := by rw [hk.layout.same]
  have hall := h.lists .forward
  rw [if_neg (by decide), List.append_nil, ← hlist] at hall
  have hrequest : ∀ d ∈ (k.backend.dispatches.get .forward).toList, ∃ (i : Nat) (node : Node α) (step : Nat),
      m.nodes[i]? = some node ∧ m.Computes node step ∧
        m.backend.Implements (node.op.forwardRequest (m.shapeOf node.first) (m.shapeOf node.last)
          (m.shapeOf node.output) step (m.wires node step)) d := by
    intro d hd
    obtain ⟨p, hp⟩ := List.getElem?_of_mem hd
    obtain ⟨r, hr, himp⟩ := forall₂_getElem? hall.flip hp
    obtain ⟨step, hs, hmem⟩ := List.mem_flatMap.mp (List.mem_of_getElem? hr)
    obtain ⟨i, -, hmem⟩ := List.mem_flatMap.mp hmem
    obtain ⟨node, hi, -, -⟩ := h.mem_emits (List.mem_range.mp hs) hmem
    obtain ⟨hone, hnone⟩ := h.forward_emits (List.mem_range.mp hs) hi
    by_cases hrun : m.Computes node step
    · rw [hone hrun, List.mem_singleton] at hmem
      exact ⟨i, node, step, hi, hrun, hmem ▸ himp⟩
    · rw [hnone hrun] at hmem
      cases hmem
  obtain ⟨c, hruns, -⟩ := Backend.Runs.of_forall (P := fun c => m.backend.SameLayout c)
    (fun d hd b hb => by
      obtain ⟨i, node, step, hi, hrun, himp⟩ := hrequest d hd
      obtain ⟨c, hc⟩ := h.forward_executes ready hi hrun hb himp
      exact ⟨c, hc, hb.trans ⟨hc.same, hc.sizes⟩⟩) hk.layout
  have hplain : ∀ d ∈ k.backend.dispatches.get .forward, d.increment = none := by
    intro d hd
    obtain ⟨i, node, step, -, -, himp⟩ := hrequest d (Array.mem_toList_iff.mpr hd)
    exact himp.increment
  have hforward : forward k = .ok ⟨⟩ _ := run_ok_iff.mpr
    ⟨by rw [hk.same]; exact stage, c, Backend.run_of_runs hplain hruns, rfl⟩
  obtain ⟨hsame, ds, hds, hruns'⟩ := h.run_ok hk (by decide) hforward
  exact ⟨_, hforward, hsame, h.forward_solves hstep once hk.layout hds hruns'⟩

end Backprop.Network
