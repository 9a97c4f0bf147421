import Mathlib
import Backprop.Proofs.Network.Equations
import Backprop.Proofs.Operator.Entries

/-! Networks of operators that work entry by entry, drawn for a single row. Compiled for a batch
they run through, and what stands in the slots after the first forward pass follows entry by entry
from what stands in the slots that were read. -/

namespace Backprop

variable {α : Type}

/-- The operator works entry by entry on tensors of one row each; weights and a bias are
parameters. -/
def Node.Entrywise (ts : Array Tensor) (node : Node α) : Prop :=
  node.op.entrywise = true ∧ ∃ a b o out, ts[node.first.index]? = some a ∧
    ts[node.last.index]? = some b ∧ ts[node.output.index]? = some o ∧
    node.op.OnRows a.shape b.shape out ∧ o.shape.elements = out.elements ∧ o.shape.w = 1 ∧
    a.kind.followsBatch = true ∧ b.kind.followsBatch = !node.op.takesParameter ∧
    o.kind.followsBatch = true

namespace Network

variable {b : Backend α} {n m k k' : Network α} {batch i : Nat} {node : Node α}

theorem Each.reducedOutputs (h : n.Each fun ts node => node.Entrywise ts) :
    n.reducedOutputs = [] := by
  have hnone : ∀ node ∈ n.nodes.toList, node.op.reducesBatch = false := by
    intro node hn
    obtain ⟨i, hi⟩ := Array.getElem?_of_mem (Array.mem_toList_iff.mp hn)
    have hop := (h i node hi).1
    cases hnode : node.op <;> simp_all [Operator.entrywise, Operator.reducesBatch]
  rw [Network.reducedOutputs, List.filter_eq_nil_iff.mpr fun node hn => by simp [hnone node hn]]
  rfl

theorem Expanded.batched_shape (h : Expanded n m batch) (hb : 0 < batch)
    (reduced : n.reducedOutputs = []) {x : TensorId} {t : Tensor}
    (ht : n.plain[x.index]? = some t) :
    m.shapeOf x = if t.kind.followsBatch then t.shape.withRows batch else t.shape := by
  rw [plain_getElem?, Option.map_eq_some_iff] at ht
  obtain ⟨u, hu, rfl⟩ := ht
  rw [h.shapeOf hu, batchTensor, reduced, if_neg List.not_mem_nil, Tensor.withBatch,
    Nat.max_eq_left hb]
  change (if u.kind.followsBatch then _ else u).shape = if u.kind.followsBatch then _ else _
  split <;> rfl

section

variable [Zero α]

theorem Compiled.batched_shape (h : Compiled n m batch) (hb : 0 < batch)
    (reduced : n.reducedOutputs = []) {x : TensorId} {t : Tensor}
    (ht : n.plain[x.index]? = some t) :
    m.shapeOf x = if t.kind.followsBatch then t.shape.withRows batch else t.shape :=
  h.expanded.batched_shape hb reduced ht

theorem Compiled.feedsOnce (hn : Sketch b n) (h : Compiled n m batch) (feeds : n.FeedsOnce) :
    m.FeedsOnce := by
  intro i j c d t hc hd ht hk hout hop
  obtain ⟨c', hc', hopc, -, houtc, -⟩ := h.expanded.origin hc
  obtain ⟨d', hd', hopd, -, houtd, -⟩ := h.expanded.origin hd
  have hlt := (hn.writes i c' hc').output_lt
  obtain ⟨u, hu⟩ : ∃ u, n.tensors[c'.output.index]? = some u :=
    ⟨_, Array.getElem?_eq_getElem (by simpa [plain] using hlt)⟩
  obtain ⟨t', ht', hk', -⟩ := h.expanded.tensor_keeps (i := c'.output.index) (u := u.plain)
    (by rw [plain_getElem?, hu, Option.map_some])
  rw [houtc, ht'] at ht
  cases ht
  exact feeds i j c' d' u hc' hd' hu (hk'.symm.trans hk) (houtc.symm.trans (hout.trans houtd))
    (hopc.symm.trans (hop.trans hopd))

end

variable [Scalar α]

theorem Compiled.gives (h : Compiled n m batch) (hb : 0 < batch)
    (entrywise : n.Each fun ts node => node.Entrywise ts) (hi : m.nodes[i]? = some node) :
    node.op.Gives (m.shapeOf node.first) (m.shapeOf node.last) (m.shapeOf node.output)
      (node.op.entry (m.shapeOf node.first) (m.shapeOf node.last)) := by
  obtain ⟨node', hi', hop, hin, hout, -⟩ := h.expanded.origin hi
  have hfirst : node.first = node'.first := by rw [Node.first, hin, Node.first]
  have hlast : node.last = node'.last := by rw [Node.last, hin, Node.last]
  obtain ⟨hentry, a, c, o, out, ha, hc, ho, hfit, hsame, hone, hka, hkc, hko⟩ :=
    entrywise i node' hi'
  have hreduced := entrywise.reducedOutputs
  rw [hop, hfirst, hlast, hout, h.batched_shape hb hreduced ha, h.batched_shape hb hreduced hc,
    h.batched_shape hb hreduced ho, if_pos hka, if_pos hko]
  have hsecond : (if c.kind.followsBatch = true then c.shape.withRows batch else c.shape) =
      node'.op.second c.shape batch := by
    rw [hkc, Operator.second]
    cases node'.op.takesParameter <;> rfl
  rw [hsecond]
  refine hfit.gives hentry ?_
  rw [Shape.elements_withRows hone, hsame]

theorem Lowered.size_place (h : Lowered m) {c : Backend α} (hc : m.backend.SameLayout c)
    {p : Place} (hp : m.Has p) : (m.values c p).size = (m.shapeOf ⟨p.tensor⟩).elements := by
  obtain ⟨t, ht, -⟩ := id hp
  have hshape : m.shapeOf ⟨p.tensor⟩ = t.shape := shapeOf_eq ht
  rw [hshape, h.size_values hc hp ht]

theorem Compiled.ready (hn : Sketch b n) (h : Compiled n m batch) (hb : 0 < batch)
    (entrywise : n.Each fun ts node => node.Entrywise ts) : m.Ready := by
  intro i node step hi _ c hc
  have hlowered := h.lowered hn
  have harity := (hlowered.fitted i node hi).arity
  exact (h.gives hb entrywise hi).succeeds
    (hlowered.size_place hc (hlowered.has_current hi (Node.first_mem harity) .forward step))
    (hlowered.size_place hc (hlowered.has_current hi (Node.last_mem harity) .forward step))
    (hlowered.size_place hc (hlowered.has_target hi .forward step))

/-- The entries that an operator has put into its output are what it makes of what stands in the
slots of its operands. -/
def Obeys (m : Network α) (c : Backend α) (node : Node α) (step : Nat) : Prop :=
  Computed (told (m.shapeOf node.output).elements) (m.shapeOf node.output).elements
    (fun j => node.op.entry (m.shapeOf node.first) (m.shapeOf node.last)
      (m.values c (m.current .forward node.first step))
      (m.values c (m.current .forward node.last step)) j 0)
    (m.values c (m.target .forward node step))

/-- Entries that a copy is not told of stay as they were. -/
theorem Solved.copyInit_rest {start c : Backend α} {step j : Nat} (h : m.Solved start c node step)
    (hop : node.op = .copyInit) (hj : told (m.shapeOf node.first).elements ≤ j) :
    (m.values c (m.target .forward node step))[j]? =
      (m.values start (m.target .forward node step))[j]? := by
  unfold Solved at h
  rw [hop] at h
  exact Kernel.copy_rest rfl (Operands.extent_told rfl rfl) h hj

/-- What all operators of a network have left when they have run. -/
def Obeyed (n m : Network α) (c : Backend α) : Prop :=
  ∀ (i : Nat) (node : Node α) (step : Nat), n.nodes[i]? = some node → m.Computes node step →
    m.Obeys c node step

theorem Compiled.obeys (hn : InStepSketch b n) (h : Compiled n m batch) (hb : 0 < batch)
    (entrywise : n.Each fun ts node => node.Entrywise ts) (written : HostWritten m k)
    (hsame : m.SameGraphAs k') (hsolving : m.Solving k.backend m.maxSequence 0 k'.backend)
    {step : Nat} (hi : m.nodes[i]? = some node) (hcomputes : m.Computes node step) :
    m.Obeys k'.backend node step := by
  have hlowered := h.lowered hn.1
  obtain ⟨hgraph, hblank⟩ := hlowered.written written
  have harity := (hlowered.fitted i node hi).arity
  refine (h.gives hb entrywise hi).computed
    (hlowered.size_place hsame.layout
      (hlowered.has_current hi (Node.first_mem harity) .forward step))
    (hlowered.size_place hsame.layout
      (hlowered.has_current hi (Node.last_mem harity) .forward step))
    (hlowered.size_place hgraph.layout (hlowered.has_target hi .forward step))
    (hsolving.solved i node step hi hcomputes (.inl (hlowered.active_lt hi hcomputes.1))) fun j old hold => ?_
  -- only a product looks at what was there, and it goes to a slot that was blank
  obtain ⟨t', ht', hk | ⟨-, -, -, hop | hop⟩⟩ := (hlowered.fitted i node hi).output
  · obtain ⟨u, hu, -, hslot⟩ := hlowered.has_target hi .forward step
    change m.tensors[node.output.index]? = some u at hu
    rw [ht'] at hu
    cases hu
    have hzero := hblank _ t' ht' hk _ hslot
    change m.values k.backend (m.target .forward node step) = _ at hzero
    rw [hzero, Array.getElem?_replicate] at hold
    split at hold <;> cases hold
    rfl
  · rw [hop]
    rfl
  · rw [hop]
    rfl

/-- The first forward pass succeeds, and leaves what solves its equations. -/
theorem InStepSketch.forward_solves (hn : InStepSketch b n) (feeds : n.FeedsOnce)
    (entrywise : n.Each fun ts node => node.Entrywise ts) (h : Compiled n m batch) (hb : 0 < batch)
    (written : HostWritten m k) :
    ∃ k', forward k = .ok ⟨⟩ k' ∧ m.SameGraphAs k ∧ m.SameGraphAs k' ∧
      m.Solving k.backend m.maxSequence 0 k'.backend := by
  have hlowered := h.lowered hn.1
  obtain ⟨hgraph, -⟩ := hlowered.written written
  have hstep := hn.staysInStep h
  obtain ⟨k', hforward, hgraph', hsolving⟩ := hlowered.forward_equations hstep
    (hlowered.writesOnce hstep (h.feedsOnce hn.1 feeds)) (h.ready hn.1 hb entrywise) h.stage hgraph
  exact ⟨k', hforward, hgraph, hgraph', hsolving⟩

/-- What it leaves are entries that follow from one another; a tensor that no operator writes keeps
what it holds. -/
theorem InStepSketch.forward_obeys (hn : InStepSketch b n) (feeds : n.FeedsOnce)
    (entrywise : n.Each fun ts node => node.Entrywise ts) (h : Compiled n m batch) (hb : 0 < batch)
    (written : HostWritten m k) :
    ∃ k', forward k = .ok ⟨⟩ k' ∧ m.SameGraphAs k ∧ m.SameGraphAs k' ∧
      n.Obeyed m k'.backend ∧
      ∀ p, m.Has p → (∀ (i : Nat) (node : Node α), n.nodes[i]? = some node →
        node.output.index ≠ p.tensor) → m.values k'.backend p = m.values k.backend p := by
  obtain ⟨k', hforward, hgraph, hgraph', hsolving⟩ := hn.forward_solves feeds entrywise h hb written
  refine ⟨k', hforward, hgraph, hgraph', fun i node step hi hcomputes => ?_, fun p hp hne => ?_⟩
  · obtain ⟨node', hi', hop, hin, hout, hoff⟩ := h.counterpart hi
    obtain ⟨op, inputs, output, timeOffset⟩ := node
    simp only at hop hin hout hoff
    subst hop hin hout hoff
    have hobeys : m.Obeys k'.backend node' step :=
      h.obeys hn hb entrywise written hgraph' hsolving hi' hcomputes
    exact hobeys
  · refine hsolving.other p hp fun i node s hi _ _ heq => ?_
    obtain ⟨node', hi', -, -, hout, -⟩ := h.expanded.origin hi
    exact hne i node' hi' (hout ▸ congrArg Place.tensor heq)

end Network

end Backprop
