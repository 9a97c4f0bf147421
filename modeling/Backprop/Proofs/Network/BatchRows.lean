import Mathlib
import Backprop.Proofs.Network.Meaning
import Backprop.Proofs.Network.Shapes

/-! Batches of a whole graph: what a forward pass leaves in a row of a tensor is what it leaves in
the whole tensor when the graph is compiled for that row alone. -/

namespace Backprop

variable {α : Type}

/-- What a row of a batch has of a value of the tensor; a parameter belongs to all rows. -/
def Tensor.rowValue (t : Tensor) (row : Nat) (value : Array α) : Array α :=
  if t.kind = .parameter then value else rowOf t.shape.elements row value

theorem Operator.contents_forwardRequest {op : Operator α} {a b out : Shape} {tile : Nat}
    {w : Wires} (c : Backend α) :
    (⟨(op.forwardRequest a b out tile w).args.map c.operand,
        (op.forwardRequest a b out tile w).launch⟩ : Operands α) =
      op.forwardOperands a b out tile (c.contents w.a) (c.contents w.b) (c.contents w.out) := by
  unfold forwardRequest forwardOperands request operands
  simp only [Operands.mk.injEq, and_true, List.map_append, List.map_map]
  split <;> rfl

namespace Network

/-- Every number that an operator tells its kernel for a batch fits. -/
structure Tellable (n : Network α) (batch : Nat) : Prop where
  elements : ∀ t ∈ n.tensors.mapIdx (n.batchTensor batch), t.shape.elements < 2 ^ 31
  operators : ∀ node ∈ n.nodes, node.op.Tellable

section

variable [Zero α] {b : Backend α} {n m : Network α} {batch i : Nat} {t : Tensor}

theorem Compiled.slotOf (h : Compiled n m batch) (ht : n.tensors[i]? = some t)
    (choice : SlotChoice) (step : Nat) :
    m.slotOf i choice step = (t.atStep step).chosen choice := by
  obtain ⟨t', ht', hs⟩ := h.tensor i t ht
  rw [batchTensor_eq] at hs
  rw [Network.slotOf, ht', hs]
  rfl

omit [Zero α] in
theorem Expanded.shapeOf (h : Expanded n m batch) {x : TensorId}
    (ht : n.tensors[x.index]? = some t) :
    m.shapeOf x = (n.batchTensor batch x.index t).shape := by
  obtain ⟨t', ht', hs⟩ := h.tensor x.index t ht
  rw [shapeOf_eq ht', hs]

theorem Compiled.shapeOf (h : Compiled n m batch) {x : TensorId}
    (ht : n.tensors[x.index]? = some t) :
    m.shapeOf x = (n.batchTensor batch x.index t).shape :=
  h.expanded.shapeOf ht

theorem Compiled.has (h : Compiled n m batch) (ht : n.tensors[i]? = some t) {j : Nat}
    (hj : j < t.slotCount) : m.Has ⟨i, .forward, j⟩ := by
  obtain ⟨t', ht', hs⟩ := h.tensor i t ht
  rw [batchTensor_eq] at hs
  refine ⟨t', ht', t'.lives_forward, ?_⟩
  rw [hs]
  exact hj

end

variable [Scalar α]

theorem Compiled.read {n m k : Network α} {batch : Nat} {x : TensorId}
    {t : Tensor} {j : Nat} (h : Compiled n m batch) (hl : Lowered m) (hs : m.SameGraphAs k)
    (ht : n.tensors[x.index]? = some t) (hk : t.kind ≠ .parameter) (hj : j < t.slotCount) :
    readTensor x j k = .ok (m.values k.backend ⟨x.index, .forward, j⟩) k := by
  obtain ⟨t', ht', hst⟩ := h.tensor _ t ht
  rw [batchTensor_eq] at hst
  refine hl.readTensor_ok h.stage hs ht' ?_ fun hp => ?_
  · rw [hst]
    exact hj
  · rw [hst] at hp
    exact absurd hp hk

/-- The operator runs its forward kernel at a step. -/
def Computes (n : Network α) (node : Node α) (step : Nat) : Prop :=
  n.Active node step ∧ ¬(node.op.place = .timestep 0 ∧ step ≠ 0)

theorem Compiled.forward_emits {n m : Network α} {batch i : Nat} {node : Node α} {t : Tensor}
    {step : Nat} (h : Compiled n m batch) (hl : Lowered m) (hs : step < m.maxSequence)
    (hi : n.nodes[i]? = some node) (ht : n.tensors[node.output.index]? = some t) :
    (n.Computes node step → (m.atStep step).emits .forward step i =
        [node.op.forwardRequest (m.shapeOf node.first) (m.shapeOf node.last)
          (m.shapeOf node.output) step (m.wires node step)]) ∧
      (¬n.Computes node step → (m.atStep step).emits .forward step i = []) := by
  obtain ⟨node', hi', hop, hin, hout, hoff⟩ := h.counterpart hi
  obtain ⟨hactive, hidle⟩ := hl.emits_eq hs hi' .forward
  obtain ⟨op, inputs, output, timeOffset⟩ := node
  simp only at hop hin hout hoff ht
  subst hop hin hout hoff
  have hact : m.Active node' step ↔ n.Active node' step := by
    obtain ⟨t', ht', hst⟩ := h.tensor _ t ht
    rw [batchTensor_eq] at hst
    unfold Active
    rw [ht, ht', hst]
    simp
  by_cases ha : n.Active node' step
  · rw [hactive (hact.mpr ha)]
    unfold requestsOf Operator.requestsAt Computes
    split
    · next hskip => exact ⟨fun hc => absurd hskip hc.2, fun _ => rfl⟩
    · next hrun => exact ⟨fun _ => rfl, fun hc => absurd ⟨ha, hrun⟩ hc⟩
  · rw [hidle fun h' => ha (hact.mp h')]
    exact ⟨fun hc => absurd hc.1 ha, fun _ => rfl⟩

/-- A graph on single rows, compiled for a batch and for one row. -/
structure SideBySide (b : Backend α) (config : NetworkConfig) (n m m₁ : Network α)
    (rows row : Nat) : Prop where
  built : Built InStep (Network.new b config) n
  graph : n.OverRows
  tellable : n.Tellable rows
  compiled : Compiled n m rows
  compiled₁ : Compiled n m₁ 1
  row_lt : row < rows

/-- The second backend holds one row of what the first one holds. -/
structure HoldsRow (n m m₁ : Network α) (row : Nat) (c c₁ : Backend α) : Prop where
  layout : m.backend.SameLayout c
  layout₁ : m₁.backend.SameLayout c₁
  value : ∀ (i : Nat) (t : Tensor), n.tensors[i]? = some t → ⟨i⟩ ∉ n.reducedOutputs →
    ∀ j < t.slotCount, m₁.values c₁ ⟨i, .forward, j⟩ =
      t.rowValue row (m.values c ⟨i, .forward, j⟩)

/-- The host has put into `k₁` one row of what it has put into `k`, and the same parameters. -/
def HostRow (n : Network α) (row : Nat) (k k₁ : Network α) : Prop :=
  ∀ i (hi : i < n.tensors.size), n.tensors[i].kind ≠ .intermediate →
    ∀ j < n.tensors[i].slotCount,
      k₁.readings ⟨i⟩ j = (k.readings ⟨i⟩ j).map (n.tensors[i].rowValue row)

namespace SideBySide

variable {b : Backend α} {config : NetworkConfig} {n m m₁ : Network α} {rows row : Nat}
  {c c' c₁ c₁' : Backend α} {i : Nat} {node : Node α} {t : Tensor} {step : Nat}

theorem lowered (h : SideBySide b config n m m₁ rows row) : Lowered m ∧ Lowered m₁ :=
  ⟨h.compiled.lowered h.built.sketch, h.compiled₁.lowered h.built.sketch⟩

theorem one_row (h : SideBySide b config n m m₁ rows row) (ht : n.tensors[i]? = some t)
    (hk : t.kind ≠ .parameter) : t.shape.w = 1 := h.graph.one_row h.built ht hk

theorem rows_pos (h : SideBySide b config n m m₁ rows row) : 0 < rows :=
  Nat.zero_lt_of_lt h.row_lt

theorem shapes (h : SideBySide b config n m m₁ rows row) (hi : n.nodes[i]? = some node)
    (hout : node.output ∉ n.reducedOutputs) :
    (m.shapeOf node.first = (n.shapeOf node.first).withRows rows ∧
        m.shapeOf node.last = node.op.second (n.shapeOf node.last) rows ∧
        m.shapeOf node.output = (n.shapeOf node.output).withRows rows) ∧
      m₁.shapeOf node.first = n.shapeOf node.first ∧
        m₁.shapeOf node.last = n.shapeOf node.last ∧
        m₁.shapeOf node.output = n.shapeOf node.output := by
  obtain ⟨⟨a, ha, hfirst, hra⟩, d, hd, hlast, hrd⟩ := h.graph.operands h.built hi
  obtain ⟨-, u, hu, hk, -⟩ := h.built.owns i node hi
  simp only [plain_getElem?, Option.map_eq_some_iff] at hu
  obtain ⟨u, hu, rfl⟩ := hu
  have hne : u.kind ≠ .parameter := fun hp => by
    change u.kind = _ at hk
    rw [hk] at hp
    cases hp
  have hone : ∀ {i : Nat} {t : Tensor}, n.tensors[i]? = some t → ⟨i⟩ ∉ n.reducedOutputs →
      (n.batchTensor 1 i t).shape = t.shape := by
    intro i t ht hr
    rw [h.built.batchTensor_shape ht hr Nat.one_pos]
    split
    · rfl
    · next hk => rw [Shape.withRows, ← h.one_row ht hk]
  rw [h.compiled.shapeOf ha, h.compiled.shapeOf hd, h.compiled.shapeOf hu, h.compiled₁.shapeOf ha,
    h.compiled₁.shapeOf hd, h.compiled₁.shapeOf hu, shapeOf_eq ha, shapeOf_eq hd, shapeOf_eq hu,
    h.built.batchTensor_shape ha hra h.rows_pos, h.built.batchTensor_shape hd hrd h.rows_pos,
    h.built.batchTensor_shape hu hout h.rows_pos, hone ha hra, hone hd hrd, hone hu hout]
  refine ⟨⟨if_neg hfirst, ?_, if_neg hne⟩, rfl, rfl, rfl⟩
  simp only [Operator.second, hlast]

theorem output (h : SideBySide b config n m m₁ rows row) (hi : n.nodes[i]? = some node)
    (step : Nat) :
    ∃ t, n.tensors[node.output.index]? = some t ∧ t.kind ≠ .parameter ∧ ∃ j < t.slotCount,
      m.target .forward node step = ⟨node.output.index, .forward, j⟩ ∧
        m₁.target .forward node step = ⟨node.output.index, .forward, j⟩ := by
  obtain ⟨-, u, hu, hk, -⟩ := h.built.owns i node hi
  have hpos := (h.built.sketch.tensors _ u hu).sound.sequence
  simp only [plain_getElem?, Option.map_eq_some_iff] at hu
  obtain ⟨t, ht, rfl⟩ := hu
  refine ⟨t, ht, fun hp => ?_, _, (chosen_lt hpos node.op step).1, ?_, ?_⟩
  · change t.kind = _ at hk
    rw [hk] at hp
    cases hp
  · simp only [Network.target, h.compiled.slotOf ht]
    rfl
  · simp only [Network.target, h.compiled₁.slotOf ht]
    rfl

theorem current_row (h : SideBySide b config n m m₁ rows row) (hc : n.HoldsRow m m₁ row c c₁)
    {x : TensorId} (ht : n.tensors[x.index]? = some t) (hx : x ∉ n.reducedOutputs) (step : Nat) :
    m₁.values c₁ (m₁.current .forward x step) =
        t.rowValue row (m.values c (m.current .forward x step)) ∧
      (m.values c (m.current .forward x step)).size =
        (n.batchTensor rows x.index t).shape.elements := by
  have hplain : n.plain[x.index]? = some t.plain := by rw [plain_getElem?, ht, Option.map_some]
  have hpos : 0 < t.sequence := (h.built.sketch.tensors _ _ hplain).sound.sequence
  have hlt := (chosen_lt hpos (.copyInit : Operator α) step).2
  have hplace : m.current .forward x step =
      ⟨x.index, .forward, (t.atStep step).chosen .current⟩ := by
    rw [Network.current, h.compiled.slotOf ht]
  have hplace₁ : m₁.current .forward x step =
      ⟨x.index, .forward, (t.atStep step).chosen .current⟩ := by
    rw [Network.current, h.compiled₁.slotOf ht]
  rw [hplace, hplace₁]
  refine ⟨hc.value _ t ht hx _ hlt, ?_⟩
  obtain ⟨t', ht', hs⟩ := h.compiled.tensor _ t ht
  rw [h.lowered.1.size_values hc.layout (h.compiled.has ht hlt) ht', hs]

theorem onBatch (h : SideBySide b config n m m₁ rows row) (hc : n.HoldsRow m m₁ row c c₁)
    (hi : n.nodes[i]? = some node) (hout : node.output ∉ n.reducedOutputs) (step : Nat) :
    node.op.OnBatch (n.shapeOf node.first) (n.shapeOf node.last) (n.shapeOf node.output) rows
      (m.values c (m.current .forward node.first step))
      (m.values c (m.current .forward node.last step))
      (m.values c (m.target .forward node step)) := by
  obtain ⟨⟨a, ha, hfirst, hra⟩, e, hlast, htakes, hre⟩ := h.graph.operands h.built hi
  obtain ⟨u, hu, hk, j, hj, htarget, -⟩ := h.output hi step
  obtain ⟨hs, hs', hs''⟩ := (h.shapes hi hout).1
  have hsmall : ∀ {x : TensorId} {t : Tensor}, n.tensors[x.index]? = some t →
      (m.shapeOf x).elements < 2 ^ 31 := by
    intro x t ht
    rw [h.compiled.shapeOf ht]
    refine h.tellable.elements _ (Array.mem_of_getElem? (i := x.index) ?_)
    rw [Array.getElem?_mapIdx, ht, Option.map_some]
  have hrows : ∀ {x : TensorId} {t : Tensor}, n.tensors[x.index]? = some t →
      t.kind ≠ .parameter → ((n.shapeOf x).withRows rows).elements =
        (n.shapeOf x).elements * rows := fun ht hne =>
    Shape.elements_withRows (shapeOf_eq ht ▸ h.one_row ht hne) rows
  obtain ⟨u', hu', hsu⟩ := h.compiled.tensor _ u hu
  refine ⟨⟨?_, ?_, ?_⟩, ?_, fun _ => ?_, ?_⟩
  · rw [← hrows ha hfirst, ← hs]
    exact hsmall ha
  · rw [← hs']
    exact hsmall hlast
  · rw [← hrows hu hk, ← hs'']
    exact hsmall hu
  · rw [(h.current_row hc ha hra step).2, ← hrows ha hfirst, ← hs, h.compiled.shapeOf ha]
  · rw [(h.current_row hc hlast hre step).2, ← hs', h.compiled.shapeOf hlast]
  · rw [htarget, h.lowered.1.size_values hc.layout (h.compiled.has hu hj) hu', ← hrows hu hk, ← hs'',
      shapeOf_eq hu']

/-- An operator leaves the row of what it leaves in the batch. -/
theorem exec (h : SideBySide b config n m m₁ rows row) (hc : n.HoldsRow m m₁ row c c₁)
    (hi : n.nodes[i]? = some node) {d d₁ : Dispatch α}
    (hd : m.backend.Implements (node.op.forwardRequest (m.shapeOf node.first)
      (m.shapeOf node.last) (m.shapeOf node.output) step (m.wires node step)) d)
    (he : Backend.Executes d c c')
    (hd₁ : m₁.backend.Implements (node.op.forwardRequest (m₁.shapeOf node.first)
      (m₁.shapeOf node.last) (m₁.shapeOf node.output) step (m₁.wires node step)) d₁)
    (he₁ : Backend.Executes d₁ c₁ c₁') : n.HoldsRow m m₁ row c' c₁' := by
  obtain ⟨u, hu, hk, j, hj, htarget, htarget₁⟩ := h.output hi step
  obtain ⟨hl, hl₁⟩ := h.lowered
  obtain ⟨data, hrun, hlayout, hdata, hother⟩ := hl.executes hc.layout he hd
    node.op.forwardKernel_ofName node.op.forwardKernel_outputs
    (node.op.forwardRequest_output ..) (htarget ▸ h.compiled.has hu hj)
  obtain ⟨data₁, hrun₁, hlayout₁, hdata₁, hother₁⟩ := hl₁.executes hc.layout₁ he₁ hd₁
    node.op.forwardKernel_ofName node.op.forwardKernel_outputs
    (node.op.forwardRequest_output ..) (htarget₁ ▸ h.compiled₁.has hu hj)
  refine ⟨hlayout, hlayout₁, fun i' t' ht' hr k hk' => ?_⟩
  by_cases hsame : (⟨i', .forward, k⟩ : Place) = ⟨node.output.index, .forward, j⟩
  · simp only [Place.mk.injEq, true_and] at hsame
    obtain ⟨rfl, rfl⟩ := hsame
    rw [hu] at ht'
    cases ht'
    rw [← htarget, hdata, htarget, ← htarget₁, hdata₁]
    obtain ⟨⟨a, ha, hfirst, hra⟩, e, hlast, htakes, hre⟩ := h.graph.operands h.built hi
    obtain ⟨⟨hs, hs', hs''⟩, hs₁, hs₁', hs₁''⟩ := h.shapes hi hr
    have hop : node.op.reducesBatch = false := by
      by_contra hop
      refine hr (List.mem_map.mpr ⟨node, List.mem_filter.mpr ⟨?_, by simpa using hop⟩, rfl⟩)
      exact Array.mem_toList_iff.mpr (Array.mem_of_getElem? hi)
    have hrows := Operator.forward_byRows hop (h.graph.onRows h.built (Array.mem_of_getElem? hi)
      (h.tellable.operators node (Array.mem_of_getElem? hi))) rows row step _ _ _ h.row_lt
      (h.onBatch hc hi hr step)
    rw [Operator.contents_forwardRequest, hs, hs', hs''] at hrun
    rw [Operator.contents_forwardRequest, hs₁, hs₁', hs₁''] at hrun₁
    have hx := (h.current_row hc ha hra step).1
    have hy := (h.current_row hc hlast hre step).1
    have hz : m₁.values c₁ (m₁.target .forward node step) =
        rowOf (n.shapeOf node.output).elements row (m.values c (m.target .forward node step)) := by
      rw [htarget, htarget₁, hc.value _ u hu hr k hk', Tensor.rowValue, if_neg hk, shapeOf_eq hu]
    rw [Tensor.rowValue, if_neg hfirst, ← shapeOf_eq ha] at hx
    have hy' : m₁.values c₁ (m₁.current .forward node.last step) =
        node.op.secondRow (n.shapeOf node.last) row
          (m.values c (m.current .forward node.last step)) := by
      rw [hy, Tensor.rowValue, Operator.secondRow, shapeOf_eq hlast]
      simp only [htakes]
    rw [← hx, ← hy', ← hz] at hrows
    rw [Tensor.rowValue, if_neg hk, ← shapeOf_eq hu]
    exact hrows data data₁ hrun hrun₁
  · rw [hother _ (h.compiled.has ht' hk') (htarget ▸ hsame),
      hother₁ _ (h.compiled₁.has ht' hk') (htarget₁ ▸ hsame)]
    exact hc.value i' t' ht' hr k hk'

theorem next (h : SideBySide b config n m m₁ rows row) (hc : n.HoldsRow m m₁ row c c₁)
    (hs : step < n.maxSequence) {ds ds₁ : List (Dispatch α)}
    (hd : List.Forall₂ m.backend.Implements ((m.atStep step).emits .forward step i) ds)
    (he : Backend.Runs ds c c')
    (hd₁ : List.Forall₂ m₁.backend.Implements ((m₁.atStep step).emits .forward step i) ds₁)
    (he₁ : Backend.Runs ds₁ c₁ c₁') : n.HoldsRow m m₁ row c' c₁' := by
  have hskip : (m.atStep step).emits .forward step i = [] →
      (m₁.atStep step).emits .forward step i = [] → n.HoldsRow m m₁ row c' c₁' := by
    intro hnil hnil₁
    rw [hnil, List.forall₂_nil_left_iff] at hd
    rw [hnil₁, List.forall₂_nil_left_iff] at hd₁
    rw [hd] at he
    rw [hd₁] at he₁
    rwa [he, he₁]
  cases hi : n.nodes[i]? with
  | none =>
    have hnone : ∀ {k : Network α} {batch : Nat}, Compiled n k batch →
        (k.atStep step).emits .forward step i = [] := by
      intro k batch hk
      have hnode : (k.atStep step).nodes[i]? = none := by
        rw [Array.getElem?_eq_none_iff] at hi ⊢
        exact hk.size_nodes.trans_le hi
      simp only [Network.emits, hnode]
    exact hskip (hnone h.compiled) (hnone h.compiled₁)
  | some node =>
    obtain ⟨t, ht, -⟩ := h.output hi step
    obtain ⟨hone, hnil⟩ :=
      h.compiled.forward_emits h.lowered.1 (h.compiled.longest ▸ hs) hi ht
    obtain ⟨hone₁, hnil₁⟩ :=
      h.compiled₁.forward_emits h.lowered.2 (h.compiled₁.longest ▸ hs) hi ht
    by_cases hrun : n.Computes node step
    · rw [hone hrun] at hd
      rw [hone₁ hrun] at hd₁
      obtain ⟨d, _, hfirst, hrest, rfl⟩ := List.forall₂_cons_left_iff.mp hd
      obtain ⟨d₁, _, hfirst₁, hrest₁, rfl⟩ := List.forall₂_cons_left_iff.mp hd₁
      obtain rfl := List.forall₂_nil_left_iff.mp hrest
      obtain rfl := List.forall₂_nil_left_iff.mp hrest₁
      obtain ⟨_, he, rfl⟩ := he
      obtain ⟨_, he₁, rfl⟩ := he₁
      exact h.exec hc hi hfirst he hfirst₁ he₁
    · exact hskip (hnil hrun) (hnil₁ hrun)

/-- A forward pass leaves in a row what it leaves for the row alone. -/
theorem forward (h : SideBySide b config n m m₁ rows row) (hc : n.HoldsRow m m₁ row c c₁)
    {ds ds₁ : List (Dispatch α)}
    (hd : List.Forall₂ m.backend.Implements (m.scheduled .forward) ds) (he : Backend.Runs ds c c')
    (hd₁ : List.Forall₂ m₁.backend.Implements (m₁.scheduled .forward) ds₁)
    (he₁ : Backend.Runs ds₁ c₁ c₁') : n.HoldsRow m m₁ row c' c₁' := by
  unfold scheduled scheduledUpTo at hd hd₁
  rw [h.compiled.longest, h.compiled.size_nodes] at hd
  rw [h.compiled₁.longest, h.compiled₁.size_nodes] at hd₁
  refine he.flatMap_range_pair hd hd₁ he₁ hc fun step _ _ _ _ _ _ hs hc hd he hd₁ he₁ => ?_
  exact he.flatMap_range_pair hd hd₁ he₁ hc fun _ _ _ _ _ _ _ _ hc hd he hd₁ he₁ =>
    h.next hc hs hd he hd₁ he₁

theorem start (h : SideBySide b config n m m₁ rows row) {k k₁ : Network α}
    (written : HostWritten m k) (written₁ : HostWritten m₁ k₁) (host : n.HostRow row k k₁) :
    m.SameGraphAs k ∧ m₁.SameGraphAs k₁ ∧ n.HoldsRow m m₁ row k.backend k₁.backend := by
  obtain ⟨hsame, hblank⟩ := h.lowered.1.written written
  obtain ⟨hsame₁, hblank₁⟩ := h.lowered.2.written written₁
  refine ⟨hsame, hsame₁, hsame.layout, hsame₁.layout, fun i t ht hr j hj => ?_⟩
  obtain ⟨t', ht', hs⟩ := h.compiled.tensor i t ht
  obtain ⟨t₁, ht₁, hs₁⟩ := h.compiled₁.tensor i t ht
  by_cases hk : t.kind = .intermediate
  · have hslot : ∀ {batch : Nat} {u : Tensor}, (n.batchTensor batch i t).SameButStorage u →
        u.kind = .intermediate ∧ j < u.slotCount := by
      intro batch u hs
      rw [batchTensor_eq] at hs
      rw [hs]
      exact ⟨hk, hj⟩
    have hne : t.kind ≠ .parameter := by simp [hk]
    have hone := h.one_row ht hne
    rw [hblank i t' ht' (hslot hs).1 j (hslot hs).2,
      hblank₁ i t₁ ht₁ (hslot hs₁).1 j (hslot hs₁).2, hs, hs₁]
    simp only [h.built.batchTensor_shape ht hr h.rows_pos, h.built.batchTensor_shape ht hr Nat.one_pos,
      if_neg hne, Tensor.rowValue]
    rw [Shape.elements_withRows hone, Shape.elements_withRows hone, Nat.mul_one, rowOf_replicate h.row_lt]
  · have hheld := host i (Array.getElem?_eq_some_iff.mp ht).1
    rw [(Array.getElem?_eq_some_iff.mp ht).2] at hheld
    have hrow := hheld hk j hj
    have hread := h.lowered.1.readings h.compiled.stage hsame (x := ⟨i⟩) (h.compiled.has ht hj)
    have hread₁ := h.lowered.2.readings h.compiled₁.stage hsame₁ (x := ⟨i⟩) (h.compiled₁.has ht hj)
    rw [hread, hread₁] at hrow
    exact Except.ok.inj hrow

end SideBySide

instance (ts : Array Tensor) (id : TensorId) : Decidable (IsParameter ts id) :=
  decidable_of_iff (ts[id.index]?.any (·.kind = .parameter))
    ((Option.any_eq_true _ _).trans (by simp [IsParameter]))

instance (n : Network α) : Decidable n.OverRows :=
  decidable_of_iff
    ((∀ t ∈ n.tensors, t.kind = .input ∨ t.kind = .recurrent → t.shape.w = 1) ∧
      (∀ node ∈ n.nodes, ¬IsParameter n.tensors node.first) ∧
      (∀ node ∈ n.nodes, node.op.arity = 2 →
        (IsParameter n.tensors node.last ↔ node.op.takesParameter = true)) ∧
      ∀ node ∈ n.nodes, ∀ x ∈ node.inputs, x ∉ n.reducedOutputs)
    ⟨fun h => ⟨h.1, h.2.1, h.2.2.1, h.2.2.2⟩, fun h => ⟨h.1, h.2, h.3, h.4⟩⟩

instance (n : Network α) (batch : Nat) : Decidable (n.Tellable batch) :=
  decidable_of_iff
    ((∀ t ∈ n.tensors.mapIdx (n.batchTensor batch), t.shape.elements < 2 ^ 31) ∧
      ∀ node ∈ n.nodes, node.op.Tellable)
    ⟨fun h => ⟨h.1, h.2⟩, fun h => ⟨h.1, h.2⟩⟩

instance [DecidableEq α] (n k k₁ : Network α) (row : Nat) : Decidable (n.HostRow row k k₁) := by
  unfold HostRow
  infer_instance

variable {b : Backend α} {config : NetworkConfig} {n m m₁ k k₁ k' k₁' : Network α}
  {batch row : Nat}

/-- Batches are transparent: after a forward pass over a batch, a row of any slot of any output is
what the slot holds after a forward pass over that row alone, unless the operator folds the rows
into one value. -/
theorem Built.forward_byRow (idle : b.Idle) (built : Built InStep (Network.new b config) n)
    (graph : n.OverRows) (tellable : n.Tellable (max batch 1))
    (compiled : compile batch n = .ok ⟨⟩ m) (compiled₁ : compile 1 n = .ok ⟨⟩ m₁)
    (written : HostWritten m k) (written₁ : HostWritten m₁ k₁) (hrow : row < max batch 1)
    (host : n.HostRow row k k₁) (ran : forward k = .ok ⟨⟩ k') (ran₁ : forward k₁ = .ok ⟨⟩ k₁')
    {node : Node α} (hn : node ∈ n.nodes) (hop : node.op.reducesBatch = false) {t : Tensor}
    (ht : n.tensor node.output = .ok t) {step : Nat} (hs : step < t.sequence) :
    ∃ value, readTensor node.output step k' = .ok value k' ∧
      readTensor node.output step k₁' = .ok (rowOf t.shape.rowElements row value) k₁' := by
  have hsketch := built.sketch
  have hboth : SideBySide b config n m m₁ (max batch 1) row :=
    { built, graph, tellable, row_lt := hrow
      compiled := compile_ok hsketch.outline ⟨idle.dispatches, idle.sound⟩ compiled
      compiled₁ := compile_ok hsketch.outline ⟨idle.dispatches, idle.sound⟩ compiled₁ }
  obtain ⟨hsame, hsame₁, hholds⟩ := hboth.start written written₁ host
  obtain ⟨hsame', ds, hds, hruns⟩ := hboth.lowered.1.run_ok hsame (by decide) ran
  obtain ⟨hsame₁', ds₁, hds₁, hruns₁⟩ := hboth.lowered.2.run_ok hsame₁ (by decide) ran₁
  have hdone := hboth.forward hholds hds hruns hds₁ hruns₁
  have hreduced := built.not_reduced hn hop
  have ht' := tensor_ok_iff.mp ht
  obtain ⟨i, hi⟩ := Array.getElem?_of_mem hn
  obtain ⟨-, u, hu, hk, -⟩ := built.owns i node hi
  rw [plain_getElem?, ht'] at hu
  cases hu
  have hk' : t.kind = .intermediate := hk
  have hne : t.kind ≠ .parameter := by simp [hk']
  have hslot : step < t.slotCount := by
    rw [Tensor.slotCount, hk']
    exact hs
  have hvalue := hdone.value _ t ht' hreduced step hslot
  rw [Tensor.rowValue, if_neg hne] at hvalue
  have hone := hboth.one_row ht' hne
  have helements : t.shape.elements = t.shape.rowElements := by
    rw [Shape.elements_eq_rowElements_mul, hone, Nat.mul_one]
  refine ⟨_, hboth.compiled.read hboth.lowered.1 hsame' ht' hne hslot, ?_⟩
  rw [← helements, ← hvalue]
  exact hboth.compiled₁.read hboth.lowered.2 hsame₁' ht' hne hslot

/-- A product, and a rectifier of it. -/
def rectifiedNetwork : Network Binary32 :=
  (Network.new Backend.host {}).draft
    [.createInput ⟨2, 1, 1, 1⟩ 1, .createParameter ⟨1, 2, 1, 1⟩ 1,
      .addOperator .matMul [⟨0⟩, ⟨1⟩] 0, .addOperator (.activation .relu) [⟨2⟩] 0]

def rectifiedWritten (batch : Nat) (rows : Array Binary32) : Network Binary32 :=
  HostWrite.perform (.tensor ⟨0⟩ 0 rows)
    (HostWrite.perform (.tensor ⟨1⟩ 0 #[.ofInt 3, .ofInt 1])
      (Call.after (compile batch) rectifiedNetwork))

set_option maxRecDepth 100000 in
theorem rectifiedNetwork_forward_byRow : ∃ m m₁ k k₁ k' k₁',
    compile 2 rectifiedNetwork = .ok ⟨⟩ m ∧ compile 1 rectifiedNetwork = .ok ⟨⟩ m₁ ∧
      HostWritten m k ∧ HostWritten m₁ k₁ ∧ rectifiedNetwork.HostRow 1 k k₁ ∧
      forward k = .ok ⟨⟩ k' ∧ forward k₁ = .ok ⟨⟩ k₁' ∧
      ∃ value, readTensor ⟨3⟩ 0 k' = .ok value k' ∧
        readTensor ⟨3⟩ 0 k₁' = .ok (rowOf 1 1 value) k₁' := by
  have hm : compile 2 rectifiedNetwork = .ok ⟨⟩ (Call.after (compile 2) rectifiedNetwork) :=
    Call.ok_of_isOk (by decide +kernel)
  have hm₁ : compile 1 rectifiedNetwork = .ok ⟨⟩ (Call.after (compile 1) rectifiedNetwork) :=
    Call.ok_of_isOk (by decide +kernel)
  have hbuilt : Built InStep (Network.new Backend.host {}) rectifiedNetwork :=
    Built.start.draft fun c hc => by
      simp only [List.mem_cons, List.not_mem_nil, or_false] at hc
      obtain rfl | rfl | rfl | rfl := hc
      · trivial
      · trivial
      · exact nofun
      · exact nofun
  have hwritten : HostWritten (Call.after (compile 2) rectifiedNetwork)
      (rectifiedWritten 2 #[.ofInt 1, .ofInt 2, .ofInt 4, .ofInt (-8)]) :=
    .write _ (by decide +kernel) (.write _ (by decide +kernel) .start)
  have hwritten₁ : HostWritten (Call.after (compile 1) rectifiedNetwork)
      (rectifiedWritten 1 #[.ofInt 4, .ofInt (-8)]) :=
    .write _ (by decide +kernel) (.write _ (by decide +kernel) .start)
  have hhost : rectifiedNetwork.HostRow 1
      (rectifiedWritten 2 #[.ofInt 1, .ofInt 2, .ofInt 4, .ofInt (-8)])
      (rectifiedWritten 1 #[.ofInt 4, .ofInt (-8)]) := by decide +kernel
  have hran : forward (rectifiedWritten 2 #[.ofInt 1, .ofInt 2, .ofInt 4, .ofInt (-8)]) =
      .ok ⟨⟩ (Call.after forward _) := Call.ok_of_isOk (by decide +kernel)
  have hran₁ : forward (rectifiedWritten 1 #[.ofInt 4, .ofInt (-8)]) =
      .ok ⟨⟩ (Call.after forward _) := Call.ok_of_isOk (by decide +kernel)
  have hnode : (⟨.activation .relu, [⟨2⟩], ⟨3⟩, 0, [], [], []⟩ : Node Binary32) ∈
      rectifiedNetwork.nodes := Array.mem_of_getElem? (i := 1) rfl
  exact ⟨_, _, _, _, _, _, hm, hm₁, hwritten, hwritten₁, hhost, hran, hran₁,
    Built.forward_byRow Backend.host_idle hbuilt (by decide +kernel) (by decide +kernel) hm hm₁
      hwritten hwritten₁ (by decide) hhost hran hran₁ hnode rfl rfl (by decide +kernel)⟩

/-- A maximum whose padding is more than a kernel can be told, so that the kernel counts fewer
cells in a row than the output has. -/
def paddedNetwork : Network Binary32 :=
  (Network.new Backend.host {}).draft
    [.createInput ⟨1, 1, 1, 1⟩ 1, .addOperator (.maxPool 4294967296 2147483647 1) [⟨0⟩] 0]

def paddedWritten (batch : Nat) (rows : Array Binary32) : Network Binary32 :=
  HostWrite.perform (.tensor ⟨0⟩ 0 rows) (Call.after (compile batch) paddedNetwork)

set_option maxRecDepth 100000 in
theorem paddedNetwork_mixes_rows : ∃ m m₁ k k₁ k' k₁' value value₁,
    Built InStep (Network.new Backend.host {}) paddedNetwork ∧ paddedNetwork.OverRows ∧
      compile 2 paddedNetwork = .ok ⟨⟩ m ∧ compile 1 paddedNetwork = .ok ⟨⟩ m₁ ∧
      HostWritten m k ∧ HostWritten m₁ k₁ ∧ paddedNetwork.HostRow 0 k k₁ ∧
      forward k = .ok ⟨⟩ k' ∧ forward k₁ = .ok ⟨⟩ k₁' ∧
      k'.readings ⟨1⟩ 0 = .ok value ∧ k₁'.readings ⟨1⟩ 0 = .ok value₁ ∧
      value₁ ≠ rowOf 9 0 value := by
  have hm : compile 2 paddedNetwork = .ok ⟨⟩ (Call.after (compile 2) paddedNetwork) :=
    Call.ok_of_isOk (by decide +kernel)
  have hm₁ : compile 1 paddedNetwork = .ok ⟨⟩ (Call.after (compile 1) paddedNetwork) :=
    Call.ok_of_isOk (by decide +kernel)
  have hbuilt : Built InStep (Network.new Backend.host {}) paddedNetwork :=
    Built.start.draft fun c hc => by
      simp only [List.mem_cons, List.not_mem_nil, or_false] at hc
      obtain rfl | rfl := hc
      · trivial
      · exact nofun
  have hwritten : HostWritten (Call.after (compile 2) paddedNetwork)
      (paddedWritten 2 #[.ofInt 3, .ofInt 5]) := .write _ (by decide +kernel) .start
  have hwritten₁ : HostWritten (Call.after (compile 1) paddedNetwork)
      (paddedWritten 1 #[.ofInt 3]) := .write _ (by decide +kernel) .start
  have hhost : paddedNetwork.HostRow 0 (paddedWritten 2 #[.ofInt 3, .ofInt 5])
      (paddedWritten 1 #[.ofInt 3]) := by
    intro i hi hk j hj
    have honly : ∀ i (hi : i < paddedNetwork.tensors.size),
        paddedNetwork.tensors[i].kind ≠ .intermediate →
          ∀ j < paddedNetwork.tensors[i].slotCount, i = 0 ∧ j = 0 := by decide +kernel
    obtain ⟨rfl, rfl⟩ := honly i hi hk j hj
    have hread : (paddedWritten 2 #[.ofInt 3, .ofInt 5]).readings ⟨0⟩ 0 =
        .ok #[.ofInt 3, .ofInt 5] := by decide +kernel
    have hread₁ : (paddedWritten 1 #[.ofInt 3]).readings ⟨0⟩ 0 = .ok #[.ofInt 3] := by
      decide +kernel
    rw [hread, hread₁]
    decide +kernel +revert
  have hran : forward (paddedWritten 2 #[.ofInt 3, .ofInt 5]) = .ok ⟨⟩ (Call.after forward _) :=
    Call.ok_of_isOk (by decide +kernel)
  have hran₁ : forward (paddedWritten 1 #[.ofInt 3]) = .ok ⟨⟩ (Call.after forward _) :=
    Call.ok_of_isOk (by decide +kernel)
  have hvalue : (Call.after forward (paddedWritten 2 #[.ofInt 3, .ofInt 5])).readings ⟨1⟩ 0 =
      .ok (#[.ofInt 3, 0, 0, 0, .ofInt 5] ++ Array.replicate 13 0) := by decide +kernel
  have hvalue₁ : (Call.after forward (paddedWritten 1 #[.ofInt 3])).readings ⟨1⟩ 0 =
      .ok (#[.ofInt 3] ++ Array.replicate 8 0) := by decide +kernel
  exact ⟨_, _, _, _, _, _, _, _, hbuilt, by decide +kernel, hm, hm₁, hwritten, hwritten₁,
    hhost, hran, hran₁, hvalue, hvalue₁, by decide +kernel⟩

end Network

end Backprop
