import Mathlib
import Backprop.Proofs.Network.Graph
import Backprop.Proofs.Operator.Rows

/-! Graphs over single rows: inputs and states are created with one row, and parameters stand where
weights, kernels and biases do. A batch then multiplies the rows of every tensor but of parameters
and of losses and metrics. -/

namespace Backprop

variable {α : Type}

namespace Operator

theorem outputShape_cases {op : Operator α} {shapes : List Shape} {out : Shape}
    (h : op.outputShape shapes = .ok out) :
    (∃ a, shapes = [a] ∧ op.shapeOf a a = .ok out) ∨
      ∃ a b, shapes = [a, b] ∧ op.shapeOf a b = .ok out := by
  have harity : op.arity = 1 ∨ op.arity = 2 := by cases op <;> simp [arity]
  unfold outputShape at h
  split at h
  · cases h
  · next hlen =>
    rw [not_not] at hlen
    obtain _ | ⟨a, _ | ⟨b, _ | ⟨c, rest⟩⟩⟩ := shapes
    · simp at hlen
      omega
    · exact .inl ⟨a, rfl, h⟩
    · exact .inr ⟨a, b, rfl, h⟩
    · simp at hlen
      omega

/-- Operators pass the rows of their first operand on, or leave a single one. -/
theorem shapeOf_single {op : Operator α} {a b out : Shape} (h : op.shapeOf a b = .ok out)
    (ha : a.w = 1) : out.w = 1 := by
  cases op with
  | matMul | matMulFlat | addBias | addBiasConv | maxPool =>
    simp only [shapeOf] at h
    split at h
    · cases h
      exact ha
    · cases h
  | crossEntropy | accuracy =>
    simp only [shapeOf] at h
    split at h <;> cases h
    rfl
  | split tileX tileY =>
    simp only [shapeOf] at h
    split at h <;> cases h
    exact ha
  | conv2d pad stride =>
    simp only [shapeOf] at h
    split at h
    · cases h
    · simp only [Except.bind_ok_iff, Except.pure_ok_iff] at h
      obtain ⟨-, -, rfl⟩ := h
      exact ha
  | elementwiseProduct | add | leastSquares =>
    simp only [shapeOf, Except.bind_ok_iff, Except.pure_ok_iff] at h
    obtain ⟨-, -, rfl⟩ := h
    first | exact ha | rfl
  | activation | softmax | copy | subtractFromConst | transpose | copyInit =>
    cases h
    exact ha

end Operator

namespace Network

/-- A graph that is drawn for a single row, to be compiled for a batch of them. -/
structure OverRows (n : Network α) : Prop where
  single : ∀ t ∈ n.tensors, t.kind = .input ∨ t.kind = .recurrent → t.shape.w = 1
  first : ∀ node ∈ n.nodes, ¬IsParameter n.tensors node.first
  second : ∀ node ∈ n.nodes, node.op.arity = 2 →
    (IsParameter n.tensors node.last ↔ node.op.takesParameter = true)
  /-- No operator reads a loss or a metric. -/
  unread : ∀ node ∈ n.nodes, ∀ x ∈ node.inputs, x ∉ n.reducedOutputs

theorem isParameter_plain {n : Network α} {x : TensorId} :
    IsParameter n.plain x ↔ IsParameter n.tensors x := by
  unfold IsParameter
  simp only [plain_getElem?, Option.map_eq_some_iff]
  constructor
  · rintro ⟨_, ⟨t, ht, rfl⟩, hk⟩
    exact ⟨t, ht, hk⟩
  · rintro ⟨t, ht, hk⟩
    exact ⟨_, ⟨t, ht, rfl⟩, hk⟩

theorem shapeOf_plain {n : Network α} {x : TensorId} {t : Tensor}
    (ht : n.plain[x.index]? = some t) : n.shapeOf x = t.shape := by
  rw [plain_getElem?, Option.map_eq_some_iff] at ht
  obtain ⟨u, hu, rfl⟩ := ht
  have hshape := shapeOf_eq hu
  exact hshape

theorem Takes.operands {n : Network α} {node : Node α} {out : Shape}
    (h : Takes n.plain node.op node.inputs out) :
    (∃ t, n.plain[node.first.index]? = some t) ∧ (∃ t, n.plain[node.last.index]? = some t) ∧
      node.op.shapeOf (n.shapeOf node.first) (n.shapeOf node.last) = .ok out ∧
        (node.op.arity = 2 ∨ node.last = node.first) := by
  have harity := h.arity
  obtain ⟨shapes, hs, ho⟩ := h
  unfold Node.first Node.last
  obtain ⟨a, rfl, ho⟩ | ⟨a, b, rfl, ho⟩ := Operator.outputShape_cases ho
  · obtain ⟨x, xs, ⟨t, ht, rfl⟩, hxs, hinputs⟩ := List.forall₂_cons_right_iff.mp hs
    obtain rfl := List.forall₂_nil_right_iff.mp hxs
    rw [hinputs]
    refine ⟨⟨t, ht⟩, ⟨t, ht⟩, ?_, .inr rfl⟩
    change node.op.shapeOf (n.shapeOf x) (n.shapeOf x) = _
    rwa [shapeOf_plain ht]
  · obtain ⟨x, xs, ⟨t, ht, rfl⟩, hxs, hinputs⟩ := List.forall₂_cons_right_iff.mp hs
    obtain ⟨y, ys, ⟨u, hu, rfl⟩, hys, rfl⟩ := List.forall₂_cons_right_iff.mp hxs
    obtain rfl := List.forall₂_nil_right_iff.mp hys
    rw [hinputs] at harity ⊢
    refine ⟨⟨t, ht⟩, ⟨u, hu⟩, ?_, .inl harity.symm⟩
    change node.op.shapeOf (n.shapeOf x) (n.shapeOf y) = _
    rwa [shapeOf_plain ht, shapeOf_plain hu]

/-- Every intermediate tensor is the output of an operator. -/
def Produced (n : Network α) : Prop :=
  ∀ (i : Nat) (t : Tensor), n.plain[i]? = some t → t.kind = .intermediate →
    ∃ node ∈ n.nodes, node.output = ⟨i⟩

variable {b : Backend α} {config : NetworkConfig} {allowed : Operator α → Prop} {n n' : Network α}

theorem Produced.same (h : n.Produced) (hs : n.SameGraph n') : n'.Produced := by
  obtain ⟨ts, o, inits, hp, -, rfl⟩ := hs
  intro i t ht
  exact h i t (hp ▸ ht)

theorem Produced.create {kind : TensorKind} {shape : Shape} {sequence : Nat} (h : n.Produced)
    (hk : kind ≠ .intermediate) : (Call.after (Network.create kind shape sequence) n).Produced := by
  refine Call.after_induct h (fun e m he => create_error he) fun id m hm i t ht hi => ?_
  obtain ⟨-, -, -, rfl⟩ := create_ok_iff.mp hm
  rw [plain, Array.map_push, Array.getElem?_push] at ht
  split at ht
  · cases ht
    exact absurd hi hk
  · exact h i t ht hi

theorem Produced.addOperator {op : Operator α} {inputs : List TensorId} {k : Nat}
    (h : n.Produced) : (Call.after (Network.addOperator op inputs k) n).Produced := by
  refine Call.after_induct h (fun e m he => addOperator_error he) fun id m hm i t ht hi => ?_
  obtain ⟨-, rfl, ts, shape, sequence, -, -, hp, rfl⟩ := addOperator_ok hm
  change (ts.map Tensor.plain)[i]? = some t at ht
  rw [hp, Array.getElem?_push] at ht
  split at ht
  · next hsize =>
    refine ⟨_, Array.mem_push_self, ?_⟩
    rw [hsize]
    simp [plain]
  · obtain ⟨node, hn, ho⟩ := h i t ht hi
    exact ⟨node, Array.mem_push_of_mem _ hn, ho⟩

theorem Built.produced (h : Built allowed (Network.new b config) n) : n.Produced := by
  induction h with
  | start =>
    intro i t ht
    simp [Network.new, plain] at ht
  | call c ok h ih =>
    cases c with
    | createInput shape sequence => exact ih.create (by decide)
    | createState shape sequence => exact ih.create (by decide)
    | createParameter shape sequence => exact ih.create (by decide)
    | addOperator op inputs timeOffset => exact ih.addOperator
    | nameTensor id name => exact ih.same (nameTensor_same _ id name)
    | setOptimizer o => exact ih.same (setOptimizer_same _ o)
    | initWeight target init => exact ih.same (initWeight_same _ target init)

theorem OverRows.single_row (graph : n.OverRows) (built : Built allowed (Network.new b config) n)
    {i : Nat} {t : Tensor} (ht : n.plain[i]? = some t) (hk : t.kind ≠ .parameter) :
    t.shape.w = 1 := by
  induction i using Nat.strong_induction_on generalizing t with
  | _ i ih =>
    by_cases hi : t.kind = .intermediate
    · obtain ⟨node, hn, ho⟩ := built.produced i t ht hi
      obtain ⟨j, hj⟩ := Array.getElem?_of_mem hn
      have howns := (built.owns j node hj).2
      have hlater := (built.sketch.later j j node node hj hj le_rfl howns).1
      obtain ⟨u, hu, -, -, htakes⟩ := howns
      rw [ho, ht] at hu
      cases hu
      obtain ⟨⟨a, ha⟩, -, hshape, -⟩ := htakes.operands
      have hpar := graph.first node hn
      rw [← isParameter_plain] at hpar
      have hne : a.kind ≠ .parameter := fun hk => hpar ⟨a, ha, hk⟩
      have hlt := hlater _ (Node.first_mem htakes.arity)
      rw [ho] at hlt
      refine Operator.shapeOf_single hshape ?_
      rw [shapeOf_plain ha]
      exact ih _ hlt ha hne
    · have hdrafted := built.sketch.tensors i t ht
      rw [plain_getElem?, Option.map_eq_some_iff] at ht
      obtain ⟨u, hu, rfl⟩ := ht
      refine graph.single u (Array.mem_of_getElem? hu) ?_
      have hs := hdrafted.kind
      change u.kind ≠ _ at hk hi hs
      cases hkind : u.kind <;> simp_all

section

variable (graph : n.OverRows) (built : Built allowed (Network.new b config) n)

include graph built

theorem OverRows.one_row {i : Nat} {t : Tensor} (ht : n.tensors[i]? = some t)
    (hk : t.kind ≠ .parameter) : t.shape.w = 1 := by
  have hplain : n.plain[i]? = some t.plain := by rw [plain_getElem?, ht, Option.map_some]
  have hone := graph.single_row built hplain hk
  exact hone

theorem OverRows.accepts {node : Node α} (hn : node ∈ n.nodes) :
    node.op.shapeOf (n.shapeOf node.first) (n.shapeOf node.last) = .ok (n.shapeOf node.output) ∧
      (n.shapeOf node.first).w = 1 ∧
      (node.op.takesParameter = false → (n.shapeOf node.last).w = 1) ∧
      0 < (n.shapeOf node.first).elements ∧ 0 < (n.shapeOf node.last).elements := by
  obtain ⟨j, hj⟩ := Array.getElem?_of_mem hn
  obtain ⟨-, u, hu, -, -, htakes⟩ := built.owns j node hj
  obtain ⟨⟨a, ha⟩, ⟨c, hc⟩, hshape, hlast⟩ := htakes.operands
  have hfirst : a.shape.w = 1 := graph.single_row built ha fun hk =>
    graph.first node hn (isParameter_plain.mp ⟨a, ha, hk⟩)
  have hpos := (built.sketch.tensors _ a ha).sound.elements
  have hpos' := (built.sketch.tensors _ c hc).sound.elements
  rw [shapeOf_plain ha, shapeOf_plain hc] at hshape
  rw [shapeOf_plain ha, shapeOf_plain hc, shapeOf_plain hu]
  refine ⟨hshape, hfirst, fun htake => ?_, hpos, hpos'⟩
  obtain htwo | hsame := hlast
  · refine graph.single_row built hc fun hk => ?_
    have h := (graph.second node hn htwo).mp (isParameter_plain.mp ⟨c, hc, hk⟩)
    simp [htake] at h
  · rw [hsame, ha] at hc
    cases hc
    exact hfirst

theorem OverRows.onRows {node : Node α} (hn : node ∈ n.nodes) (tellable : node.op.Tellable) :
    node.op.OnRows (n.shapeOf node.first) (n.shapeOf node.last) (n.shapeOf node.output) := by
  obtain ⟨shape, first, second, pos⟩ := graph.accepts built hn
  exact ⟨shape, first, second, pos, tellable⟩

theorem OverRows.operands {i : Nat} {node : Node α} (hi : n.nodes[i]? = some node) :
    (∃ t, n.tensors[node.first.index]? = some t ∧ t.kind ≠ .parameter ∧
        node.first ∉ n.reducedOutputs) ∧
      ∃ t, n.tensors[node.last.index]? = some t ∧
        (t.kind = .parameter ↔ node.op.takesParameter = true) ∧
        node.last ∉ n.reducedOutputs := by
  have hmem := Array.mem_of_getElem? hi
  obtain ⟨-, u, -, -, -, htakes⟩ := built.owns i node hi
  have hunread := graph.unread node hmem
  obtain ⟨⟨a, ha⟩, ⟨c, hc⟩, -, hlast⟩ := htakes.operands
  simp only [plain_getElem?, Option.map_eq_some_iff] at ha hc
  obtain ⟨a, ha, -⟩ := ha
  obtain ⟨c, hc, -⟩ := hc
  have hfirst : a.kind ≠ .parameter := fun hk => graph.first node hmem ⟨a, ha, hk⟩
  refine ⟨⟨a, ha, hfirst, hunread _ (Node.first_mem htakes.arity)⟩, c, hc, ?_,
    hunread _ (Node.last_mem htakes.arity)⟩
  have hparameter : IsParameter n.tensors node.last ↔ c.kind = .parameter := by
    constructor
    · rintro ⟨c', hc', hk⟩
      rw [hc] at hc'
      cases hc'
      exact hk
    · exact fun hk => ⟨c, hc, hk⟩
  by_cases htwo : node.op.arity = 2
  · exact hparameter.symm.trans (graph.second node hmem htwo)
  · obtain htwo' | hsame := hlast
    · exact absurd htwo' htwo
    · rw [hsame, ha] at hc
      cases hc
      have htake : node.op.takesParameter = false := by
        cases hop : node.op <;> simp_all [Operator.arity, Operator.takesParameter]
      simp [hfirst, htake]

end

theorem Built.not_scratch (built : Built allowed (Network.new b config) n) {i : Nat} {t : Tensor}
    (ht : n.tensors[i]? = some t) : t.kind ≠ .scratch := by
  have hplain : n.plain[i]? = some t.plain := by rw [plain_getElem?, ht, Option.map_some]
  exact (built.sketch.tensors i _ hplain).kind

theorem Built.batchTensor_shape (built : Built allowed (Network.new b config) n) {i : Nat}
    {t : Tensor} (ht : n.tensors[i]? = some t) (hi : ⟨i⟩ ∉ n.reducedOutputs) {batch : Nat}
    (hb : 0 < batch) : (n.batchTensor batch i t).shape =
      if t.kind = .parameter then t.shape else t.shape.withRows batch := by
  have hscratch := built.not_scratch ht
  unfold batchTensor Tensor.withBatch
  rw [if_neg hi, Nat.max_eq_left hb]
  cases hk : t.kind <;> simp_all [TensorKind.followsBatch]

theorem Built.not_reduced (built : Built allowed (Network.new b config) n) {node : Node α}
    (hn : node ∈ n.nodes) (hop : node.op.reducesBatch = false) :
    node.output ∉ n.reducedOutputs := by
  intro hmem
  obtain ⟨other, hother, heq⟩ := List.mem_map.mp hmem
  obtain ⟨hother, hred⟩ := List.mem_filter.mp hother
  obtain ⟨i, hi⟩ := Array.getElem?_of_mem hn
  obtain ⟨j, hj⟩ := Array.getElem?_of_mem (Array.mem_toList_iff.mp hother)
  obtain hlt | rfl | hlt := Nat.lt_trichotomy i j
  · have h' := (built.sketch.later i j node other hi hj hlt.le (built.owns j other hj).2).2 hlt
    rw [heq] at h'
    exact Nat.lt_irrefl _ h'
  · rw [hi] at hj
    cases hj
    simp [hop] at hred
  · have h' := (built.sketch.later j i other node hj hi hlt.le (built.owns i node hi).2).2 hlt
    rw [heq] at h'
    exact Nat.lt_irrefl _ h'

end Network

end Backprop
