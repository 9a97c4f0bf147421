import Mathlib
import Backprop.Proofs.Network.BatchRows
import Backprop.Proofs.Operator.Lasting

/-! Graphs whose operators fit their tensors. Each operator has an emission at every step, and its
requests can be recorded and run; and what fits a single row fits a batch. -/

namespace Backprop

variable {α : Type}

def Wires.all (w : Wires) : List BufferId :=
  [w.a, w.gradA, w.b, w.gradB, w.out, w.gradOut, w.tmp]

theorem Request.mem_footprint {r : Request α} {k : HostKernel} {h : BufferId}
    (hk : HostKernel.ofName? r.kernel = some k) (hh : .buffer h ∈ r.args) :
    h ∈ r.written ∨ h ∈ r.read := by
  obtain ⟨i, hi⟩ := List.getElem?_of_mem hh
  have hmem : (KernelArg.buffer h, i) ∈ r.args.zipIdx := List.mem_zipIdx_iff_getElem?.mpr hi
  rw [Request.written, Request.read, hk]
  by_cases hout : i ∈ k.outputs
  · exact .inl (List.mem_filterMap.mpr ⟨_, hmem, if_pos hout⟩)
  · exact .inr (List.mem_filterMap.mpr ⟨_, hmem, if_neg hout⟩)

namespace Operator

variable {op : Operator α} {a b out : Shape} {tile : Nat} {w : Wires} {pass : Pass} {r : Request α}

theorem forwardLaunch_isWhole (op : Operator α) (a b out : Shape) :
    (op.forwardLaunch a b out).IsWhole := by
  cases op with
  | matMul | matMulFlat => exact Launch.tiled_isWhole _ _
  | conv2d | maxPool | transpose | split => exact Launch.planes_isWhole _ _ _
  | crossEntropy | leastSquares | accuracy => exact Launch.single_isWhole
  | activation | elementwiseProduct | add | copy | copyInit | subtractFromConst | addBias
  | addBiasConv | softmax => exact Launch.elementwise_isWhole _

theorem backwardRequests_isWhole (op : Operator α) (a b : Shape) (tile : Nat) (w : Wires) :
    ∀ r ∈ op.backwardRequests a b tile w, r.launch.IsWhole ∧ r.increment = none := by
  cases op <;> simp [backwardRequests, request, Launch.tiled_isWhole, Launch.planes_isWhole,
    Launch.elementwise_isWhole]

theorem mem_requestsAt (hr : r ∈ (op.requestsAt a b out tile w).get pass) :
    r = op.forwardRequest a b out tile w ∨ r ∈ op.backwardRequests a b tile w := by
  unfold requestsAt at hr
  split at hr
  · cases pass <;> cases hr
  · cases pass with
    | forward => exact .inl (List.mem_singleton.mp hr)
    | backward => exact .inr hr
    | update => cases hr

theorem requestsAt_buffers (hr : r ∈ (op.requestsAt a b out tile w).get pass) :
    (r.launch.IsWhole ∧ r.increment = none) ∧ ∀ h, h ∈ r.written ∨ h ∈ r.read → h ∈ w.all := by
  obtain rfl | hr := mem_requestsAt hr
  · obtain ⟨hwritten, hread⟩ := op.forwardRequest_footprint a b out tile w
    refine ⟨⟨op.forwardLaunch_isWhole a b out, rfl⟩, fun h hh => ?_⟩
    rw [hwritten, hread, operands] at hh
    split at hh
    · simp only [List.mem_cons, List.not_mem_nil, or_false] at hh
      obtain rfl | rfl | rfl := hh <;> simp [Wires.all]
    · simp only [List.mem_cons, List.not_mem_nil, or_false] at hh
      obtain rfl | rfl := hh <;> simp [Wires.all]
  · obtain ⟨hwritten, hread⟩ := op.backwardRequests_footprint a b tile w r hr
    refine ⟨op.backwardRequests_isWhole a b tile w r hr, fun h hh => ?_⟩
    obtain hh | hh := hh
    · obtain rfl | rfl | rfl := hwritten h hh <;> simp [Wires.all]
    · obtain rfl | rfl | rfl | rfl | rfl := hread h hh <;> simp [Wires.all]

theorem length_scratchElements_le (op : Operator α) (shapes : List Shape) :
    (op.scratchElements shapes).length ≤ 1 := by
  unfold scratchElements
  split <;> simp

variable [Scalar α] {c : Backend α}

theorem Fits.runs (h : op.Fits a b out) (hw : w.Holds c op a b out)
    (hr : r ∈ (op.requestsAt a b out tile w).get pass) : r.RunsOn c := by
  obtain rfl | hr := mem_requestsAt hr
  · exact (h.all_run hw tile).forward
  · exact (h.all_run hw tile).backward r hr

theorem Fits.accepted (h : op.Fits a b out) (hw : w.Holds c op a b out)
    (registry : ∀ k : HostKernel, c.registry.contains k.name)
    (buffers : ∀ h ∈ w.all, c.Resolves h)
    (hr : r ∈ (op.requestsAt a b out tile w).get pass) : c.Accepts r := by
  obtain ⟨⟨hlaunch, hincrement⟩, hmem⟩ := requestsAt_buffers hr
  obtain ⟨k, -, hk, -⟩ := h.runs hw hr
  refine ⟨⟨HostKernel.name_of_ofName? hk ▸ registry k, k, hk⟩, fun x hx => ?_, hlaunch,
    fun i hi => ?_⟩
  · obtain ⟨buffer, hb, -⟩ := buffers x (hmem x (Request.mem_footprint hk hx))
    exact ⟨buffer, hb⟩
  · rw [hincrement] at hi
    cases hi

omit [Scalar α] in
/-- What fits can be emitted, with scratch where the operator needs some. -/
theorem Fits.emits (h : op.Fits a b out) {scratch : List Tensor}
    (hs : op.scratchElements [a, b] ≠ [] → scratch ≠ []) : op.Emits a b scratch := by
  have hshape := h.shape
  cases op with
  | matMul | matMulFlat => exact hs (List.cons_ne_nil _ _)
  | conv2d pad stride =>
    simp only [shapeOf] at hshape
    split at hshape
    · cases hshape
    · simp only [Except.bind_ok_iff] at hshape
      obtain ⟨extents, hplane, -⟩ := hshape
      exact ⟨hs (List.cons_ne_nil _ _), extents, hplane⟩
  | elementwiseProduct | add =>
    simp only [shapeOf, Except.bind_ok_iff, requireEqualElements_ok_iff] at hshape
    exact hshape.choose_spec.1
  | _ => trivial

end Operator

namespace Network

/-- A graph whose tensors have their final shapes: every operator accepts its operands, and there is
enough scratch for it. -/
structure Sized (m : Network α) : Prop where
  sequence : ∀ (i : Nat) (t : Tensor), m.tensors[i]? = some t → 0 < t.sequence
  fitted : ∀ node ∈ m.nodes, m.Fitted node
  fits : ∀ node ∈ m.nodes,
    node.op.Fits (m.shapeOf node.first) (m.shapeOf node.last) (m.shapeOf node.output)
  scratch : ∀ node ∈ m.nodes,
    List.Forall₂ (fun x need => ∃ t, m.tensors[x.index]? = some t ∧ need ≤ t.shape.elements)
      node.scratch (node.op.scratchElements [m.shapeOf node.first, m.shapeOf node.last])

section

variable [Scalar α] {m : Network α} {auxiliary : Nat} {allocation : Nat → Side → Nat}
  {node : Node α} {c : Backend α}

theorem Sized.wires (h : Sized m) (ha : Arranged m auxiliary allocation) (hn : node ∈ m.nodes)
    (step : Nat) (hb : c.buffers = m.backend.buffers)
    (hs : c.device.sizes = m.backend.device.sizes) :
    (∀ x ∈ (m.wires node step).all, c.Resolves x) ∧
      (m.wires node step).Holds c node.op (m.shapeOf node.first) (m.shapeOf node.last)
        (m.shapeOf node.output) := by
  have hfit := h.fitted node hn
  have hjoined := hfit.joined
  have hcurrent := fun (x : TensorId) (hx : x ∈ node.inputs) (side : Side) =>
    hjoined.has_current h.sequence hx side step
  have hfirst := hcurrent _ (Node.first_mem hjoined.arity)
  have hlast := hcurrent _ (Node.last_mem hjoined.arity)
  have htarget := fun side : Side => hfit.has_target h.sequence side step
  have hscratch := hfit.has_scratch h.sequence
  have hresolves : ∀ p, m.Has p → c.Resolves (m.handle p) := fun p hp =>
    (ha.resolves hp).congr hb hs
  have hsize : ∀ p : Place, m.Has p →
      (c.contents (m.handle p)).size = (m.shapeOf ⟨p.tensor⟩).elements := by
    intro p hp
    obtain ⟨t, ht, hl, hlt⟩ := id hp
    have hshape : m.shapeOf ⟨p.tensor⟩ = t.shape := shapeOf_eq ht
    rw [Backend.size_contents_congr (ha.resolves hp) hb hs,
      ha.size_contents (.refl _) ht hl hlt, hshape]
  refine ⟨fun x hx => ?_, ⟨hsize _ (hfirst _), hsize _ (hfirst _)⟩,
    ⟨hsize _ (hlast _), hsize _ (hlast _)⟩, ⟨hsize _ (htarget _), hsize _ (htarget _)⟩,
    fun need hneed => ?_⟩
  · simp only [Wires.all, List.mem_cons, List.not_mem_nil, or_false] at hx
    obtain rfl | rfl | rfl | rfl | rfl | rfl | rfl := hx
    · exact hresolves _ (hfirst _)
    · exact hresolves _ (hfirst _)
    · exact hresolves _ (hlast _)
    · exact hresolves _ (hlast _)
    · exact hresolves _ (htarget _)
    · exact hresolves _ (htarget _)
    · exact hresolves _ hscratch
  · obtain ⟨j, hj⟩ := List.getElem?_of_mem hneed
    have hzero : j = 0 := by
      have hlt := (List.getElem?_eq_some_iff.mp hj).1
      have hle := node.op.length_scratchElements_le
        [m.shapeOf node.first, m.shapeOf node.last]
      omega
    subst hzero
    obtain ⟨x, hx, t, ht, hle⟩ := forall₂_getElem? (h.scratch node hn).flip hj
    have hhead : node.scratch.head?.getD default = x := by
      rw [List.head?_eq_getElem?, hx, Option.getD_some]
    have hshape : m.shapeOf (node.scratch.head?.getD default) = t.shape := by
      rw [hhead]
      exact shapeOf_eq ht
    exact hle.trans_eq ((hsize _ hscratch).trans (congrArg Shape.elements hshape)).symm

theorem Sized.runs (h : Sized m) (ha : Arranged m auxiliary allocation) (hn : node ∈ m.nodes)
    {step : Nat} {pass : Pass} {r : Request α} (hr : r ∈ (m.requestsOf node step).get pass)
    (hb : c.buffers = m.backend.buffers) (hs : c.device.sizes = m.backend.device.sizes) :
    r.RunsOn c ∧ ∀ x, .buffer x ∈ r.args → c.Resolves x := by
  obtain ⟨hresolves, hholds⟩ := h.wires ha hn step hb hs
  have hruns := (h.fits node hn).runs hholds hr
  obtain ⟨k, -, hk, -⟩ := id hruns
  refine ⟨hruns, fun x hx => hresolves x ?_⟩
  exact (Operator.requestsAt_buffers hr).2 x (Request.mem_footprint hk hx)

theorem Sized.accepted (h : Sized m) (ha : Arranged m auxiliary allocation)
    (registry : ∀ k : HostKernel, m.backend.registry.contains k.name) (hn : node ∈ m.nodes)
    {step : Nat} {pass : Pass} {r : Request α} (hr : r ∈ (m.requestsOf node step).get pass) :
    m.backend.Accepts r := by
  obtain ⟨hresolves, hholds⟩ := h.wires ha hn step rfl rfl
  exact (h.fits node hn).accepted hholds registry hresolves hr

omit [Scalar α] in
theorem atStep_shapes {step : Nat} {a : Tensor} {rest : List Tensor}
    (hin : List.Forall₂ (fun x t => (m.atStep step).tensor x = .ok t) node.inputs (a :: rest)) :
    m.shapeOf node.first = a.shape ∧ m.shapeOf node.last = Operator.secondShape (a :: rest) := by
  have hshape : ∀ x t, (m.atStep step).tensor x = .ok t → m.shapeOf x = t.shape := by
    intro x t ht
    obtain ⟨u, hu, rfl⟩ := atStep_tensor_ok_iff.mp ht
    have hshape := shapeOf_eq hu
    exact hshape
  obtain ⟨x, xs, hx, hxs, hinputs⟩ := List.forall₂_cons_right_iff.mp hin
  rw [Node.first, Node.last, hinputs]
  refine ⟨hshape x a hx, ?_⟩
  cases hxs with
  | nil => exact hshape _ _ hx
  | cons hy _ => exact hshape _ _ hy

theorem Sized.emission (h : Sized m) (ha : Arranged m auxiliary allocation) (hn : node ∈ m.nodes)
    (step : Nat) : ∃ e, (m.atStep step).emission node step = .ok e := by
  have hfit := h.fitted node hn
  have hexists : ∀ x : TensorId, (∃ t, m.tensors[x.index]? = some t) →
      ∃ t, (m.atStep step).tensor x = .ok t := fun x ⟨t, ht⟩ =>
    ⟨_, atStep_tensor_ok_iff.mpr ⟨t, ht, rfl⟩⟩
  obtain ⟨inputs, hin⟩ := exists_forall₂ fun x hx =>
    hexists x ((hfit.inputs x hx).imp fun t ht => ht.1)
  obtain ⟨scratch, hscratch⟩ := exists_forall₂ fun x hx =>
    hexists x ((hfit.scratch x hx).imp fun t ht => ht.1)
  obtain ⟨output, hout⟩ := hexists _ (hfit.output.imp fun t ht => ht.1)
  have hne : inputs ≠ [] := fun hnil => by
    have hlength := hin.length_eq.trans (congrArg List.length hnil)
    rw [hfit.arity] at hlength
    cases hop : node.op <;> simp [hop, Operator.arity] at hlength
  obtain ⟨a, rest, rfl⟩ := List.exists_cons_of_ne_nil hne
  obtain ⟨hfirst, hlast⟩ := atStep_shapes hin
  have hfits := h.fits node hn
  rw [hfirst, hlast] at hfits
  have hscratch' := h.scratch node hn
  rw [hfirst, hlast] at hscratch'
  have hemit := Operator.emit_of_emits (hfit.wired ha h.sequence hin hout hscratch)
    (hin.length_eq ▸ hfit.arity) (hfits.emits fun hneeds hnil => hneeds ?_)
  · unfold Network.emission
    rw [hout]
    simp only [Except.ok_bind]
    split
    · rw [Except.mapM_ok_iff.mpr hin, Except.mapM_ok_iff.mpr hscratch]
      exact ⟨_, hemit⟩
    · exact ⟨_, rfl⟩
  · have hnone : node.scratch = [] := List.length_eq_zero_iff.mp (by rw [hscratch.length_eq, hnil]; rfl)
    rw [hnone] at hscratch'
    exact List.forall₂_nil_left_iff.mp hscratch'

end

/-! ### Batches -/

section

variable {b : Backend α} {n m : Network α} {batch : Nat}

/-- Storage for a batch can be counted, and so can all that a kernel is told. -/
structure Bounded (n : Network α) (batch : Nat) : Prop where
  elements : ∀ t ∈ n.tensors.mapIdx (n.batchTensor batch), t.shape.elements < 2 ^ 31
  storage : ∀ t ∈ n.tensors.mapIdx (n.batchTensor batch),
    n.backend.alignedSlot t.shape.bytes * t.slotCount ≤ sequenceLimit
  operators : ∀ node ∈ n.nodes, node.op.InRange (n.shapeOf node.first) (n.shapeOf node.last)

instance (n : Network α) (batch : Nat) : Decidable (n.Bounded batch) :=
  decidable_of_iff
    ((∀ t ∈ n.tensors.mapIdx (n.batchTensor batch), t.shape.elements < 2 ^ 31) ∧
      (∀ t ∈ n.tensors.mapIdx (n.batchTensor batch),
        n.backend.alignedSlot t.shape.bytes * t.slotCount ≤ sequenceLimit) ∧
      ∀ node ∈ n.nodes, node.op.InRange (n.shapeOf node.first) (n.shapeOf node.last))
    ⟨fun h => ⟨h.1, h.2.1, h.2.2⟩, fun h => ⟨h.1, h.2, h.3⟩⟩

/-- Storage for a batch can be counted. -/
structure Storable (n : Network α) (batch : Nat) : Prop where
  staging : ∀ t ∈ n.tensors.mapIdx (n.batchTensor batch), t.shape.elements * 4 ≤ sequenceLimit
  storage : ∀ t ∈ n.tensors.mapIdx (n.batchTensor batch),
    n.backend.alignedSlot t.shape.bytes * t.slotCount ≤ sequenceLimit

theorem Bounded.storable (h : n.Bounded batch) : n.Storable batch where
  staging t ht := by
    have hlt := h.elements t ht
    unfold sequenceLimit
    omega
  storage := h.storage

instance (n : Network α) (batch : Nat) : Decidable (n.Storable batch) :=
  decidable_of_iff
    ((∀ t ∈ n.tensors.mapIdx (n.batchTensor batch), t.shape.elements * 4 ≤ sequenceLimit) ∧
      ∀ t ∈ n.tensors.mapIdx (n.batchTensor batch),
        n.backend.alignedSlot t.shape.bytes * t.slotCount ≤ sequenceLimit)
    ⟨fun h => ⟨h.1, h.2⟩, fun h => ⟨h.1, h.2⟩⟩

/-- The positions of all windows over a batch can be counted. -/
structure Windowed (n : Network α) (batch : Nat) : Prop where
  operators : ∀ node ∈ n.nodes, node.op.InRange (n.shapeOf node.first) (n.shapeOf node.last)
  elements : ∀ node ∈ n.nodes, node.op.slides = true →
    ∀ t ∈ n.tensors.mapIdx (n.batchTensor batch), t.shape.elements < 2 ^ 31

theorem Bounded.windowed (h : n.Bounded batch) : n.Windowed batch :=
  ⟨h.operators, fun _ _ _ => h.elements⟩

theorem mem_batched {i : Nat} {t : Tensor} (ht : n.tensors[i]? = some t) :
    n.batchTensor batch i t ∈ n.tensors.mapIdx (n.batchTensor batch) :=
  Array.mem_of_getElem? (i := i) (by rw [Array.getElem?_mapIdx, ht]; rfl)

theorem Operator.inRange_withRows {op : Operator α} {a b : Shape} (rows : Nat)
    (h : op.InRange a b) : op.InRange (a.withRows rows) (op.second b rows) := by
  cases op with
  | conv2d pad stride => exact h
  | maxPool pad stride size => exact h
  | _ => trivial

theorem Operator.scratchElements_of_one {op : Operator α} (h : op.arity = 1) (shapes : List Shape) :
    op.scratchElements shapes = [] := by
  cases op <;> simp_all [Operator.arity, Operator.scratchElements]

theorem scratchElements_inputs {op : Operator α} {inputs : List TensorId} {shapes : List Shape}
    (arity : inputs.length = op.arity)
    (h : List.Forall₂ (fun x s => m.shape x = .ok s) inputs shapes) :
    op.scratchElements shapes = op.scratchElements [m.shapeOf (inputs.head?.getD default),
      m.shapeOf ((inputs[1]?.or inputs[0]?).getD default)] := by
  have hshape : ∀ x s, m.shape x = .ok s → m.shapeOf x = s := by
    intro x s hx
    simp only [shape, Except.map_ok_iff, tensor_ok_iff] at hx
    obtain ⟨t, ht, rfl⟩ := hx
    exact shapeOf_eq ht
  by_cases hone : op.arity = 1
  · rw [Operator.scratchElements_of_one hone, Operator.scratchElements_of_one hone]
  · have htwo : inputs.length = 2 := by
      rw [arity]
      cases op <;> simp_all [Operator.arity]
    obtain ⟨x, y, rfl⟩ := List.length_eq_two.mp htwo
    obtain ⟨s, rest, hs, hrest, rfl⟩ := List.forall₂_cons_left_iff.mp h
    obtain ⟨t, rest, ht, hnil, rfl⟩ := List.forall₂_cons_left_iff.mp hrest
    obtain rfl := List.forall₂_nil_left_iff.mp hnil
    simp [hshape x s hs, hshape y t ht]

/-- What fits in a batch is all that a compiled network asks for. -/
theorem Expanded.sized (hn : Sketch b n) (h : Expanded n m batch)
    (fits : ∀ (i : Nat) (node : Node α), n.nodes[i]? = some node →
      node.op.Fits (m.shapeOf node.first) (m.shapeOf node.last) (m.shapeOf node.output)) :
    Sized m := by
  refine ⟨fun i t ht => h.sequence_pos hn.outline ht, fun node hnode => ?_, fun node hnode => ?_,
    fun node hnode => ?_⟩
  · obtain ⟨i, hi⟩ := Array.getElem?_of_mem hnode
    exact h.fitted hn hi
  · obtain ⟨i, hi⟩ := Array.getElem?_of_mem hnode
    obtain ⟨node', hi', hop, hin, hout, -⟩ := h.origin hi
    have hfits := fits i node' hi'
    rwa [Node.first, Node.last, ← hin, ← hop, ← hout] at hfits
  · obtain ⟨i, hi⟩ := Array.getElem?_of_mem hnode
    obtain ⟨node', hi', hop, hin, -, -, -, needs, hneeds, hcov⟩ := h.origin hi
    simp only [nodeScratch, Except.bind_ok_iff, Except.mapM_ok_iff, Except.pure_ok_iff] at hneeds
    obtain ⟨shapes, hs, rfl⟩ := hneeds
    have harity := (h.joined hn.outline hi).arity
    rw [hin] at harity
    rw [hop] at harity ⊢
    rwa [Node.first, Node.last, hin, ← scratchElements_inputs harity hs]

variable {config : NetworkConfig} {allowed : Operator α → Prop}

section

variable (built : Built allowed (Network.new b config) n) (graph : n.OverRows)
  (h : Expanded n m batch) (hbatch : 0 < batch)

include built graph h hbatch

theorem Expanded.shapes {i : Nat} {node : Node α} (hi : n.nodes[i]? = some node) :
    m.shapeOf node.first = (n.shapeOf node.first).withRows batch ∧
      m.shapeOf node.last = node.op.second (n.shapeOf node.last) batch ∧
      m.shapeOf node.output = if node.op.reducesBatch then n.shapeOf node.output
        else (n.shapeOf node.output).withRows batch := by
  have hmem := Array.mem_of_getElem? hi
  obtain ⟨⟨t, ht, hk, hr⟩, u, hu, hk', hr'⟩ := graph.operands built hi
  obtain ⟨v, hv, hkind, -⟩ := (built.owns i node hi).2
  rw [plain_getElem?, Option.map_eq_some_iff] at hv
  obtain ⟨v, hv, rfl⟩ := hv
  rw [h.shapeOf ht, h.shapeOf hu, h.shapeOf hv, built.batchTensor_shape ht hr hbatch,
    built.batchTensor_shape hu hr' hbatch, if_neg hk, shapeOf_eq ht, shapeOf_eq hu, shapeOf_eq hv]
  refine ⟨rfl, ?_, ?_⟩
  · unfold Operator.second
    by_cases htakes : node.op.takesParameter = true
    · rw [if_pos htakes, if_pos (hk'.mpr htakes)]
    · rw [if_neg htakes, if_neg (mt hk'.mp htakes)]
  · cases hop : node.op.reducesBatch with
    | true =>
      have hmem' : (⟨node.output.index⟩ : TensorId) ∈ n.reducedOutputs :=
        List.mem_map.mpr ⟨node, List.mem_filter.mpr ⟨Array.mem_toList_iff.mpr hmem, hop⟩, rfl⟩
      rw [batchTensor, if_pos hmem', if_pos rfl]
    | false =>
      rw [built.batchTensor_shape hv (built.not_reduced hmem hop) hbatch,
        if_neg (by rw [show v.kind = _ from hkind]; decide)]
      rfl

theorem Expanded.fits (windowed : n.Windowed batch) {i : Nat} {node : Node α}
    (hi : n.nodes[i]? = some node) : node.op.Fits (m.shapeOf node.first) (m.shapeOf node.last)
      (m.shapeOf node.output) := by
  have hmem := Array.mem_of_getElem? hi
  obtain ⟨hshape, ha, hb, hposa, hposb⟩ := graph.accepts built hmem
  obtain ⟨⟨t, ht, -⟩, u, hu, -⟩ := graph.operands built hi
  obtain ⟨hfirst, hlast, hout⟩ := h.shapes built graph hbatch hi
  refine ⟨?_, ⟨?_, ?_⟩, fun slides => ?_, ?_⟩
  · rw [hfirst, hlast, hout]
    exact Operator.shapeOf_withRows hshape ha hb batch
  · rw [hfirst, Shape.elements_withRows ha]
    exact Nat.mul_pos hposa hbatch
  · rw [hlast]
    unfold Operator.second
    split
    · exact hposb
    · next htakes =>
      rw [Shape.elements_withRows (hb (by simpa using htakes))]
      exact Nat.mul_pos hposb hbatch
  · have hwindow := windowed.elements node hmem slides
    rw [h.shapeOf ht, h.shapeOf hu]
    exact ⟨hwindow _ (mem_batched ht), hwindow _ (mem_batched hu)⟩
  · rw [hfirst, hlast]
    exact Operator.inRange_withRows batch (windowed.operators node hmem)

theorem Built.sized (windowed : n.Windowed batch) : Sized m :=
  h.sized built.sketch fun _ _ hi => h.fits built graph hbatch windowed hi

end

end

end Network

end Backprop
