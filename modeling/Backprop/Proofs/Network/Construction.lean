import Mathlib
import Backprop.Model.GatedUnit
import Backprop.Proofs.Call

/-! What the calls that build a network do to it, exactly; a call that fails does nothing. -/

namespace Backprop

variable {α : Type}

/-- A tensor without what a network notes on it for others to read. -/
def Tensor.plain (t : Tensor) : Tensor :=
  { t with name := none, producer := none, consumers := [] }

namespace Network

def plain (n : Network α) : Array Tensor := n.tensors.map Tensor.plain

theorem plain_getElem? (n : Network α) (i : Nat) :
    n.plain[i]? = n.tensors[i]?.map Tensor.plain := by
  rw [plain, Array.getElem?_map]

theorem map_plain_modify {ts : Array Tensor} {i : Nat} {f : Tensor → Tensor}
    (h : ∀ t, (f t).plain = t.plain) : (ts.modify i f).map Tensor.plain = ts.map Tensor.plain := by
  refine Array.ext_getElem? fun j => ?_
  simp only [Array.getElem?_map, Array.getElem?_modify]
  split
  · cases ts[j]? <;> simp [h]
  · rfl

theorem map_plain_modify_offset {ts : Array Tensor} {i k : Nat} {f : Tensor → Tensor}
    (h : ∀ t, (f t).plain = { t.plain with timeOffset := k }) :
    (ts.modify i f).map Tensor.plain =
      (ts.map Tensor.plain).modify i ({ · with timeOffset := k }) := by
  refine Array.ext_getElem? fun j => ?_
  simp only [Array.getElem?_map, Array.getElem?_modify]
  split
  · cases ts[j]? <;> simp [h]
  · rfl

theorem map_plain_push_offset (ts : Array Tensor) (t : Tensor) (k : Nat) :
    ((ts.push t).map Tensor.plain).modify ts.size ({ · with timeOffset := k }) =
      (ts.map Tensor.plain).push { t.plain with timeOffset := k } := by
  refine Array.ext_getElem? fun i => ?_
  simp only [Array.map_push, Array.getElem?_modify, Array.getElem?_push, Array.size_map]
  by_cases hi : ts.size = i
  · simp [hi]
  · simp [hi, Ne.symm hi]

theorem plain_withConsumer (t : Tensor) (op : OperatorId) :
    (t.withConsumer op).plain = t.plain := by
  unfold Tensor.withConsumer
  split <;> rfl

theorem requireBuilding_ok_iff {n n' : Network α} {u : PUnit} :
    requireBuilding n = .ok u n' ↔ n.stage = .building ∧ n = n' := by
  unfold requireBuilding
  rw [Call.get_bind_ok_iff]
  by_cases h : n.stage = .building
  · simp [h, Call.pure_ok_iff]
  · simp [h, Call.throw_ok_iff]

theorem create_ok_iff {n n' : Network α} {kind : TensorKind} {shape : Shape} {sequence : Nat}
    {id : TensorId} : create kind shape sequence n = .ok id n' ↔
      n.stage = .building ∧ shape.elements ≠ 0 ∧ id = ⟨n.tensors.size⟩ ∧
        n' = { n with
          tensors := n.tensors.push (Tensor.ofKind kind shape sequence)
          maxSequence := max n.maxSequence (max sequence 1) } := by
  unfold create
  simp only [Call.bind_ok_iff, Call.get_ok_iff, Call.throw_ite_ok_iff, Call.pure_ok_iff,
    Call.set_ok_iff, requireBuilding_ok_iff]
  constructor
  · rintro ⟨_, _, ⟨hb, rfl⟩, he, _, _, ⟨rfl, rfl⟩, _, _, rfl, rfl, rfl⟩
    exact ⟨hb, he, rfl, rfl⟩
  · rintro ⟨hb, he, rfl, rfl⟩
    exact ⟨⟨⟩, _, ⟨hb, rfl⟩, he, _, _, ⟨rfl, rfl⟩, ⟨⟩, _, rfl, rfl, rfl⟩

theorem link_eq (n : Network α) (op : Operator α) (inputs : List TensorId) (output : TensorId)
    (timeOffset : Nat) :
    link op inputs output timeOffset n = .ok ⟨⟩ { n with
      tensors := (inputs.foldl (fun ts x => ts.modify x.index (·.withConsumer ⟨n.nodes.size⟩))
        n.tensors).modify output.index
          (fun t => Tensor.withProducer { t with timeOffset } ⟨n.nodes.size⟩)
      nodes := n.nodes.push { op, inputs, output, timeOffset } } := by
  have hinputs : ∀ (l : List TensorId) (m : Network α),
      l.forM (fun input => modifyTensor input (·.withConsumer ⟨n.nodes.size⟩)) m = .ok ⟨⟩ { m with
        tensors := l.foldl (fun ts x => ts.modify x.index (·.withConsumer ⟨n.nodes.size⟩))
          m.tensors } := by
    intro l
    induction l with
    | nil => exact fun m => Call.forM_nil_ok_iff.mpr rfl
    | cons x l ih =>
      exact fun m => Call.forM_cons_ok_iff.mpr ⟨_, Call.modify_ok_iff.mpr rfl, ih _⟩
  exact Call.bind_ok_iff.mpr ⟨n, n, Call.get_ok_iff.mpr ⟨rfl, rfl⟩, Call.bind_ok_iff.mpr
    ⟨⟨⟩, _, hinputs inputs n, Call.bind_ok_iff.mpr ⟨⟨⟩, _, Call.modify_ok_iff.mpr rfl,
      Call.modify_ok_iff.mpr rfl⟩⟩⟩

theorem link_ok {n : Network α} (op : Operator α) (inputs : List TensorId) (output : TensorId)
    (timeOffset : Nat) :
    ∃ ts, link op inputs output timeOffset n = .ok ⟨⟩
        { n with tensors := ts, nodes := n.nodes.push { op, inputs, output, timeOffset } } ∧
      ts.map Tensor.plain = n.plain.modify output.index ({ · with timeOffset }) := by
  have hinputs : ∀ (l : List TensorId) (ts : Array Tensor),
      (l.foldl (fun ts x => ts.modify x.index (·.withConsumer ⟨n.nodes.size⟩)) ts).map
        Tensor.plain = ts.map Tensor.plain := by
    intro l
    induction l with
    | nil => exact fun _ => rfl
    | cons x l ih =>
      exact fun ts => (ih _).trans (map_plain_modify fun t => plain_withConsumer t _)
  refine ⟨_, link_eq n op inputs output timeOffset, ?_⟩
  rw [map_plain_modify_offset (k := timeOffset) fun t => rfl, hinputs]
  rfl

/-- What an operator needs of its inputs, and the shape it then has. -/
def Takes (ts : Array Tensor) (op : Operator α) (inputs : List TensorId) (shape : Shape) : Prop :=
  ∃ shapes, List.Forall₂ (fun id s => ∃ t, ts[id.index]? = some t ∧ t.shape = s) inputs shapes ∧
    op.outputShape shapes = .ok shape

theorem outputShape_arity {op : Operator α} {shapes : List Shape} {shape : Shape}
    (h : op.outputShape shapes = .ok shape) : shapes.length = op.arity := by
  by_contra hne
  simp only [Operator.outputShape, ne_eq, hne, not_false_eq_true, if_true, reduceCtorEq] at h

theorem Takes.arity {ts : Array Tensor} {op : Operator α} {inputs : List TensorId} {shape : Shape}
    (h : Takes ts op inputs shape) : inputs.length = op.arity := by
  obtain ⟨shapes, hs, ho⟩ := h
  rw [hs.length_eq, outputShape_arity ho]

theorem tensor_ok_iff {n : Network α} {id : TensorId} {t : Tensor} :
    n.tensor id = .ok t ↔ n.tensors[id.index]? = some t := by
  unfold tensor
  cases n.tensors[id.index]? <;> simp

theorem shape_ok_iff {n : Network α} {id : TensorId} {s : Shape} :
    n.shape id = .ok s ↔ ∃ t, n.plain[id.index]? = some t ∧ t.shape = s := by
  simp only [shape, Except.map_ok_iff, tensor_ok_iff, plain_getElem?, Option.map_eq_some_iff]
  constructor
  · rintro ⟨t, ht, rfl⟩
    exact ⟨_, ⟨t, ht, rfl⟩, rfl⟩
  · rintro ⟨_, ⟨t, ht, rfl⟩, rfl⟩
    exact ⟨t, ht, rfl⟩

theorem outputShape_ok_iff {n : Network α} {op : Operator α} {inputs : List TensorId}
    {shape : Shape} : n.outputShape op inputs = .ok shape ↔ Takes n.plain op inputs shape := by
  simp only [outputShape, Except.bind_ok_iff, Except.mapM_ok_iff, shape_ok_iff, Takes]

theorem addOperator_ok_iff {n n' : Network α} {op : Operator α} {inputs : List TensorId}
    {timeOffset : Nat} {id : TensorId} :
    addOperator op inputs timeOffset n = .ok id n' ↔ ∃ shape bound n₁,
      Takes n.plain op inputs shape ∧ List.Forall₂ (fun x t => n.tensor x = .ok t) inputs bound ∧
        create .intermediate shape (op.sequenceLength bound) n = .ok id n₁ ∧
        link op inputs id timeOffset n₁ = .ok ⟨⟩ n' := by
  unfold addOperator
  simp only [Call.bind_ok_iff, Call.get_ok_iff, Call.pure_ok_iff, Call.ofExcept_ok_iff,
    requireBuilding_ok_iff, outputShape_ok_iff, Except.mapM_ok_iff]
  constructor
  · rintro ⟨_, _, ⟨-, rfl⟩, _, _, ⟨rfl, rfl⟩, shape, _, ⟨hs, rfl⟩, bound, _, ⟨hbound, rfl⟩, _, n₁,
      hcreate, _, _, hlink, rfl, rfl⟩
    exact ⟨shape, bound, n₁, hs, hbound, hcreate, hlink⟩
  · rintro ⟨shape, bound, n₁, hs, hbound, hcreate, hlink⟩
    exact ⟨⟨⟩, n, ⟨(create_ok_iff.mp hcreate).1, rfl⟩, n, n, ⟨rfl, rfl⟩, shape, n, ⟨hs, rfl⟩, bound,
      n, ⟨hbound, rfl⟩, id, n₁, hcreate, ⟨⟩, n', hlink, rfl, rfl⟩

theorem addOperator_ok {n n' : Network α} {op : Operator α} {inputs : List TensorId}
    {timeOffset : Nat} {id : TensorId} (h : addOperator op inputs timeOffset n = .ok id n') :
    n.stage = .building ∧ id = ⟨n.tensors.size⟩ ∧
      ∃ ts shape sequence, Takes n.plain op inputs shape ∧ shape.elements ≠ 0 ∧
        ts.map Tensor.plain =
          n.plain.push { Tensor.ofKind .intermediate shape sequence with timeOffset } ∧
        n' = { n with
          tensors := ts
          nodes := n.nodes.push { op, inputs, output := id, timeOffset }
          maxSequence := max n.maxSequence (max sequence 1) } := by
  obtain ⟨shape, bound, n₁, hs, -, hcreate, hl⟩ := addOperator_ok_iff.mp h
  obtain ⟨hb, he, rfl, rfl⟩ := create_ok_iff.mp hcreate
  obtain ⟨ts, hts, hp⟩ := link_ok (n := { n with
    tensors := n.tensors.push (Tensor.ofKind .intermediate shape (op.sequenceLength bound))
    maxSequence := max n.maxSequence (max (op.sequenceLength bound) 1) })
    op inputs ⟨n.tensors.size⟩ timeOffset
  rw [hts] at hl
  cases hl
  exact ⟨hb, rfl, ts, shape, op.sequenceLength bound, hs, he,
    hp.trans (map_plain_push_offset n.tensors _ timeOffset), rfl⟩

theorem addOperatorInto_ok_iff {n n' : Network α} {op : Operator α} {inputs : List TensorId}
    {result id : TensorId} {timeOffset : Nat} :
    addOperatorInto op inputs result timeOffset n = .ok id n' ↔
      n.stage = .building ∧ id = result ∧
        (∃ shape target, Takes n.plain op inputs shape ∧ n.plain[result.index]? = some target ∧
          shape.rowElements = target.shape.rowElements) ∧
        link op inputs result timeOffset n = .ok ⟨⟩ n' := by
  unfold addOperatorInto
  simp only [Call.bind_ok_iff, Call.get_ok_iff, Call.pure_ok_iff, Call.ofExcept_ok_iff,
    Call.throw_ite_ok_iff, requireBuilding_ok_iff, outputShape_ok_iff, shape_ok_iff]
  constructor
  · rintro ⟨_, _, ⟨hb, rfl⟩, _, _, ⟨rfl, rfl⟩, shape, _, ⟨hs, rfl⟩, _, _, ⟨⟨t, ht, rfl⟩, rfl⟩, hr,
      _, _, hl, rfl, rfl⟩
    exact ⟨hb, rfl, ⟨shape, t, hs, ht, not_not.mp hr⟩, hl⟩
  · rintro ⟨hb, rfl, ⟨shape, t, hs, ht, hr⟩, hl⟩
    exact ⟨⟨⟩, n, ⟨hb, rfl⟩, n, n, ⟨rfl, rfl⟩, shape, n, ⟨hs, rfl⟩, _, n, ⟨⟨t, ht, rfl⟩, rfl⟩,
      not_not.mpr hr, ⟨⟩, n', hl, rfl, rfl⟩

theorem addOperatorInto_ok {n n' : Network α} {op : Operator α} {inputs : List TensorId}
    {result id : TensorId} {timeOffset : Nat}
    (h : addOperatorInto op inputs result timeOffset n = .ok id n') :
    n.stage = .building ∧ id = result ∧
      ∃ ts shape target, Takes n.plain op inputs shape ∧ n.plain[result.index]? = some target ∧
        shape.rowElements = target.shape.rowElements ∧
        ts.map Tensor.plain = n.plain.modify result.index ({ · with timeOffset }) ∧
        n' = { n with
          tensors := ts
          nodes := n.nodes.push { op, inputs, output := result, timeOffset } } := by
  obtain ⟨hb, rfl, ⟨shape, t, hs, ht, hr⟩, hl⟩ := addOperatorInto_ok_iff.mp h
  obtain ⟨ts, hts, hp⟩ := link_ok (n := n) op inputs id timeOffset
  rw [hts] at hl
  cases hl
  exact ⟨hb, rfl, ts, shape, t, hs, ht, hr, hp, rfl⟩

theorem sequenceLength_plain (op : Operator α) (bound : List Tensor) :
    op.sequenceLength (bound.map Tensor.plain) = op.sequenceLength bound := by
  have hlongest : ∀ (l : List Tensor) (k : Nat),
      (l.map Tensor.plain).foldl (fun longest t => max longest (t.sequence + t.timeOffset)) k =
        l.foldl (fun longest t => max longest (t.sequence + t.timeOffset)) k := by
    intro l
    induction l with
    | nil => exact fun _ => rfl
    | cons t l ih => exact fun k => ih _
  cases op with
  | split tileX tileY =>
    cases bound with
    | nil => rfl
    | cons a rest => rfl
  | _ => exact hlongest bound 1

theorem addOperator_succeeds {n : Network α} {op : Operator α} {inputs : List TensorId}
    {bound : List Tensor} {shape : Shape} (timeOffset : Nat) (building : n.stage = .building)
    (operands : List.Forall₂ (fun x t => n.plain[x.index]? = some t) inputs bound)
    (fits : op.outputShape (bound.map (·.shape)) = .ok shape) (pos : shape.elements ≠ 0) :
    ∃ n', addOperator op inputs timeOffset n = .ok ⟨n.tensors.size⟩ n' ∧ n'.plain =
      n.plain.push
        { Tensor.ofKind .intermediate shape (op.sequenceLength bound) with timeOffset } := by
  have hbound : ∃ ts, List.Forall₂ (fun x t => n.tensor x = .ok t) inputs ts ∧
      bound = ts.map Tensor.plain := by
    clear fits pos
    induction operands with
    | nil => exact ⟨[], .nil, rfl⟩
    | cons ht _ ih =>
      obtain ⟨ts, hts, rfl⟩ := ih
      rw [plain_getElem?, Option.map_eq_some_iff] at ht
      obtain ⟨t, ht, rfl⟩ := ht
      exact ⟨t :: ts, .cons (tensor_ok_iff.mpr ht) hts, rfl⟩
  obtain ⟨ts, hts, rfl⟩ := hbound
  have htakes : Takes n.plain op inputs shape :=
    ⟨_, List.forall₂_map_right_iff.mpr (operands.imp fun _ _ h => ⟨_, h, rfl⟩), fits⟩
  rw [sequenceLength_plain]
  obtain ⟨us, hus, hp⟩ := link_ok (n := { n with
    tensors := n.tensors.push (Tensor.ofKind .intermediate shape (op.sequenceLength ts))
    maxSequence := max n.maxSequence (max (op.sequenceLength ts) 1) })
    op inputs ⟨n.tensors.size⟩ timeOffset
  refine ⟨{ n with
    tensors := us
    nodes := n.nodes.push { op, inputs, output := ⟨n.tensors.size⟩, timeOffset }
    maxSequence := max n.maxSequence (max (op.sequenceLength ts) 1) }, ?_,
    hp.trans (map_plain_push_offset n.tensors _ timeOffset)⟩
  exact addOperator_ok_iff.mpr ⟨shape, ts, _, htakes, hts,
    create_ok_iff.mpr ⟨building, pos, rfl, rfl⟩, hus⟩

theorem addOperatorInto_succeeds {n : Network α} {op : Operator α} {inputs : List TensorId}
    {result : TensorId} {shape : Shape} {target : Tensor} (timeOffset : Nat)
    (building : n.stage = .building) (takes : Takes n.plain op inputs shape)
    (there : n.plain[result.index]? = some target)
    (rows : shape.rowElements = target.shape.rowElements) :
    ∃ n', addOperatorInto op inputs result timeOffset n = .ok result n' := by
  obtain ⟨ts, hts, -⟩ := link_ok (n := n) op inputs result timeOffset
  refine ⟨{ n with
    tensors := ts
    nodes := n.nodes.push { op, inputs, output := result, timeOffset } }, ?_⟩
  exact addOperatorInto_ok_iff.mpr ⟨building, rfl, ⟨shape, target, takes, there, rows⟩, hts⟩

theorem requireBuilding_error {n n' : Network α} {e : Error}
    (h : requireBuilding n = .error e n') : n = n' := by
  unfold requireBuilding at h
  rw [Call.bind_error_iff] at h
  obtain h | ⟨m, _, hm, h⟩ := h
  · exact (Call.get_error_iff.mp h).elim
  · obtain ⟨rfl, rfl⟩ := Call.get_ok_iff.mp hm
    split at h
    · exact (Call.throw_error_iff.mp h).2
    · exact (Call.pure_error_iff.mp h).elim

theorem create_error {n n' : Network α} {kind : TensorKind} {shape : Shape} {sequence : Nat}
    {e : Error} (h : create kind shape sequence n = .error e n') : n = n' := by
  unfold create at h
  simp only [Call.bind_error_iff, Call.throw_ite_error_iff, Call.get_error_iff,
    Call.set_error_iff, Call.pure_error_iff, requireBuilding_ok_iff, and_false, exists_false,
    or_false] at h
  obtain h | ⟨_, _, ⟨-, rfl⟩, -, -, rfl⟩ := h
  · exact requireBuilding_error h
  · rfl

theorem addOperator_error {n n' : Network α} {op : Operator α} {inputs : List TensorId}
    {timeOffset : Nat} {e : Error} (h : addOperator op inputs timeOffset n = .error e n') :
    n = n' := by
  unfold addOperator at h
  simp only [Call.bind_error_iff, Call.get_error_iff, Call.get_ok_iff, Call.pure_error_iff,
    Call.ofExcept_ok_iff, Call.ofExcept_error_iff, requireBuilding_ok_iff, and_false,
    exists_false, or_false, false_or] at h
  obtain h | ⟨_, _, ⟨-, rfl⟩, _, _, ⟨rfl, rfl⟩, ⟨-, rfl⟩ | ⟨shape, _, ⟨-, rfl⟩, ⟨-, rfl⟩ |
    ⟨bound, _, ⟨-, rfl⟩, h | ⟨id, m, -, h⟩⟩⟩⟩ := h
  · exact requireBuilding_error h
  · rfl
  · rfl
  · exact create_error h
  · obtain ⟨ts, hts, -⟩ := link_ok (n := m) op inputs id timeOffset
    rw [hts] at h
    cases h

theorem addOperatorInto_error {n n' : Network α} {op : Operator α} {inputs : List TensorId}
    {result : TensorId} {timeOffset : Nat} {e : Error}
    (h : addOperatorInto op inputs result timeOffset n = .error e n') : n = n' := by
  unfold addOperatorInto at h
  simp only [Call.bind_error_iff, Call.get_error_iff, Call.get_ok_iff, Call.pure_error_iff,
    Call.throw_ite_error_iff, Call.ofExcept_ok_iff, Call.ofExcept_error_iff,
    requireBuilding_ok_iff, and_false, exists_false, or_false, false_or] at h
  obtain h | ⟨_, _, ⟨-, rfl⟩, _, _, ⟨rfl, rfl⟩, ⟨-, rfl⟩ | ⟨shape, _, ⟨-, rfl⟩, ⟨-, rfl⟩ |
    ⟨target, _, ⟨-, rfl⟩, ⟨-, -, rfl⟩ | ⟨-, h⟩⟩⟩⟩ := h
  · exact requireBuilding_error h
  · rfl
  · rfl
  · rfl
  · obtain ⟨ts, hts, -⟩ := link_ok (n := n) op inputs result timeOffset
    rw [hts] at h
    cases h

/-! ### Names, rules and first values -/

def IsParameter (ts : Array Tensor) (id : TensorId) : Prop :=
  ∃ t, ts[id.index]? = some t ∧ t.kind = .parameter

/-- Networks that differ in their notes, in the rule, and in the first values of parameters. -/
def SameGraph (n n' : Network α) : Prop :=
  ∃ tensors optimizer initializers, tensors.map Tensor.plain = n.plain ∧
    (∀ p ∈ initializers, p ∈ n.initializers ∨ IsParameter n.plain p.1) ∧
    n' = { n with tensors, optimizer, initializers }

theorem SameGraph.refl (n : Network α) : n.SameGraph n :=
  ⟨n.tensors, n.optimizer, n.initializers, rfl, fun _ => .inl, rfl⟩

theorem nameTensor_error {n n' : Network α} {id : TensorId} {name : String} {e : Error}
    (h : nameTensor id name n = .error e n') : n = n' := by
  unfold nameTensor at h
  simp only [Call.discard_eq, Call.bind_error_iff, Call.get_error_iff, Call.get_ok_iff,
    Call.throw_ite_error_iff, Call.ofExcept_error_iff, Call.pure_error_iff, modifyTensor,
    Call.modify_error_iff, and_false, exists_false, or_false, false_or] at h
  obtain ⟨-, -, rfl⟩ | ⟨-, _, _, ⟨rfl, rfl⟩, -, rfl⟩ := h
  · rfl
  · rfl

theorem nameTensor_ok {n n' : Network α} {id : TensorId} {name : String} {u : PUnit}
    (h : nameTensor id name n = .ok u n') :
    n' = { n with tensors := n.tensors.modify id.index ({ · with name := some name }) } := by
  unfold nameTensor at h
  simp only [Call.discard_eq, Call.throw_ite_ok_iff, Call.bind_ok_iff, Call.get_ok_iff,
    Call.ofExcept_ok_iff, Call.pure_ok_iff, modifyTensor, Call.modify_ok_iff] at h
  obtain ⟨-, _, _, ⟨rfl, rfl⟩, _, _, ⟨t, _, ⟨-, rfl⟩, -, rfl⟩, rfl⟩ := h
  rfl

theorem nameTensor_same (n : Network α) (id : TensorId) (name : String) :
    n.SameGraph (Call.after (nameTensor id name) n) := by
  refine Call.after_induct (.refl n) (fun e m h => nameTensor_error h) fun b m h => ?_
  rw [nameTensor_ok h]
  exact ⟨n.tensors.modify id.index ({ · with name := some name }), n.optimizer, n.initializers,
    map_plain_modify fun _ => rfl, fun _ => .inl, rfl⟩

theorem setOptimizer_error {n n' : Network α} {o : Optimizer α} {e : Error}
    (h : setOptimizer o n = .error e n') : n = n' := by
  unfold setOptimizer at h
  simp only [Call.bind_error_iff, Call.modify_error_iff, and_false, exists_false, or_false] at h
  exact requireBuilding_error h

theorem setOptimizer_ok {n n' : Network α} {o : Optimizer α} {u : PUnit}
    (h : setOptimizer o n = .ok u n') : n' = { n with optimizer := some o } := by
  unfold setOptimizer at h
  simp only [Call.bind_ok_iff, requireBuilding_ok_iff, Call.modify_ok_iff] at h
  obtain ⟨_, _, ⟨-, rfl⟩, rfl⟩ := h
  rfl

theorem setOptimizer_same (n : Network α) (o : Optimizer α) :
    n.SameGraph (Call.after (setOptimizer o) n) := by
  refine Call.after_induct (.refl n) (fun e m h => setOptimizer_error h) fun b m h => ?_
  rw [setOptimizer_ok h]
  exact ⟨n.tensors, some o, n.initializers, rfl, fun _ => .inl, rfl⟩

theorem initWeight_error {n n' : Network α} {target : TensorId} {init : Initializer} {e : Error}
    (h : initWeight target init n = .error e n') : n = n' := by
  unfold initWeight at h
  simp only [Call.bind_error_iff, Call.get_error_iff, Call.get_ok_iff, Call.modify_error_iff,
    Call.throw_ite_error_iff, Call.ofExcept_ok_iff, Call.ofExcept_error_iff,
    requireBuilding_ok_iff, and_false, or_false, false_or] at h
  obtain h | ⟨_, _, ⟨-, rfl⟩, _, _, ⟨rfl, rfl⟩, ⟨-, rfl⟩ | ⟨t, _, ⟨-, rfl⟩, -, -, rfl⟩⟩ := h
  · exact requireBuilding_error h
  · rfl
  · rfl

theorem initWeight_ok {n n' : Network α} {target : TensorId} {init : Initializer} {u : PUnit}
    (h : initWeight target init n = .ok u n') :
    IsParameter n.plain target ∧
      n' = { n with initializers := n.initializers ++ [(target, init)] } := by
  unfold initWeight at h
  simp only [Call.bind_ok_iff, Call.get_ok_iff, Call.modify_ok_iff, Call.throw_ite_ok_iff,
    Call.ofExcept_ok_iff, requireBuilding_ok_iff, tensor_ok_iff, not_not] at h
  obtain ⟨_, _, ⟨-, rfl⟩, _, _, ⟨rfl, rfl⟩, t, _, ⟨ht, rfl⟩, hkind, rfl⟩ := h
  exact ⟨⟨t.plain, by rw [plain_getElem?, ht]; rfl, hkind⟩, rfl⟩

theorem initWeight_same (n : Network α) (target : TensorId) (init : Initializer) :
    n.SameGraph (Call.after (initWeight target init) n) := by
  refine Call.after_induct (.refl n) (fun e m h => initWeight_error h) fun b m h => ?_
  obtain ⟨hparameter, rfl⟩ := initWeight_ok h
  refine ⟨n.tensors, n.optimizer, n.initializers ++ [(target, init)], rfl, fun p hp => ?_, rfl⟩
  obtain hp | hp := List.mem_append.mp hp
  · exact .inl hp
  · rw [List.mem_singleton.mp hp]
    exact .inr hparameter

end Network

end Backprop
