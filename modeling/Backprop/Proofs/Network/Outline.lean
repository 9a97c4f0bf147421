import Mathlib
import Backprop.Proofs.Network.Building

/-! Networks as any calls build them, also with operators that write tensors which others write
or read. Not much is known of such a network, but enough to compile it. -/

namespace Backprop.Network

variable {α : Type}

/-- An operator has as many operands as it takes, and its tensors are there. -/
def Joins (ts : Array Tensor) (node : Node α) : Prop :=
  node.inputs.length = node.op.arity ∧ (∀ x ∈ node.inputs, x.index < ts.size) ∧
    node.output.index < ts.size

/-- A network on an untouched backend, before compilation. -/
structure Outline (b : Backend α) (n : Network α) : Prop where
  backend : n.backend = b
  tensors : ∀ (i : Nat) (t : Tensor), n.plain[i]? = some t →
    t.Sound ∧ t.kind ≠ .scratch ∧ t.sequence ≤ n.maxSequence
  joins : ∀ (i : Nat) (node : Node α), n.nodes[i]? = some node → Joins n.plain node
  initializers : ∀ p ∈ n.initializers, IsParameter n.plain p.1

variable {b : Backend α} {config : NetworkConfig} {n n' : Network α}

theorem Joins.mono {ts ts' : Array Tensor} {node : Node α} (h : Joins ts node)
    (hs : ts.size ≤ ts'.size) : Joins ts' node :=
  ⟨h.1, fun x hx => (h.2.1 x hx).trans_le hs, h.2.2.trans_le hs⟩

theorem Sketch.outline (h : Sketch b n) : Outline b n where
  backend := h.backend
  tensors i t ht := ⟨(h.tensors i t ht).sound, (h.tensors i t ht).kind, (h.tensors i t ht).longest⟩
  joins i node hi := by
    have hw := h.writes i node hi
    refine ⟨?_, fun x hx => hw.inputs_lt hx, hw.output_lt⟩
    obtain ⟨t, -, -, -, ht⟩ | ⟨t, shape, -, -, -, -, -, ht, -⟩ := hw
    · exact ht.arity
    · exact ht.arity
  initializers := h.initializers

theorem Outline.new (b : Backend α) (config : NetworkConfig) :
    Outline { b with validation := config.validate } (Network.new b config) :=
  (Sketch.new b config).outline

theorem Outline.same (h : Outline b n) (hs : n.SameGraph n') : Outline b n' := by
  obtain ⟨ts, o, inits, hp, hinits, rfl⟩ := hs
  have hplain : Network.plain { n with tensors := ts, optimizer := o, initializers := inits } =
      n.plain := hp
  exact
    { backend := h.backend
      tensors := fun i t ht => h.tensors i t (hplain ▸ ht)
      joins := fun i node hi => hplain.symm ▸ h.joins i node hi
      initializers := fun p hp => hplain ▸ (hinits p hp).elim (h.initializers p) id }

theorem Outline.extend (h : Outline b n) (hbackend : n'.backend = n.backend)
    (hinits : n'.initializers = n.initializers) (hnodes : n'.nodes = n.nodes)
    (hlong : n.maxSequence ≤ n'.maxSequence) (hsize : n.plain.size ≤ n'.plain.size)
    (hts : ∀ (i : Nat) (t : Tensor), n'.plain[i]? = some t →
      (∃ k, n.plain[i]? = some { t with timeOffset := k }) ∨
        n.plain.size ≤ i ∧ t.Sound ∧ t.kind ≠ .scratch ∧ t.sequence ≤ n'.maxSequence) :
    Outline b n' := by
  refine
    { backend := hbackend.trans h.backend
      tensors := fun i t ht => ?_
      joins := fun i node hi => (h.joins i node (hnodes ▸ hi)).mono hsize
      initializers := fun p hp => ?_ }
  · obtain ⟨k, hk⟩ | ⟨-, ht⟩ := hts i t ht
    · obtain ⟨hsound, hkind, hle⟩ := h.tensors i _ hk
      exact ⟨⟨hsound.sequence, hsound.cursor, hsound.elements, hsound.bare⟩, hkind,
        hle.trans hlong⟩
    · exact ht
  · obtain ⟨t, ht, hkind⟩ := h.initializers p (hinits ▸ hp)
    have hlt := (Array.getElem?_eq_some_iff.mp ht).1
    have hlt' := hlt.trans_le hsize
    obtain ⟨k, hk⟩ | ⟨hle, -⟩ := hts p.1.index _ (Array.getElem?_eq_getElem hlt')
    · rw [ht, Option.some.injEq] at hk
      refine ⟨_, Array.getElem?_eq_getElem hlt', ?_⟩
      rw [hk] at hkind
      exact hkind
    · omega

theorem Outline.register {node : Node α} (h : Outline b n) (hj : Joins n.plain node) :
    Outline b { n with nodes := n.nodes.push node } where
  backend := h.backend
  tensors := h.tensors
  initializers := h.initializers
  joins i a ha := by
    simp only [Array.getElem?_push] at ha
    split at ha
    · cases ha
      exact hj
    · exact h.joins i a ha

theorem Outline.create {kind : TensorKind} {shape : Shape} {sequence : Nat} (h : Outline b n)
    (hk : kind ≠ .scratch) : Outline b (Call.after (Network.create kind shape sequence) n) := by
  refine Call.after_induct h (fun e m he => create_error he) fun id m hm => ?_
  obtain ⟨-, he, -, rfl⟩ := create_ok_iff.mp hm
  refine h.extend rfl rfl rfl (Nat.le_max_left _ _) (by simp [plain]) fun i t ht => ?_
  simp only [plain, Array.map_push, Array.getElem?_push] at ht
  split at ht
  · next hi =>
    cases ht
    have hd : Drafted (max n.maxSequence (max sequence 1)) { Tensor.ofKind kind shape sequence with
        timeOffset := 0 } := ofKind_drafted he (Nat.le_max_right _ _) hk fun _ => rfl
    exact .inr ⟨hi.ge, hd.sound, hd.kind, hd.longest⟩
  · exact .inl ⟨t.timeOffset, ht⟩

theorem Outline.addOperator {op : Operator α} {inputs : List TensorId} {k : Nat}
    (h : Outline b n) : Outline b (Call.after (Network.addOperator op inputs k) n) := by
  refine Call.after_induct h (fun e m he => addOperator_error he) fun id m hm => ?_
  obtain ⟨-, rfl, ts, shape, sequence, htakes, he, hp, rfl⟩ := Network.addOperator_ok hm
  have hsize : n.plain.size = n.tensors.size := by simp [plain]
  have hplain : Network.plain { n with
      tensors := ts, maxSequence := max n.maxSequence (max sequence 1) } =
      n.plain.push { Tensor.ofKind .intermediate shape sequence with timeOffset := k } := hp
  have hgrown : Outline b { n with
      tensors := ts
      maxSequence := max n.maxSequence (max sequence 1) } := by
    refine h.extend rfl rfl rfl (Nat.le_max_left _ _) (by rw [hplain]; simp) fun i t ht => ?_
    rw [hplain, Array.getElem?_push] at ht
    split at ht
    · next hi =>
      cases ht
      have hd : Drafted (max n.maxSequence (max sequence 1)) { Tensor.ofKind .intermediate shape
          sequence with timeOffset := k } :=
        ofKind_drafted he (Nat.le_max_right _ _) (by decide) fun hne => absurd rfl hne
      exact .inr ⟨hi.ge, hd.sound, hd.kind, hd.longest⟩
    · exact .inl ⟨t.timeOffset, ht⟩
  refine hgrown.register ⟨htakes.arity, fun x hx => ?_, ?_⟩
  · rw [hplain, Array.size_push]
    exact (htakes.lt hx).trans (Nat.lt_succ_self _)
  · rw [hplain, Array.size_push, hsize]
    exact Nat.lt_succ_self _

theorem Outline.addOperatorInto {op : Operator α} {inputs : List TensorId} {result : TensorId}
    {k : Nat} (h : Outline b n) :
    Outline b (Call.after (Network.addOperatorInto op inputs result k) n) := by
  refine Call.after_induct h (fun e m he => addOperatorInto_error he) fun id m hm => ?_
  obtain ⟨-, rfl, ts, shape, target, htakes, htarget, -, hp, rfl⟩ :=
    Network.addOperatorInto_ok hm
  have hplain : Network.plain { n with tensors := ts } =
      n.plain.modify id.index ({ · with timeOffset := k }) := hp
  have hgrown : Outline b { n with tensors := ts } := by
    refine h.extend rfl rfl rfl le_rfl (by rw [hplain]; simp) fun i t ht => ?_
    rw [hplain, Array.getElem?_modify] at ht
    split at ht
    · obtain ⟨u, hu, rfl⟩ := Option.map_eq_some_iff.mp ht
      exact .inl ⟨u.timeOffset, hu⟩
    · exact .inl ⟨t.timeOffset, ht⟩
  refine hgrown.register ⟨htakes.arity, fun x hx => ?_, ?_⟩
  · rw [hplain, Array.size_modify]
    exact htakes.lt hx
  · rw [hplain, Array.size_modify]
    exact (Array.getElem?_eq_some_iff.mp htarget).1

theorem Outline.perform (h : Outline b n) (c : BuildingCall α) : Outline b (c.perform n) := by
  cases c with
  | createInput shape sequence => exact h.create (by decide)
  | createState shape sequence => exact h.create (by decide)
  | createParameter shape sequence => exact h.create (by decide)
  | addOperator op inputs timeOffset => exact h.addOperator
  | nameTensor id name => exact h.same (nameTensor_same n id name)
  | setOptimizer o => exact h.same (setOptimizer_same n o)
  | initWeight target init => exact h.same (initWeight_same n target init)

/-- What becomes of a network by any calls that build it; an operator may also write a tensor
that is there already. -/
inductive Assembled (start : Network α) : Network α → Prop
  | start : Assembled start start
  | call {n : Network α} (c : BuildingCall α) (h : Assembled start n) :
      Assembled start (c.perform n)
  | operatorInto {n : Network α} (op : Operator α) (inputs : List TensorId) (result : TensorId)
      (timeOffset : Nat) (h : Assembled start n) :
      Assembled start (Call.after (addOperatorInto op inputs result timeOffset) n)

/-- A network with more operators, other tensors and other choices for its parameters. -/
def Grown (n n' : Network α) : Prop :=
  ∃ tensors more maxSequence optimizer initializers, n' = { n with
    tensors, maxSequence, optimizer, initializers, nodes := n.nodes ++ more }

theorem Grown.refl (n : Network α) : n.Grown n :=
  ⟨n.tensors, #[], n.maxSequence, n.optimizer, n.initializers, by simp⟩

theorem Grown.trans {n₁ n₂ n₃ : Network α} (h : n₁.Grown n₂) (h' : n₂.Grown n₃) : n₁.Grown n₃ := by
  obtain ⟨_, more, _, _, _, rfl⟩ := h
  obtain ⟨ts, more', long, o, inits, rfl⟩ := h'
  exact ⟨ts, more ++ more', long, o, inits, by simp⟩

theorem SameGraph.grown (h : n.SameGraph n') : n.Grown n' := by
  obtain ⟨ts, o, inits, -, -, rfl⟩ := h
  exact ⟨ts, #[], n.maxSequence, o, inits, by simp⟩

theorem create_grown (n : Network α) (kind : TensorKind) (shape : Shape) (sequence : Nat) :
    n.Grown (Call.after (Network.create kind shape sequence) n) := by
  refine Call.after_induct (.refl n) (fun e m he => create_error he) fun id m hm => ?_
  obtain ⟨-, -, -, rfl⟩ := create_ok_iff.mp hm
  exact ⟨n.tensors.push (Tensor.ofKind kind shape sequence), #[],
    max n.maxSequence (max sequence 1), n.optimizer, n.initializers, by simp⟩

theorem BuildingCall.grown (n : Network α) (c : BuildingCall α) : n.Grown (c.perform n) := by
  cases c with
  | createInput shape sequence => exact create_grown n _ _ _
  | createState shape sequence => exact create_grown n _ _ _
  | createParameter shape sequence => exact create_grown n _ _ _
  | addOperator op inputs timeOffset =>
    refine Call.after_induct (.refl n) (fun e m he => addOperator_error he) fun id m hm => ?_
    obtain ⟨-, -, ts, shape, sequence, -, -, -, rfl⟩ := Network.addOperator_ok hm
    exact ⟨ts, #[{ op, inputs, output := id, timeOffset }], max n.maxSequence (max sequence 1),
      n.optimizer, n.initializers, by simp⟩
  | nameTensor id name => exact (nameTensor_same n id name).grown
  | setOptimizer o => exact (setOptimizer_same n o).grown
  | initWeight target init => exact (initWeight_same n target init).grown

theorem Assembled.grown {start : Network α} (h : Assembled start n) : start.Grown n := by
  induction h with
  | start => exact .refl _
  | call c _ ih => exact ih.trans (c.grown _)
  | @operatorInto n op inputs result timeOffset _ ih =>
    refine ih.trans (Call.after_induct (.refl n) (fun e m he => addOperatorInto_error he)
      fun id m hm => ?_)
    obtain ⟨-, -, ts, shape, target, -, -, -, -, rfl⟩ := Network.addOperatorInto_ok hm
    exact ⟨ts, #[{ op, inputs, output := result, timeOffset }], n.maxSequence, n.optimizer,
      n.initializers, by simp⟩

theorem Assembled.draft {start : Network α} (h : Assembled start n)
    (calls : List (BuildingCall α)) : Assembled start (n.draft calls) := by
  induction calls generalizing n with
  | nil => exact h
  | cons c calls ih => exact ih (.call c h)

theorem Assembled.outline (h : Assembled (Network.new b config) n) :
    Outline { b with validation := config.validate } n := by
  induction h with
  | start => exact Outline.new b config
  | call c _ ih => exact ih.perform c
  | operatorInto op inputs result timeOffset _ ih => exact ih.addOperatorInto

end Backprop.Network
