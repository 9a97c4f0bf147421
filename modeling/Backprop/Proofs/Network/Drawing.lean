import Mathlib
import Backprop.Proofs.Network.Building

/-! Networks drawn call by call: calls on operands that fit succeed, and what tensors and operators
there are then is known. -/

namespace Backprop.Network

variable {α : Type}

/-- A sketch with these tensors, but for their notes, and with these operators. -/
structure Drawn (b : Backend α) (ts : List Tensor) (nodes : List (Node α)) (n : Network α) :
    Prop where
  sketch : InStepSketch b n
  tensors : n.plain.toList = ts
  nodes : n.nodes.toList = nodes

variable {b : Backend α} {config : NetworkConfig} {ts : List Tensor} {nodes : List (Node α)}
  {n n' : Network α}

theorem Drawn.start (b : Backend α) (config : NetworkConfig) :
    Drawn { b with validation := config.validate } [] [] (Network.new b config) where
  sketch := ⟨Sketch.new b config, fun i node hn => by simp [Network.new] at hn⟩
  tensors := by simp [Network.new, plain]
  nodes := rfl

theorem Drawn.tensor (h : Drawn b ts nodes n) (i : Nat) : n.plain[i]? = ts[i]? := by
  rw [← h.tensors, Array.getElem?_toList]

theorem Drawn.node (h : Drawn b ts nodes n) (i : Nat) : n.nodes[i]? = nodes[i]? := by
  rw [← h.nodes, Array.getElem?_toList]

theorem Drawn.size (h : Drawn b ts nodes n) : n.tensors.size = ts.length := by
  rw [← h.tensors, Array.length_toList, plain, Array.size_map]

theorem Drawn.same (h : Drawn b ts nodes n) (hs : n.SameGraph n')
    (sketch : InStepSketch b n') : Drawn b ts nodes n' := by
  obtain ⟨us, o, inits, hp, -, rfl⟩ := hs
  refine ⟨sketch, ?_, h.nodes⟩
  change (us.map Tensor.plain).toList = ts
  rw [hp, h.tensors]

theorem Drawn.create {c : BuildingCall α} {kind : TensorKind} {shape : Shape} {sequence : Nat}
    (h : Drawn b ts nodes n) (hc : c.perform = Call.after (Network.create kind shape sequence))
    (ok : c.Within InStep) (pos : shape.elements ≠ 0) :
    Call.Yields (Network.create kind shape sequence) n fun id n' =>
      id = ⟨ts.length⟩ ∧ Drawn b (ts ++ [Tensor.ofKind kind shape sequence]) nodes n' := by
  have hcreate : Network.create kind shape sequence n = .ok ⟨n.tensors.size⟩ _ :=
    create_ok_iff.mpr ⟨h.sketch.1.stage, pos, rfl, rfl⟩
  have hsketch := h.sketch.perform c ok
  rw [hc, Call.after_of_ok hcreate] at hsketch
  refine ⟨_, _, hcreate, by rw [h.size], hsketch, ?_, h.nodes⟩
  simp only [plain, Array.map_push, Array.toList_push]
  rw [← h.tensors, plain]
  rfl

theorem Drawn.createInput {shape : Shape} {sequence : Nat} (h : Drawn b ts nodes n)
    (pos : shape.elements ≠ 0) :
    Call.Yields (Network.createInput shape sequence) n fun id n' =>
      id = ⟨ts.length⟩ ∧ Drawn b (ts ++ [Tensor.ofKind .input shape sequence]) nodes n' :=
  h.create (c := .createInput shape sequence) rfl trivial pos

theorem Drawn.createState {shape : Shape} {sequence : Nat} (h : Drawn b ts nodes n)
    (pos : shape.elements ≠ 0) :
    Call.Yields (Network.createState shape sequence) n fun id n' =>
      id = ⟨ts.length⟩ ∧ Drawn b (ts ++ [Tensor.ofKind .recurrent shape sequence]) nodes n' :=
  h.create (c := .createState shape sequence) rfl trivial pos

theorem Drawn.createParameter {shape : Shape} {sequence : Nat} (h : Drawn b ts nodes n)
    (pos : shape.elements ≠ 0) :
    Call.Yields (Network.createParameter shape sequence) n fun id n' =>
      id = ⟨ts.length⟩ ∧ Drawn b (ts ++ [Tensor.ofKind .parameter shape sequence]) nodes n' :=
  h.create (c := .createParameter shape sequence) rfl trivial pos

theorem Drawn.nameTensor {id : TensorId} {name : String} {t : Tensor} (h : Drawn b ts nodes n)
    (ht : ts[id.index]? = some t) (named : name ≠ "" ∧ '\n' ∉ name.toList) :
    Call.Yields (Network.nameTensor id name) n fun _ n' => Drawn b ts nodes n' := by
  obtain ⟨u, hu, -⟩ := Option.map_eq_some_iff.mp ((plain_getElem? n _).symm.trans
    ((h.tensor id.index).trans ht))
  have hname : (name.isEmpty || name.toList.contains '\n') = false := by simp [named.1, named.2]
  have hrun : Network.nameTensor id name n = .ok ⟨⟩ { n with
      tensors := n.tensors.modify id.index ({ · with name := some name }) } := by
    unfold Network.nameTensor
    simp only [hname, Call.discard_eq, Call.throw_ite_ok_iff, Call.bind_ok_iff, Call.get_ok_iff,
      Call.ofExcept_ok_iff, Call.pure_ok_iff, modifyTensor, Call.modify_ok_iff]
    exact ⟨by simp, n, n, ⟨rfl, rfl⟩, ⟨⟩, n, ⟨u, n, ⟨tensor_ok_iff.mpr hu, rfl⟩, trivial, rfl⟩, rfl⟩
  have hsame := nameTensor_same n id name
  have hsketch := h.sketch.perform (.nameTensor id name) trivial
  rw [Call.after_of_ok hrun] at hsame
  rw [BuildingCall.perform, Call.after_of_ok hrun] at hsketch
  exact ⟨_, _, hrun, h.same hsame hsketch⟩

theorem Drawn.initWeight {target : TensorId} {init : Initializer} {t : Tensor}
    (h : Drawn b ts nodes n) (ht : ts[target.index]? = some t) (hk : t.kind = .parameter) :
    Call.Yields (Network.initWeight target init) n fun _ n' => Drawn b ts nodes n' := by
  obtain ⟨u, hu, rfl⟩ := Option.map_eq_some_iff.mp ((plain_getElem? n _).symm.trans
    ((h.tensor target.index).trans ht))
  have hrun : Network.initWeight target init n = .ok ⟨⟩ { n with
      initializers := n.initializers ++ [(target, init)] } := by
    unfold Network.initWeight
    simp only [Call.bind_ok_iff, Call.get_ok_iff, Call.modify_ok_iff, Call.throw_ite_ok_iff,
      Call.ofExcept_ok_iff, requireBuilding_ok_iff, tensor_ok_iff]
    exact ⟨⟨⟩, n, ⟨h.sketch.1.stage, rfl⟩, n, n, ⟨rfl, rfl⟩, u, n, ⟨hu, rfl⟩, not_not.mpr hk, rfl⟩
  have hsame := initWeight_same n target init
  have hsketch := h.sketch.perform (.initWeight target init) trivial
  rw [Call.after_of_ok hrun] at hsame
  rw [BuildingCall.perform, Call.after_of_ok hrun] at hsketch
  exact ⟨_, _, hrun, h.same hsame hsketch⟩

theorem Drawn.addOperator {op : Operator α} {inputs : List TensorId} {bound : List Tensor}
    {shape : Shape} (h : Drawn b ts nodes n) (hop : InStep op)
    (operands : List.Forall₂ (fun x t => ts[x.index]? = some t) inputs bound)
    (fits : op.outputShape (bound.map (·.shape)) = .ok shape) (pos : shape.elements ≠ 0) :
    Call.Yields (Network.addOperator op inputs 0) n fun id n' => id = ⟨ts.length⟩ ∧
      Drawn b (ts ++ [Tensor.ofKind .intermediate shape (op.sequenceLength bound)])
        (nodes ++ [{ op, inputs, output := ⟨ts.length⟩, timeOffset := 0 }]) n' := by
  obtain ⟨n', hadd, hplain⟩ := addOperator_succeeds 0 h.sketch.1.stage
    (operands.imp fun x t ht => (h.tensor x.index).trans ht) fits pos
  obtain ⟨-, hnodes, -⟩ := h.sketch.1.addOperator_ok hadd
  have hsketch := h.sketch.perform (.addOperator op inputs 0) hop
  rw [show BuildingCall.perform (.addOperator op inputs 0) n = n' from Call.after_of_ok hadd]
    at hsketch
  refine ⟨_, n', hadd, by rw [h.size], hsketch, ?_, ?_⟩
  · rw [hplain, Array.toList_push, h.tensors]
    rfl
  · rw [hnodes, Array.toList_push, h.nodes, h.size]

theorem Drawn.feed {op : Operator α} {a s : TensorId} {t u : Tensor} (h : Drawn b ts nodes n)
    (hop : op = .copy 1 ∨ op = .copyInit) (ha : ts[a.index]? = some t)
    (hs : ts[s.index]? = some u) (hk : u.kind = .recurrent) (hne : a ≠ s)
    (rows : t.shape.rowElements = u.shape.rowElements)
    (first : op = .copyInit → ∀ node ∈ nodes, s ∉ node.inputs) :
    Call.Yields (addOperatorInto op [a] s 0) n fun id n' => id = s ∧
      Drawn b ts (nodes ++ [{ op, inputs := [a], output := s, timeOffset := 0 }]) n' := by
  have ha' := (h.tensor a.index).trans ha
  have hs' := (h.tensor s.index).trans hs
  have htakes : Takes n.plain op [a] t.shape :=
    ⟨[t.shape], .cons ⟨t, ha', rfl⟩ .nil, by obtain rfl | rfl := hop <;> rfl⟩
  have hunread : op = .copyInit → ∀ (i : Nat) (c : Node α), n.nodes[i]? = some c → s ∉ c.inputs :=
    fun hinit i c hc => first hinit c (List.mem_of_getElem? ((h.node i).symm.trans hc))
  obtain ⟨n', hadd⟩ := addOperatorInto_succeeds 0 h.sketch.1.stage htakes hs' rows
  obtain ⟨-, hnodes, hplain, -⟩ := h.sketch.1.addOperatorInto_ok hs' hk hne hop hunread hadd
  have hstate : StateSketch b s n := ⟨h.sketch, u, hs', hk⟩
  have hsketch := (hstate.feed hne hop hunread).1
  rw [Call.after_of_ok hadd] at hsketch
  refine ⟨s, n', hadd, rfl, hsketch, by rw [hplain, h.tensors], ?_⟩
  rw [hnodes, Array.toList_push, h.nodes]

end Backprop.Network
