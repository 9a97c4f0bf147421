import Mathlib
import Backprop.Proofs.Network.ForwardPass
import Backprop.Proofs.Network.Reading

/-! A compiled network means what the interpreter makes of the graph: after a forward pass every
output holds, in every slot, the value that the interpreter answers. -/

namespace Backprop

variable {α : Type} [Scalar α]

/-- An operator that writes the timestep where it runs, in every timestep where it runs. -/
def Stepwise (op : Operator α) : Prop := Network.InStep op ∧ op ≠ .copyInit

namespace Network

def readings (n : Network α) : Values α := fun x step =>
  match readTensor x step n with
  | .ok value _ => .ok value
  | .error e _ => .error e

variable {b : Backend α} {config : NetworkConfig} {allowed : Operator α → Prop}
  {n m k k' : Network α} {batch : Nat}

omit [Scalar α] in
theorem Sketch.ordered (hn : Sketch b n)
    (howns : n.Each fun ts node => allowed node.op ∧ node.Owns ts) : n.Ordered :=
  fun i j _ c hi hj hij => hn.later i j _ c hi hj hij (howns j c hj).2

theorem Compiled.counterpart (h : Compiled n m batch) {i : Nat} {node : Node α}
    (hi : n.nodes[i]? = some node) :
    ∃ node', m.nodes[i]? = some node' ∧ node'.op = node.op ∧ node'.inputs = node.inputs ∧
      node'.output = node.output ∧ node'.timeOffset = node.timeOffset := by
  have hlt : i < m.nodes.size := h.size_nodes ▸ (Array.getElem?_eq_some_iff.mp hi).1
  obtain ⟨node', hi', hop, hin, hout, hoff, -⟩ := h.expanded.origin (Array.getElem?_eq_getElem hlt)
  rw [hi] at hi'
  cases hi'
  exact ⟨_, Array.getElem?_eq_getElem hlt, hop, hin, hout, hoff⟩

theorem Compiled.feedForward (h : Compiled n m batch)
    (howns : n.Each fun ts node => Stepwise node.op ∧ node.Owns ts) : m.FeedForward := by
  intro i node hi
  obtain ⟨node', hi', hop, -, hout, -⟩ := h.expanded.origin hi
  obtain ⟨⟨hstep, hinit⟩, u, hu, hk, -⟩ := howns i node' hi'
  obtain ⟨t, ht, hk', -⟩ := h.expanded.tensor_keeps hu
  rw [hop, hout]
  exact ⟨⟨t, ht, hk'.trans hk⟩, hstep, hinit⟩

theorem slotValue_sameTensors {ts us : TensorId → Except Error Tensor} {v : Values α}
    {node : Node α} (harity : node.inputs.length = node.op.arity)
    (h : ∀ x, x = node.output ∨ x ∈ node.inputs → ∃ t u, ts x = .ok t ∧ us x = .ok u ∧
      t.SameButStorage u) (step : Nat) : slotValue ts v node step = slotValue us v node step := by
  have hread : ∀ l : List TensorId, (∀ x ∈ l, x ∈ node.inputs) →
      (l.mapM fun x => do v x (readSlot (← ts x) step)) =
        (l.mapM fun x => do v x (readSlot (← us x) step)) := by
    intro l hl
    induction l with
    | nil => rfl
    | cons x l ih =>
      obtain ⟨t, u, ht, hu, hs⟩ := h x (.inr (hl x List.mem_cons_self))
      have htail := ih fun y hy => hl y (List.mem_cons_of_mem _ hy)
      have hslot : readSlot t step = readSlot u step := by rw [hs]; rfl
      have hhead : (do v x (readSlot (← ts x) step)) = (do v x (readSlot (← us x) step)) := by
        rw [ht, hu]
        change v x (readSlot t step) = v x (readSlot u step)
        rw [hslot]
      rw [List.mapM_cons, List.mapM_cons, htail, hhead]
  obtain ⟨t, u, ht, hu, hs⟩ := h _ (.inl rfl)
  obtain ⟨a, a', ha, ha', hsa⟩ := h _ (.inr (Node.first_mem harity))
  obtain ⟨b, b', hb, hb', hsb⟩ := h _ (.inr (Node.last_mem harity))
  have hshape : t.shape = u.shape := by rw [hs]
  have hshapeA : a.shape = a'.shape := by rw [hsa]
  have hshapeB : b.shape = b'.shape := by rw [hsb]
  unfold slotValue
  rw [ht, hu, ha, ha', hb, hb', hread _ fun x hx => hx]
  simp only [bind, Except.bind, hshape, hshapeA, hshapeB]

/-- What the interpreter answers agrees with a state of the compiled network, when the values it
is told do. -/
theorem Compiled.solves (hn : Sketch b n) (ordered : n.Ordered) (h : Compiled n m batch)
    {start : Backend α} {held : Values α}
    (agrees : ∀ (x : TensorId) (j : Nat), m.Has ⟨x.index, .forward, j⟩ →
      held x j = .ok (m.values start ⟨x.index, .forward, j⟩)) :
    m.Solves start (n.interpret batch held) := by
  have hlowered := h.lowered hn
  refine ⟨fun x j hhas hne => ?_, fun i node hi step => ?_⟩
  · rw [interpret_held, agrees x j hhas]
    intro i node hi
    obtain ⟨node', hi', -, -, hout, -⟩ := h.counterpart hi
    exact hout ▸ hne i node' hi'
  · obtain ⟨node', hi', hop, hin, hout, hoff, -⟩ := h.expanded.origin hi
    have hfit := hlowered.fitted i node hi
    have hvalue : n.interpret batch held node'.output step =
        slotValue (n.batched batch) (n.interpret batch held) node' step :=
      interpret_output ordered hi' step
    have hsame : slotValue (n.batched batch) (n.interpret batch held) node' step =
        slotValue (n.batched batch) (n.interpret batch held) node step := by
      obtain ⟨op, inputs, output, timeOffset⟩ := node
      simp only at hop hin hout hoff
      subst hop hin hout hoff
      rfl
    rw [hout, hvalue, hsame]
    refine slotValue_sameTensors hfit.arity (fun x hx => ?_) step
    have hlt : x.index < n.tensors.size := by
      have hsize : n.plain.size = n.tensors.size := by simp [plain]
      rw [hout, hin] at hx
      rw [← hsize]
      obtain rfl | hx := hx
      · exact (hn.writes i node' hi').output_lt
      · exact (hn.writes i node' hi').inputs_lt hx
    obtain ⟨u, hu, hs⟩ := h.tensor x.index _ (Array.getElem?_eq_getElem hlt)
    refine ⟨_, u, ?_, tensor_ok_iff.mpr hu, hs⟩
    rw [batched, tensor_ok_iff.mpr (Array.getElem?_eq_getElem hlt)]
    rfl

theorem Lowered.readings (h : Lowered m) (stage : m.stage = .compiled) (hk : m.SameGraphAs k)
    {x : TensorId} {j : Nat} (hhas : m.Has ⟨x.index, .forward, j⟩) :
    k.readings x j = .ok (m.values k.backend ⟨x.index, .forward, j⟩) := by
  obtain ⟨t, ht, -, hj⟩ := hhas
  have hp : t.kind = .parameter → j = 0 := by
    intro hp
    have hj' : j < t.kind.slotCount t.sequence := hj
    rw [hp] at hj'
    exact Nat.lt_one_iff.mp hj'
  rw [Network.readings, h.readTensor_ok stage hk ht hj hp]

omit [Scalar α] in
theorem readings_error {x : TensorId} {j : Nat} {e : Error} (stage : k.stage = .compiled)
    (he : (k.tensor x >>= fun t => forwardSlot t j) = .error e) : k.readings x j = .error e := by
  have hread : readTensor x j k = .error e k := by
    refine Call.bind_error_iff.mpr (.inr ⟨⟨⟩, k, requireCompiled_ok_iff.mpr ⟨stage, rfl⟩, ?_⟩)
    refine Call.bind_error_iff.mpr (.inr ⟨k, k, Call.get_ok_iff.mpr ⟨rfl, rfl⟩, ?_⟩)
    cases ht : k.tensor x with
    | error e' =>
      rw [ht] at he
      cases he
      exact Call.bind_error_iff.mpr (.inl (Call.ofExcept_error_iff.mpr ⟨rfl, rfl⟩))
    | ok t =>
      rw [ht] at he
      refine Call.bind_error_iff.mpr (.inr ⟨t, k, Call.ofExcept_ok_iff.mpr ⟨rfl, rfl⟩, ?_⟩)
      exact Call.bind_error_iff.mpr (.inl (Call.ofExcept_error_iff.mpr ⟨he, rfl⟩))
  rw [Network.readings, hread]

theorem Lowered.readings_congr (h : Lowered m) (stage : m.stage = .compiled) (hk : m.SameGraphAs k)
    (hk' : m.SameGraphAs k') {x : TensorId} (same : ∀ j, m.Has ⟨x.index, .forward, j⟩ →
      m.values k.backend ⟨x.index, .forward, j⟩ = m.values k'.backend ⟨x.index, .forward, j⟩)
    (j : Nat) : k.readings x j = k'.readings x j := by
  by_cases hhas : m.Has ⟨x.index, .forward, j⟩
  · rw [h.readings stage hk hhas, h.readings stage hk' hhas, same j hhas]
  · have htensor : k.tensor x = m.tensor x := by rw [hk.same]; rfl
    have htensor' : k'.tensor x = m.tensor x := by rw [hk'.same]; rfl
    have hstage : k.stage = .compiled := by rw [hk.same, stage]
    have hstage' : k'.stage = .compiled := by rw [hk'.same, stage]
    cases hslot : (m.tensor x >>= fun t => Network.forwardSlot t j) with
    | error e =>
      rw [readings_error hstage (htensor ▸ hslot), readings_error hstage' (htensor' ▸ hslot)]
    | ok buffer =>
      obtain ⟨t, ht, hslot⟩ := Except.bind_ok_iff.mp hslot
      exact absurd (h.has_of_forwardSlot (tensor_ok_iff.mp ht) hslot) hhas

theorem Lowered.written_same (h : Lowered m) (written : HostWritten m k) : m.SameGraphAs k := by
  obtain ⟨allocation, ha⟩ := h.arranged
  obtain ⟨hsame, htouch⟩ := written.altered ha
  exact ⟨by rw [hsame], htouch.same, htouch.sizes⟩

theorem Lowered.written_keeps (h : Lowered m) (written : HostWritten m k) {p : Place} {t : Tensor}
    (ht : m.tensors[p.tensor]? = some t) (hp : m.Has p)
    (apart : p.side = .backward ∨ t.kind = .intermediate ∨ t.kind = .scratch) :
    m.values k.backend p = m.values m.backend p := by
  obtain ⟨allocation, ha⟩ := h.arranged
  obtain ⟨-, htouch⟩ := written.altered ha
  obtain ⟨t', ht', hl, hlt⟩ := hp
  rw [ht] at ht'
  cases ht'
  obtain ⟨-, stride, -, hslots⟩ := ha.side ht hl
  refine htouch.contents (hslots _ hlt).2.2 ?_
  rintro ⟨x, u, hu, hkind, heq⟩
  have hu' := tensor_ok_iff.mp hu
  obtain ⟨floor, hlay⟩ := ha.layout
  obtain ⟨hidx, hside⟩ := hlay.apart _ _ t u p.side .forward (Array.getElem?_eq_some_iff.mp ht).1
    (Array.getElem?_eq_some_iff.mp hu').1 ht hu' hl u.lives_forward heq
  rw [← hidx, ht] at hu'
  cases hu'
  obtain hback | hk | hk := apart
  · rw [hside] at hback
    cases hback
  · simp [hk] at hkind
  · simp [hk] at hkind

theorem Lowered.blank (h : Lowered m) {p : Place} {t : Tensor} (ht : m.tensors[p.tensor]? = some t)
    (hp : m.Has p) (hk : t.kind = .parameter → p.side = .backward) :
    m.values m.backend p = Array.replicate t.shape.elements 0 := by
  obtain ⟨allocation, ha⟩ := h.arranged
  obtain ⟨t', ht', hl, hlt⟩ := hp
  rw [ht] at ht'
  cases ht'
  obtain ⟨-, stride, -, hslots⟩ := ha.side ht hl
  obtain ⟨-, hr, hw⟩ := hslots _ hlt
  exact Backend.Blank.contents hr hw (ha.blank _ t p.side ht hl hk)

/-- What the host writes does not reach intermediate tensors, which are blank after compilation. -/
theorem Lowered.written (h : Lowered m) (written : HostWritten m k) :
    m.SameGraphAs k ∧ ∀ (i : Nat) (t : Tensor), m.tensors[i]? = some t → t.kind = .intermediate →
      ∀ j < t.slotCount,
        m.values k.backend ⟨i, .forward, j⟩ = Array.replicate t.shape.elements 0 := by
  refine ⟨h.written_same written, fun i t ht hk j hj => ?_⟩
  have hp : m.Has ⟨i, .forward, j⟩ := ⟨t, ht, t.lives_forward, hj⟩
  rw [h.written_keeps written (p := ⟨i, .forward, j⟩) ht hp (.inr (.inl hk)),
    h.blank (p := ⟨i, .forward, j⟩) ht hp fun hp => by simp [hk] at hp]

theorem Compiled.fresh (h : Lowered m) (hf : m.FeedForward) (written : HostWritten m k) :
    m.SameGraphAs k ∧ m.Fresh k.backend := by
  obtain ⟨hsame, hblank⟩ := h.written written
  refine ⟨hsame, hsame.layout, fun i node t j hi ht hj => ?_⟩
  obtain ⟨⟨t', ht', hk⟩, -⟩ := hf i node hi
  rw [ht] at ht'
  cases ht'
  refine hblank _ t ht hk j ?_
  change j < t.kind.slotCount t.sequence
  rw [hk]
  exact hj

/-- After the first forward pass every output holds, at every timestep, what the interpreter
answers for the values that the host wrote: zeros before the operator starts, and from then on
what its kernel makes of the values of its operands. -/
theorem Built.forward_interprets (idle : b.Idle) (built : Built Stepwise (Network.new b config) n)
    (compiled : compile batch n = .ok ⟨⟩ m) (written : HostWritten m k)
    (ran : forward k = .ok ⟨⟩ k') {node : Node α} (hn : node ∈ n.nodes) {t : Tensor}
    (ht : n.tensor node.output = .ok t) {step : Nat} (hs : step < t.sequence) :
    ∃ value, n.interpret (max batch 1) k.readings node.output step = .ok value ∧
      readTensor node.output step k' = .ok value k' := by
  have hsketch := built.sketch
  have howns := built.owns
  have hcompiled := compile_ok hsketch.outline ⟨idle.dispatches, idle.sound⟩ compiled
  have hlowered := hcompiled.lowered hsketch
  have hfeed := hcompiled.feedForward howns
  obtain ⟨hsame, hfresh⟩ := Compiled.fresh hlowered hfeed written
  have hsolves := hcompiled.solves hsketch (hsketch.ordered howns)
    fun x j hhas => hlowered.readings hcompiled.stage hsame hhas
  obtain ⟨hsame', ds, hds, hruns⟩ := hlowered.run_ok hsame (by decide) ran
  have hdone := hlowered.forward_computes hfeed hsolves hfresh hds hruns
  obtain ⟨i, hi⟩ := Array.getElem?_of_mem hn
  obtain ⟨node', hi', -, -, hout, -⟩ := hcompiled.counterpart hi
  obtain ⟨u, hu, hsu⟩ := hcompiled.tensor _ t (tensor_ok_iff.mp ht)
  rw [batchTensor_eq] at hsu
  have hseq : u.sequence = t.sequence := by rw [hsu]
  have hle := (hlowered.sequence _ u hu).2
  have hkind : u.kind = .intermediate := by
    obtain ⟨⟨u', hu', hk⟩, -⟩ := hfeed i node' hi'
    rw [hout, hu] at hu'
    cases hu'
    exact hk
  have hvalue := hdone.output i node' u step hi' (hout ▸ hu) (hseq ▸ hs)
  have hmax := hle (by simp [hkind])
  rw [if_pos (by omega), hout] at hvalue
  refine ⟨_, hvalue, ?_⟩
  refine hlowered.readTensor_ok hcompiled.stage hsame' hu ?_ fun hp => by simp [hkind] at hp
  change step < u.kind.slotCount u.sequence
  rw [hkind, hseq]
  exact hs

/-- A product over two timesteps, and a rectifier that starts one step late. -/
def delayedNetwork : Network Binary32 :=
  (Network.new Backend.host {}).draft
    [.createInput ⟨2, 1, 1, 1⟩ 2, .createParameter ⟨1, 2, 1, 1⟩ 1,
      .addOperator .matMul [⟨0⟩, ⟨1⟩] 0, .addOperator (.activation .relu) [⟨2⟩] 1]

def delayedWritten : Network Binary32 :=
  HostWrite.perform (.tensor ⟨0⟩ 1 #[.ofInt 2, .ofInt (-1)])
    (HostWrite.perform (.tensor ⟨1⟩ 0 #[.ofInt 3, .ofInt 1])
      (Call.after (compile 1) delayedNetwork))

set_option maxRecDepth 100000 in
theorem delayedNetwork_forward_interprets : ∃ m k',
    compile 1 delayedNetwork = .ok ⟨⟩ m ∧ HostWritten m delayedWritten ∧
      forward delayedWritten = .ok ⟨⟩ k' ∧
      ∃ value, delayedNetwork.interpret 1 delayedWritten.readings ⟨3⟩ 1 = .ok value ∧
        readTensor ⟨3⟩ 1 k' = .ok value k' := by
  have hm : compile 1 delayedNetwork = .ok ⟨⟩ (Call.after (compile 1) delayedNetwork) :=
    Call.ok_of_isOk (by decide +kernel)
  have hran : forward delayedWritten = .ok ⟨⟩ (Call.after forward delayedWritten) :=
    Call.ok_of_isOk (by decide +kernel)
  have hbuilt : Built Stepwise (Network.new Backend.host {}) delayedNetwork :=
    Built.start.draft fun c hc => by
      simp only [List.mem_cons, List.not_mem_nil, or_false] at hc
      obtain rfl | rfl | rfl | rfl := hc
      · trivial
      · trivial
      · exact ⟨nofun, nofun⟩
      · exact ⟨nofun, nofun⟩
  have hwritten : HostWritten (Call.after (compile 1) delayedNetwork) delayedWritten :=
    .write _ (by decide +kernel) (.write _ (by decide +kernel) .start)
  have hnode : (⟨.activation .relu, [⟨2⟩], ⟨3⟩, 1, [], [], []⟩ : Node Binary32) ∈
      delayedNetwork.nodes := Array.mem_of_getElem? (i := 1) rfl
  exact ⟨_, _, hm, hwritten, hran, Built.forward_interprets Backend.host_idle hbuilt hm hwritten
    hran hnode rfl (by decide +kernel)⟩

end Network

end Backprop
