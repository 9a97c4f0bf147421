import Mathlib
import Backprop.Proofs.Network.Graph

/-! The timetable of a compiled network: which operator makes which request at which unroll step,
and where the requests of one operator stand in the lists. -/

namespace Backprop

variable {α : Type}

theorem Except.of_bind_ok {ε β γ : Type} {x : Except ε β} {f : β → Except ε γ} {c : γ} {P : Prop}
    (h : (x >>= f) = .ok c) (hf : ∀ b, f b = .ok c → P) : P := by
  obtain ⟨b, -, h⟩ := Except.bind_ok_iff.mp h
  exact hf b h

namespace Operator

def requestCount : Operator α → Pass → Nat
  | _, .forward => 1
  | _, .update => 0
  | matMul, .backward | matMulFlat, .backward => 4
  | conv2d .., .backward => 3
  | elementwiseProduct, .backward | add _, .backward | addBias, .backward
  | addBiasConv, .backward => 2
  | transpose, .backward | accuracy, .backward => 0
  | _, .backward => 1

/-- Requests for a timestep of the output; a first slot is copied once. -/
def countAt (op : Operator α) (pass : Pass) (tile : Nat) : Nat :=
  if op.place = .timestep 0 ∧ tile ≠ 0 then 0 else op.requestCount pass

theorem emit_length {op : Operator α} {inputs scratch : List Tensor} {output : Tensor}
    {e : Emission α} (h : op.emit inputs output scratch = .ok e) (pass : Pass) :
    (e.get pass).length = op.countAt pass output.cursor := by
  obtain ⟨a, rest, rfl⟩ : ∃ a rest, inputs = a :: rest := by
    cases inputs with
    | nil => cases h
    | cons a rest => exact ⟨a, rest, rfl⟩
  by_cases hc : op.place = .timestep 0 ∧ output.cursor ≠ 0
  · obtain ⟨hplace, hcursor⟩ := hc
    cases op with
    | copyInit =>
      change (if output.cursor = 0 then emitCopy (.timestep 0) a output else pure {}) = _ at h
      rw [if_neg hcursor] at h
      cases h
      cases pass <;> simp [countAt, place, hcursor] <;> rfl
    | _ => cases hplace
  · rw [countAt, if_neg hc]
    cases op with
    | copyInit =>
      have hcursor : output.cursor = 0 := not_not.mp fun hne => hc ⟨rfl, hne⟩
      change (if output.cursor = 0 then emitCopy (.timestep 0) a output else pure {}) = _ at h
      rw [if_pos hcursor] at h
      repeat refine Except.of_bind_ok h fun _ h => ?_
      cases h
      cases pass <;> rfl
    | activation kind =>
      change emitActivation kind a output = _ at h
      cases kind <;>
      · repeat refine Except.of_bind_ok h fun _ h => ?_
        cases h
        cases pass <;> rfl
    | _ =>
      simp only [emit, List.head?_cons] at h
      repeat refine Except.of_bind_ok h fun _ h => ?_
      cases h
      cases pass <;> rfl

end Operator

def Node.positions (node : Node α) : Pass → List Nat
  | .forward => node.forward
  | .backward => node.backward
  | .update => []

theorem Backend.Recorded.size {b c : Backend α} {rs : Pass → List (Request α)}
    (h : b.Recorded c rs) (pass : Pass) :
    (c.dispatches.get pass).size = (b.dispatches.get pass).size + (rs pass).length := by
  obtain ⟨ds, hds, hi⟩ := h.lists pass
  rw [← Array.length_toList, hds, List.length_append, Array.length_toList, hi.length_eq]

theorem Backend.submit_position {b c : Backend α} {r : Request α} {pass : Pass} {position : Nat}
    (sound : b.Sound) (h : submit r pass b = .ok position c) :
    position = (b.dispatches.get pass).size := by
  simp only [submit, Call.bind_ok_iff] at h
  obtain ⟨id, m, hk, he⟩ := h
  obtain ⟨⟨ks, rfl⟩, -⟩ := kernel_ok sound hk
  exact (enqueue_ok_iff.mp he).2.2.1

namespace Network

variable {n m : Network α}

/-- Every request of a pass up to an unroll step, with the index of the operator it is for. -/
def timetableUpTo (n : Network α) (steps : Nat) (pass : Pass) : List (Nat × Request α) :=
  (List.range steps).flatMap fun step =>
    (List.range n.nodes.size).flatMap fun i => ((n.atStep step).emits pass step i).map (i, ·)

def timetable (n : Network α) (pass : Pass) : List (Nat × Request α) :=
  n.timetableUpTo n.maxSequence pass

theorem timetableUpTo_zero (n : Network α) : n.timetableUpTo 0 = fun _ => [] := rfl

theorem timetableUpTo_succ (n : Network α) (steps : Nat) :
    n.timetableUpTo (steps + 1) = fun pass => n.timetableUpTo steps pass ++
      (List.range n.nodes.size).flatMap fun i =>
        ((n.atStep steps).emits pass steps i).map (i, ·) := by
  funext pass
  simp only [timetableUpTo, List.range_succ, List.flatMap_append, List.flatMap_singleton]

def positionsIn (entries : List (Nat × Request α)) (i : Nat) : List Nat :=
  entries.findIdxs (·.1 == i)

theorem timetable_requests (n : Network α) (pass : Pass) :
    (n.timetable pass).map (·.2) = n.scheduled pass := by
  simp only [timetable, timetableUpTo, scheduled, scheduledUpTo, List.map_flatMap, List.map_map,
    Function.comp_def, List.map_id']

theorem lt_of_mem_timetable {entry : Nat × Request α} {pass : Pass} (h : entry ∈ n.timetable pass) :
    entry.1 < n.nodes.size := by
  simp only [timetable, timetableUpTo, List.mem_flatMap, List.mem_range, List.mem_map] at h
  obtain ⟨_, -, i, hi, _, -, rfl⟩ := h
  exact hi

/-! ### Positions -/

theorem positionsIn_append_self (entries : List (Nat × Request α)) (i : Nat)
    (rs : List (Request α)) : positionsIn (entries ++ rs.map (i, ·)) i =
      positionsIn entries i ++ List.range' entries.length rs.length := by
  have hall : ∀ start, (rs.map (i, ·)).findIdxs (·.1 == i) start = List.range' start rs.length := by
    induction rs with
    | nil => exact fun start => rfl
    | cons r rs ih =>
      intro start
      simp [List.range'_succ, ih]
  rw [positionsIn, List.findIdxs_append, hall, Nat.zero_add, positionsIn]

theorem positionsIn_append_other (entries : List (Nat × Request α)) {i j : Nat} (h : j ≠ i)
    (rs : List (Request α)) :
    positionsIn (entries ++ rs.map (i, ·)) j = positionsIn entries j := by
  have hnone : ∀ start, (rs.map (i, ·)).findIdxs (·.1 == j) start = [] := by
    intro start
    rw [List.findIdxs_eq_nil_iff]
    simp [h.symm]
  rw [positionsIn, List.findIdxs_append, hnone, List.append_nil, positionsIn]

theorem mem_positionsIn {entries : List (Nat × Request α)} {i k : Nat} :
    k ∈ positionsIn entries i ↔ (entries[k]?).map (·.1) = some i := by
  rw [positionsIn, List.mem_findIdxs_iff_exists_getElem_pos]
  by_cases hk : k < entries.length
  · simp [hk]
  · simp [hk]

theorem submitAll_positions {requests : List (Request α)} {pass : Pass} {positions : List Nat}
    (sound : n.backend.Sound) (h : submitAll requests pass n = .ok positions m) :
    positions = List.range' (n.backend.dispatches.get pass).size requests.length := by
  unfold submitAll at h
  induction requests generalizing n positions with
  | nil => exact (Call.mapM_nil_ok_iff.mp h).1
  | cons r requests ih =>
    obtain ⟨position, m₁, ps, hr, hrest, rfl⟩ := Call.mapM_cons_ok_iff.mp h
    obtain ⟨c, hc, rfl⟩ := onBackend_ok_iff.mp hr
    have hrec := Backend.Recorded.submit sound hc
    have hsize := hrec.size pass
    simp only [if_true, List.length_singleton] at hsize
    rw [ih hrec.sound hrest, Backend.submit_position sound hc, hsize, List.length_cons,
      List.range'_succ]

/-- The requests that have been recorded, and every operator knows where its own stand. -/
structure Placed (m : Network α) (entries : Pass → List (Nat × Request α)) : Prop where
  size : ∀ pass, (m.backend.dispatches.get pass).size = (entries pass).length
  positions : ∀ (i : Nat) (node : Node α), m.nodes[i]? = some node →
    ∀ pass, node.positions pass = positionsIn (entries pass) i

theorem Placed.emitNode {entries : Pass → List (Nat × Request α)} {step index : Nat}
    (h : m.Placed entries) (sound : m.backend.Sound)
    (hm : emitNode step index m = .ok ⟨⟩ n) :
    n.Placed fun pass => entries pass ++ (m.emits pass step index).map (index, ·) := by
  obtain ⟨-, -, hrec, -⟩ := emitNode_ok sound hm
  refine ⟨fun pass => ?_, fun i node' hi pass => ?_⟩
  · rw [hrec.size, h.size, List.length_append, List.length_map]
  rw [Network.emitNode, Call.get_bind_ok_iff] at hm
  cases hn : m.nodes[index]? with
  | none =>
    simp only [hn] at hm
    obtain ⟨-, rfl⟩ := Call.pure_ok_iff.mp hm
    simp only [emits, hn, List.map_nil, List.append_nil]
    exact h.positions i node' hi pass
  | some node =>
    simp only [hn, Call.bind_ok_iff, Call.ofExcept_ok_iff, Call.modify_ok_iff] at hm
    obtain ⟨e, _, ⟨he, rfl⟩, ps, m₁, hf, ps', m₂, hb, rfl⟩ := hm
    obtain ⟨hm₁, hrec₁⟩ := submitAll_ok sound hf
    obtain ⟨hm₂, -⟩ := submitAll_ok hrec₁.sound hb
    have hps := submitAll_positions sound hf
    have hps' := submitAll_positions hrec₁.sound hb
    have hsize := hrec₁.size .backward
    simp only [reduceCtorEq, if_false, List.length_nil, Nat.add_zero] at hsize
    have hnodes : m₂.nodes = m.nodes := by rw [hm₂, hm₁]
    simp only [Array.getElem?_modify, hnodes] at hi
    simp only [emits, hn, he]
    by_cases hne : index = i
    · subst hne
      rw [if_pos rfl, hn, Option.map_some, Option.some.injEq] at hi
      rw [← hi, positionsIn_append_self, ← h.positions index node hn pass, ← h.size]
      cases pass with
      | forward => simp [Node.positions, hps, Emission.get]
      | backward => simp [Node.positions, hps', hsize, Emission.get]
      | update => rfl
    · rw [if_neg hne] at hi
      rw [positionsIn_append_other _ (Ne.symm hne)]
      exact h.positions i node' hi pass

theorem Placed.emitStep {entries : Pass → List (Nat × Request α)} {step : Nat}
    (h : m.Placed entries) (sound : m.backend.Sound) (hm : emitStep step m = .ok ⟨⟩ n) :
    n.Placed fun pass => entries pass ++ (List.range m.nodes.size).flatMap fun i =>
      (m.emits pass step i).map (i, ·) := by
  rw [Network.emitStep, Call.get_bind_ok_iff] at hm
  obtain ⟨⟨⟩, m₁, hloop, hn⟩ := Call.bind_ok_iff.mp hm
  have hall := Call.forM_range_induct
    (P := fun count (s : Network α) => m.Emitting step count s ∧ s.Placed fun pass =>
      entries pass ++ (List.range count).flatMap fun i => (m.emits pass step i).map (i, ·))
    ⟨.start sound step, by simpa using h⟩
    (fun i s s' _ hs hstep => by
      refine ⟨hs.1.next hstep, ?_⟩
      have hnext := hs.2.emitNode hs.1.recorded.sound hstep
      simp only [hs.1.emissions.emits, List.append_assoc] at hnext
      simpa only [List.range_succ, List.flatMap_append, List.flatMap_singleton] using hnext) hloop
  obtain rfl := Call.modify_ok_iff.mp hn
  exact ⟨hall.2.size, hall.2.positions⟩

theorem Placed.emitAll (h : m.Placed fun _ => []) (sound : m.backend.Sound)
    (rewound : ∀ t ∈ m.tensors, t.cursor = 0) (hm : emitAll m = .ok ⟨⟩ n) :
    n.Placed m.timetable := by
  rw [Network.emitAll, Call.get_bind_ok_iff] at hm
  obtain ⟨⟨⟩, m₁, hloop, hn⟩ := Call.bind_ok_iff.mp hm
  have hall := Call.forM_range_induct
    (P := fun steps (s : Network α) => m.Unrolling steps s ∧ s.Placed (m.timetableUpTo steps))
    ⟨.start sound rewound, m.timetableUpTo_zero ▸ h⟩
    (fun steps s s' _ hs hstep => by
      refine ⟨hs.1.next hstep, ?_⟩
      have hnext := hs.2.emitStep hs.1.recorded.sound hstep
      have hsize : s.nodes.size = m.nodes.size := hs.1.emissions.size_nodes
      simp only [hs.1.emissions.emits, hsize] at hnext
      rwa [timetableUpTo_succ]) hloop
  obtain rfl := Call.modify_ok_iff.mp hn
  exact ⟨hall.2.size, hall.2.positions⟩

/-! ### How many requests there are -/

theorem length_positionsIn (entries : List (Nat × Request α)) (i : Nat) :
    (positionsIn entries i).length = entries.countP (·.1 == i) :=
  List.length_findIdxs

/-- Each turn of an operator adds what it emits there. -/
theorem length_positionsIn_succ {i : Nat} (hi : i < n.nodes.size) (steps : Nat) (pass : Pass) :
    (positionsIn (n.timetableUpTo (steps + 1) pass) i).length =
      (positionsIn (n.timetableUpTo steps pass) i).length +
        ((n.atStep steps).emits pass steps i).length := by
  have hturn : ∀ count, ((List.range count).flatMap fun j =>
      ((n.atStep steps).emits pass steps j).map (j, ·)).countP (·.1 == i) =
        if i < count then ((n.atStep steps).emits pass steps i).length else 0 := by
    intro count
    induction count with
    | zero => rfl
    | succ count ih =>
      rw [List.range_succ, List.flatMap_append, List.flatMap_singleton, List.countP_append, ih,
        List.countP_map]
      obtain hlt | rfl | hgt := lt_trichotomy i count
      · simp [hlt, Nat.lt_succ_of_lt hlt, Function.comp_def, hlt.ne']
      · simp [Function.comp_def]
      · simp [Nat.not_lt.mpr hgt.le, Nat.not_lt.mpr (Nat.succ_le_of_lt hgt), Function.comp_def,
          hgt.ne]
  rw [timetableUpTo_succ, length_positionsIn, length_positionsIn, List.countP_append, hturn,
    if_pos hi]

/-! ### The timetable of a compiled network -/

/-- The requests of an operator at a step, for its tensors in a compiled network with all cursors
at the step; it may have been given scratch. -/
def Asks (n m : Network α) (node : Node α) (step : Nat) (e : Emission α) : Prop :=
  ∃ (ids : List TensorId) (inputs scratch : List Tensor) (out : Tensor),
    (∀ x ∈ ids, n.tensors.size ≤ x.index) ∧
      node.inputs.mapM (m.atStep step).tensor = .ok inputs ∧
      ids.mapM (m.atStep step).tensor = .ok scratch ∧
      (m.atStep step).tensor node.output = .ok out ∧ out.cursor = step ∧
      node.op.emit inputs out scratch = .ok e

/-- What the operator at an index does for the lists of a compiled network; `node` and `output` are
the operator and its output before compilation. -/
structure Timed (n m : Network α) (i : Nat) (node : Node α) (output : Tensor) : Prop where
  answer : m.operatorDispatches ⟨i⟩ =
    .ok (positionsIn (m.timetable .forward) i, positionsIn (m.timetable .backward) i)
  works : ∀ step, node.timeOffset ≤ step → step < output.sequence →
    ∃ e, Asks n m node step e ∧ ∀ pass, (m.atStep step).emits pass step i = e.get pass
  rests : ∀ step, step < node.timeOffset ∨ output.sequence ≤ step →
    ∀ pass, (m.atStep step).emits pass step i = []
  count : node.op ≠ .copyInit → ∀ pass, (positionsIn (m.timetable pass) i).length =
    (output.sequence - node.timeOffset) * node.op.requestCount pass
  count_first : node.op = .copyInit → ∀ pass, (positionsIn (m.timetable pass) i).length =
    if node.timeOffset = 0 then node.op.requestCount pass else 0

theorem Outline.sequence_pos {b : Backend α} {i : Nat} {t : Tensor} (hn : Outline b n)
    (ht : n.tensors[i]? = some t) : 0 < t.sequence :=
  (hn.tensors i t.plain (by rw [plain_getElem?, ht, Option.map_some])).1.sequence

section

variable [Zero α] {b : Backend α} {batch i : Nat} {node : Node α} {output : Tensor}
  (hn : Outline b n) (h : Compiled n m batch) (hi : n.nodes[i]? = some node)
  (ho : n.tensors[node.output.index]? = some output)

include h ho

theorem Compiled.output_atStep (step : Nat) : ∃ out,
    (m.atStep step).tensor node.output = .ok out ∧ out.sequence = output.sequence ∧
      (step < output.sequence → out.cursor = step) := by
  obtain ⟨t, ht, hs⟩ := h.tensor _ output ho
  rw [batchTensor_eq] at hs
  refine ⟨t.atStep step, atStep_tensor_ok_iff.mpr ⟨t, ht, rfl⟩, by rw [hs]; rfl, fun hlt => ?_⟩
  rw [hs]
  exact Nat.mod_eq_of_lt hlt

include hn

theorem Compiled.sequence_le : output.sequence ≤ m.maxSequence := by
  have hplain : n.plain[node.output.index]? = some output.plain := by
    rw [plain_getElem?, ho, Option.map_some]
  rw [h.longest]
  exact (hn.tensors _ _ hplain).2.2

include hi

theorem Compiled.works {step : Nat} (hk : node.timeOffset ≤ step) (hs : step < output.sequence) :
    ∃ e, Asks n m node step e ∧ ∀ pass, (m.atStep step).emits pass step i = e.get pass := by
  obtain ⟨node', hi'⟩ : ∃ node', m.nodes[i]? = some node' := by
    refine ⟨_, Array.getElem?_eq_getElem ?_⟩
    rw [h.size_nodes]
    exact (Array.getElem?_eq_some_iff.mp hi).1
  obtain ⟨node'', hi'', hop, hin, hout, hoff, hids, -⟩ := h.expanded.origin hi'
  rw [hi] at hi''
  cases hi''
  obtain ⟨out, ht, hseq, hcursor⟩ := h.output_atStep ho step
  obtain ⟨e, he⟩ := h.emits step (hs.trans_le (h.sequence_le hn ho)) i node' hi'
  have hactive : Node.isActive node' out step := by
    simp [Node.isActive, hseq, hs, hoff, hk]
  refine ⟨e, ?_, fun pass => ?_⟩
  · simp only [Network.emission, hout, ht, Except.bind_ok_iff, Except.ok.injEq, exists_eq_left',
      hactive, if_true, hin, hop] at he
    obtain ⟨inputs, hinputs, scratch, hscratch, he⟩ := he
    exact ⟨node'.scratch, inputs, scratch, out, hids, hinputs, hscratch, ht, hcursor hs, he⟩
  · have hnode : (m.atStep step).nodes[i]? = some node' := hi'
    simp only [Network.emits, hnode, he]

omit hn in
theorem Compiled.rests {step : Nat} (hr : step < node.timeOffset ∨ output.sequence ≤ step)
    (pass : Pass) : (m.atStep step).emits pass step i = [] := by
  unfold Network.emits
  have hnodes : (m.atStep step).nodes = m.nodes := rfl
  rw [hnodes]
  cases hi' : m.nodes[i]? with
  | none => rfl
  | some node' =>
    obtain ⟨node'', hi'', -, -, hout, hoff, -⟩ := h.expanded.origin hi'
    rw [hi] at hi''
    cases hi''
    obtain ⟨out, ht, hseq, -⟩ := h.output_atStep ho step
    have hinactive : Node.isActive node' out step = false := by
      simp only [Node.isActive, hseq, hoff, Bool.and_eq_false_iff, decide_eq_false_iff_not]
      omega
    have he : (m.atStep step).emission node' step = .ok {} := by
      rw [Network.emission, Except.bind_ok_iff]
      exact ⟨out, hout ▸ ht, by simp only [hinactive]; rfl⟩
    simp only [he]
    cases pass <;> rfl

theorem Compiled.length_emits (step : Nat) (pass : Pass) :
    ((m.atStep step).emits pass step i).length =
      if node.timeOffset ≤ step ∧ step < output.sequence then node.op.countAt pass step else 0 := by
  by_cases hw : node.timeOffset ≤ step ∧ step < output.sequence
  · obtain ⟨e, ⟨_, _, _, out, -, -, -, -, hcursor, he⟩, hemits⟩ := h.works hn hi ho hw.1 hw.2
    rw [if_pos hw, hemits, Operator.emit_length he, hcursor]
  · rw [if_neg hw, h.rests hi ho (by omega), List.length_nil]

theorem Compiled.length_upTo (hop : node.op.place ≠ .timestep 0) (pass : Pass) (steps : Nat) :
    (positionsIn (m.timetableUpTo steps pass) i).length =
      (min steps output.sequence - node.timeOffset) * node.op.requestCount pass := by
  have hlt : i < m.nodes.size := h.size_nodes ▸ (Array.getElem?_eq_some_iff.mp hi).1
  induction steps with
  | zero => simp [timetableUpTo_zero, positionsIn]
  | succ steps ih =>
    have hcount : node.op.countAt pass steps = node.op.requestCount pass :=
      if_neg fun hc => hop hc.1
    rw [length_positionsIn_succ hlt, ih, h.length_emits hn hi ho, hcount]
    split
    · rw [show min (steps + 1) output.sequence - node.timeOffset =
        (min steps output.sequence - node.timeOffset) + 1 by omega, Nat.succ_mul]
    · rw [show min (steps + 1) output.sequence - node.timeOffset =
        min steps output.sequence - node.timeOffset by omega, Nat.add_zero]

theorem Compiled.length_upTo_first (hop : node.op.place = .timestep 0) (pass : Pass) (steps : Nat) :
    (positionsIn (m.timetableUpTo steps pass) i).length =
      if node.timeOffset = 0 ∧ 0 < steps then node.op.requestCount pass else 0 := by
  have hlt : i < m.nodes.size := h.size_nodes ▸ (Array.getElem?_eq_some_iff.mp hi).1
  have hpos : 0 < output.sequence := hn.sequence_pos ho
  induction steps with
  | zero => simp [timetableUpTo_zero, positionsIn]
  | succ steps ih =>
    rw [length_positionsIn_succ hlt, ih, h.length_emits hn hi ho, Operator.countAt]
    obtain rfl | hs := Nat.eq_zero_or_pos steps
    · simp [hpos]
    · simp [hop, hs, hs.ne']

end

/-! ### Networks before compilation -/

/-- No operator has dispatches. -/
def Unrecorded (n : Network α) : Prop := ∀ node ∈ n.nodes, unlisted node = node

theorem Unrecorded.register (h : n.Unrecorded) (op : Operator α) (inputs : List TensorId)
    (output : TensorId) (timeOffset : Nat) {k : Network α}
    (hk : k.nodes = n.nodes.push { op, inputs, output, timeOffset }) : k.Unrecorded := by
  intro node hnode
  rw [hk] at hnode
  obtain hnode | rfl := Array.mem_push.mp hnode
  · exact h node hnode
  · rfl

theorem Unrecorded.same {k : Network α} (h : n.Unrecorded) (hs : n.SameGraph k) :
    k.Unrecorded := by
  obtain ⟨_, _, _, -, -, rfl⟩ := hs
  exact h

theorem Unrecorded.create {kind : TensorKind} {shape : Shape} {sequence : Nat}
    (h : n.Unrecorded) : (Call.after (Network.create kind shape sequence) n).Unrecorded := by
  refine Call.after_induct h (fun e m he => create_error he) fun id m hm => ?_
  obtain ⟨-, -, -, rfl⟩ := create_ok_iff.mp hm
  exact h

theorem Unrecorded.perform (h : n.Unrecorded) (c : BuildingCall α) :
    (c.perform n).Unrecorded := by
  cases c with
  | createInput shape sequence => exact h.create
  | createState shape sequence => exact h.create
  | createParameter shape sequence => exact h.create
  | addOperator op inputs timeOffset =>
    refine Call.after_induct h (fun e m he => addOperator_error he) fun id m hm => ?_
    obtain ⟨-, -, _, _, _, -, -, -, rfl⟩ := addOperator_ok hm
    exact h.register op inputs id timeOffset rfl
  | nameTensor id name => exact h.same (nameTensor_same n id name)
  | setOptimizer o => exact h.same (setOptimizer_same n o)
  | initWeight target init => exact h.same (initWeight_same n target init)

variable {b : Backend α} {config : NetworkConfig} {batch : Nat}

theorem Assembled.unrecorded (hn : Assembled (Network.new b config) n) : n.Unrecorded := by
  induction hn with
  | start => exact fun node hnode => absurd hnode (by simp [Network.new])
  | call c _ ih => exact ih.perform c
  | operatorInto op inputs result timeOffset _ ih =>
    refine Call.after_induct ih (fun e m he => addOperatorInto_error he) fun id m hm => ?_
    obtain ⟨-, -, _, _, _, -, -, -, -, rfl⟩ := addOperatorInto_ok hm
    exact ih.register op inputs result timeOffset rfl

theorem Planned.placed [Zero α] {m₂ m₃ : Network α} (hn : Outline b n) (idle : b.Idle)
    (unrecorded : n.Unrecorded) (hp : Planned n m₂ batch) (h₃ : instantiateAll m₂ = .ok ⟨⟩ m₃) :
    m₃.Placed fun _ => [] := by
  have hinst := instantiateAll_ok (fun i t ht => (hp.sound hn ht).sequence) h₃
  refine ⟨fun pass => ?_, fun i node hi pass => ?_⟩
  · rw [(hp.ready hn idle h₃).1.dispatches]
    cases pass <;> rfl
  · rw [hinst.same] at hi
    have hlt : i < n.nodes.size := hp.size_nodes ▸ (Array.getElem?_eq_some_iff.mp hi).1
    obtain ⟨ids, -, hnode, -⟩ := hp.node i _ (Array.getElem?_eq_getElem hlt)
    rw [hi, Option.some.injEq] at hnode
    have hbare := unrecorded _ (Array.getElem_mem hlt)
    rw [hnode, ← hbare]
    cases pass <;> rfl

section

variable [Scalar α]

theorem compile_placed (hn : Outline b n) (idle : b.Idle) (unrecorded : n.Unrecorded)
    (h : compile batch n = .ok ⟨⟩ m) (i : Nat) (node : Node α) (hi : m.nodes[i]? = some node)
    (pass : Pass) : node.positions pass = positionsIn (m.timetable pass) i := by
  obtain ⟨-, m₂, m₃, m₄, m₅, m₆, m₇, -, -, hplan, h₃, h₄, hun, hm₅, hrec, h₆, h₇, rfl⟩ :=
    compile_stages hn idle h
  obtain ⟨hidle, hrewound⟩ := hplan.ready hn idle h₃
  have hplaced := (hplan.placed hn idle unrecorded h₃).emitAll hidle.sound hrewound h₄
  obtain ⟨hm₆, -⟩ := clearAll_ok h₆
  obtain ⟨hm₇, -⟩ := drawInitials_ok (A := fun _ => True) (fun _ _ _ _ _ _ _ _ => trivial) h₇
  have hnodes : m₇.nodes = m₄.nodes := by rw [hm₇, hm₆, hm₅]
  have hsame : m₃.SameEmissions m₇ := ⟨by rw [hm₇, hm₆, hm₅, hun.same], hnodes ▸ hun.nodes⟩
  have hlong : m₇.maxSequence = m₃.maxSequence := by rw [hm₇, hm₆, hm₅, hun.same]
  have htable : Network.timetable { m₇ with stage := .compiled } pass = m₃.timetable pass := by
    change m₇.timetable pass = m₃.timetable pass
    unfold timetable timetableUpTo
    simp only [hlong, hsame.size_nodes, (hsame.atStep _).emits]
  rw [htable]
  exact hplaced.positions i node (hnodes ▸ hi) pass

/-- The lists of a compiled network hold, for each unroll step and then for each operator, what the
operator asks for there, and every operator knows which of the dispatches are its own. -/
theorem Assembled.compile_timed (hn : Assembled (Network.new b config) n) (idle : b.Idle)
    (h : compile batch n = .ok ⟨⟩ m) :
    (m.maxSequence = n.maxSequence ∧ m.nodes.size = n.nodes.size) ∧
      (∀ pass, pass ≠ .update →
        List.Forall₂ m.backend.Implements ((m.timetable pass).map (·.2))
          (m.backend.dispatches.get pass).toList ∧
        ∀ k < (m.backend.dispatches.get pass).size,
          ∃! i, i < n.nodes.size ∧ k ∈ positionsIn (m.timetable pass) i) ∧
      (∀ pass i, (positionsIn (m.timetable pass) i).Pairwise (· < ·)) ∧
      ∀ i node output, n.nodes[i]? = some node → n.tensors[node.output.index]? = some output →
        Timed n m i node output := by
  have hout := hn.outline
  have idle' : Backend.Idle { b with validation := config.validate } :=
    ⟨idle.dispatches, idle.sound⟩
  have hc := compile_ok hout idle' h
  have hlists : ∀ pass, pass ≠ .update →
      List.Forall₂ m.backend.Implements ((m.timetable pass).map (·.2))
        (m.backend.dispatches.get pass).toList := by
    intro pass hpass
    have hl := hc.lists pass
    rwa [if_neg hpass, List.append_nil, ← timetable_requests] at hl
  refine ⟨⟨hc.longest, hc.size_nodes⟩, fun pass hpass => ⟨hlists pass hpass, fun k hk => ?_⟩,
    fun pass i => List.pairwise_findIdxs, fun i node output hi ho => ?_⟩
  · have hlen : (m.timetable pass).length = (m.backend.dispatches.get pass).size := by
      rw [← Array.length_toList, ← (hlists pass hpass).length_eq, List.length_map]
    have hget : (m.timetable pass)[k]? = some (m.timetable pass)[k] :=
      List.getElem?_eq_getElem (hlen ▸ hk)
    refine ⟨(m.timetable pass)[k].1, ⟨?_, mem_positionsIn.mpr (by rw [hget]; rfl)⟩, ?_⟩
    · rw [← hc.size_nodes]
      exact lt_of_mem_timetable (List.getElem_mem _)
    · rintro i ⟨-, hi⟩
      rw [mem_positionsIn, hget] at hi
      exact (Option.some.inj hi).symm
  · have hplaced := compile_placed hout idle' hn.unrecorded h
    obtain ⟨node', hi'⟩ : ∃ node', m.nodes[i]? = some node' := by
      refine ⟨_, Array.getElem?_eq_getElem ?_⟩
      rw [hc.size_nodes]
      exact (Array.getElem?_eq_some_iff.mp hi).1
    refine
      { answer := ?_
        works := fun step => hc.works hout hi ho
        rests := fun step hr => hc.rests hi ho hr
        count := fun hop pass => ?_
        count_first := fun hop pass => ?_ }
    · rw [operatorDispatches, hi', ← hplaced i node' hi' .forward, ← hplaced i node' hi' .backward]
      rfl
    · have hplace : node.op.place ≠ .timestep 0 := by
        cases hop' : node.op <;> simp_all [Operator.place]
      rw [timetable, hc.length_upTo hout hi ho hplace, min_eq_right (hc.sequence_le hout ho)]
    · have hlong : 0 < m.maxSequence :=
        (hout.sequence_pos ho).trans_le (hc.sequence_le hout ho)
      rw [timetable, hc.length_upTo_first hout hi ho (by rw [hop]; rfl)]
      simp only [hlong, and_true]

end

/-- A state over three timesteps, of which the first is copied from an input and the others from a
rectifier that starts one step late. -/
def staggeredNetwork : Network Binary32 :=
  Call.after (addOperatorInto (.copy 1) [⟨2⟩] ⟨1⟩ 0) <|
    Call.after (addOperatorInto .copyInit [⟨0⟩] ⟨1⟩ 0) <|
      (Network.new Backend.host {}).draft
        [.createInput ⟨2, 1, 1, 1⟩ 1, .createState ⟨2, 1, 1, 1⟩ 3,
          .addOperator (.activation .relu) [⟨1⟩] 1]

set_option maxRecDepth 100000 in
theorem staggeredNetwork_timed : ∃ m node output, compile 2 staggeredNetwork = .ok ⟨⟩ m ∧
    node.op = .activation .relu ∧ node.timeOffset = 1 ∧ output.sequence = 3 ∧
      Timed staggeredNetwork m 0 node output := by
  have hm : compile 2 staggeredNetwork = .ok ⟨⟩ (Call.after (compile 2) staggeredNetwork) :=
    Call.ok_of_isOk (by decide +kernel)
  have hbuilt : Assembled (Network.new Backend.host {}) staggeredNetwork :=
    ((Assembled.start.draft _).operatorInto _ _ _ _).operatorInto _ _ _ _
  have htimed := (Assembled.compile_timed hbuilt Backend.host_idle hm).2.2.2
  exact ⟨_, _, _, hm, rfl, rfl, rfl, htimed 0 _ _ rfl rfl⟩

end Network

end Backprop
