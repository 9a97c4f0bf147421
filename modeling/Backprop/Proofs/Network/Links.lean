import Mathlib
import Backprop.Proofs.Network.Outline

/-! What tensors note of the operators: the first that writes them, and all that read them. The
notes agree with the list of operators after any calls that build a network. -/

namespace Backprop

variable {α : Type}

theorem Tensor.withConsumer_withConsumer (t : Tensor) (op : OperatorId) :
    (t.withConsumer op).withConsumer op = t.withConsumer op := by
  unfold Tensor.withConsumer
  by_cases h : op ∈ t.consumers
  · simp [h]
  · simp [h]

def Tensor.registered (t : Tensor) (node : Node α) (op : OperatorId) (id : TensorId) : Tensor :=
  let read := if id ∈ node.inputs then t.withConsumer op else t
  if node.output = id then { read with timeOffset := node.timeOffset }.withProducer op else read

section

variable (t : Tensor) (node : Node α) (op : OperatorId) (id : TensorId)

theorem Tensor.withConsumer_eq : t.withConsumer op =
    { t with consumers := if op ∈ t.consumers then t.consumers else t.consumers ++ [op] } := by
  unfold Tensor.withConsumer
  split <;> rfl

theorem Tensor.registered_kind : (t.registered node op id).kind = t.kind := by
  by_cases hin : id ∈ node.inputs <;> by_cases hout : node.output = id <;>
    simp [registered, withProducer, withConsumer_eq, hin, hout]

theorem Tensor.registered_sequence : (t.registered node op id).sequence = t.sequence := by
  by_cases hin : id ∈ node.inputs <;> by_cases hout : node.output = id <;>
    simp [registered, withProducer, withConsumer_eq, hin, hout]

theorem Tensor.registered_producer : (t.registered node op id).producer =
    (t.producer <|> if node.output = id then some op else none) := by
  by_cases hin : id ∈ node.inputs <;> by_cases hout : node.output = id <;>
    simp [registered, withProducer, withConsumer_eq, hin, hout]

theorem Tensor.registered_consumers (h : op ∉ t.consumers) :
    (t.registered node op id).consumers =
      t.consumers ++ if id ∈ node.inputs then [op] else [] := by
  by_cases hin : id ∈ node.inputs <;> by_cases hout : node.output = id <;>
    simp [registered, withProducer, withConsumer_eq, hin, hout, h]

end

namespace Network

def firstWriter (nodes : Array (Node α)) (id : TensorId) : Option OperatorId :=
  (nodes.findIdx? (·.output = id)).map (⟨·⟩)

def readers (nodes : Array (Node α)) (id : TensorId) : List OperatorId :=
  ((List.range nodes.size).filter fun k => nodes[k]?.any (id ∈ ·.inputs)).map (⟨·⟩)

theorem firstWriter_push (nodes : Array (Node α)) (node : Node α) (id : TensorId) :
    firstWriter (nodes.push node) id =
      (firstWriter nodes id <|> if node.output = id then some ⟨nodes.size⟩ else none) := by
  unfold firstWriter
  rw [Array.findIdx?_push]
  cases nodes.findIdx? (·.output = id) with
  | some k => rfl
  | none =>
    by_cases h : node.output = id
    · simp [h]
    · simp [h]

theorem readers_push (nodes : Array (Node α)) (node : Node α) (id : TensorId) :
    readers (nodes.push node) id =
      readers nodes id ++ if id ∈ node.inputs then [⟨nodes.size⟩] else [] := by
  have hold : ∀ k ∈ List.range nodes.size,
      (nodes.push node)[k]?.any (id ∈ ·.inputs) = nodes[k]?.any (id ∈ ·.inputs) := by
    intro k hk
    rw [Array.getElem?_push, if_neg (List.mem_range.mp hk).ne]
  unfold readers
  rw [Array.size_push, List.range_succ, List.filter_append, List.filter_congr hold, List.map_append]
  by_cases h : id ∈ node.inputs
  · simp [h]
  · simp [h]

theorem firstWriter_eq_none {nodes : Array (Node α)} {id : TensorId}
    (h : ∀ (k : Nat) (node : Node α), nodes[k]? = some node → node.output ≠ id) :
    firstWriter nodes id = none := by
  rw [firstWriter, Option.map_eq_none_iff, Array.findIdx?_eq_none_iff]
  intro node hnode
  obtain ⟨k, hk⟩ := Array.mem_iff_getElem?.mp hnode
  simpa using h k node hk

theorem readers_eq_nil {nodes : Array (Node α)} {id : TensorId}
    (h : ∀ (k : Nat) (node : Node α), nodes[k]? = some node → id ∉ node.inputs) :
    readers nodes id = [] := by
  rw [readers, List.map_eq_nil_iff, List.filter_eq_nil_iff]
  intro k _
  cases hk : nodes[k]? with
  | none => simp
  | some node => simpa using h k node hk

theorem lt_of_mem_readers {nodes : Array (Node α)} {id : TensorId} {op : OperatorId}
    (h : op ∈ readers nodes id) : op.index < nodes.size := by
  obtain ⟨k, hk, rfl⟩ := List.mem_map.mp h
  exact List.mem_range.mp (List.mem_filter.mp hk).1

theorem foldl_withConsumer_getElem? (op : OperatorId) (inputs : List TensorId) (ts : Array Tensor)
    (i : Nat) : (inputs.foldl (fun ts x => ts.modify x.index (·.withConsumer op)) ts)[i]? =
      ts[i]?.map fun t => if ⟨i⟩ ∈ inputs then t.withConsumer op else t := by
  induction inputs generalizing ts with
  | nil => simp
  | cons x inputs ih =>
    rw [List.foldl_cons, ih, Array.getElem?_modify]
    obtain ⟨j⟩ := x
    by_cases hj : j = i
    · subst hj
      cases ts[j]? with
      | none => simp
      | some t =>
        by_cases hmem : ⟨j⟩ ∈ inputs
        · simp [hmem, Tensor.withConsumer_withConsumer]
        · simp [hmem]
    · have hne : (⟨i⟩ : TensorId) ≠ ⟨j⟩ := fun he => hj (TensorId.mk.inj he).symm
      simp [hj, hne]

/-- The notes on the tensors are those that the operators call for. -/
structure Wired (n : Network α) : Prop where
  joins : ∀ (k : Nat) (node : Node α), n.nodes[k]? = some node →
    (∀ x ∈ node.inputs, x.index < n.tensors.size) ∧ node.output.index < n.tensors.size
  producer : ∀ (i : Nat) (t : Tensor), n.tensors[i]? = some t →
    t.producer = firstWriter n.nodes ⟨i⟩
  consumers : ∀ (i : Nat) (t : Tensor), n.tensors[i]? = some t →
    t.consumers = readers n.nodes ⟨i⟩
  longest : n.maxSequence = (n.tensors.map (·.sequence)).foldl max 1

/-- An intermediate tensor has come with the operator that writes it first, and this one reads
only tensors from before. -/
structure Linked (n : Network α) : Prop extends Wired n where
  created : ∀ (i : Nat) (t : Tensor), n.tensors[i]? = some t → t.kind = .intermediate →
    ∃ k node, firstWriter n.nodes ⟨i⟩ = some ⟨k⟩ ∧ n.nodes[k]? = some node ∧ node.output = ⟨i⟩ ∧
      ∀ x ∈ node.inputs, x.index < i

variable {b : Backend α} {config : NetworkConfig} {n n' m : Network α}

theorem Linked.new (b : Backend α) (config : NetworkConfig) : (Network.new b config).Linked where
  joins k node h := by simp [Network.new] at h
  producer i t h := by simp [Network.new] at h
  consumers i t h := by simp [Network.new] at h
  longest := by simp [Network.new]
  created i t h := by simp [Network.new] at h

theorem Wired.unwritten (h : n.Wired) : firstWriter n.nodes ⟨n.tensors.size⟩ = none := by
  refine firstWriter_eq_none fun k node hk he => ?_
  have hlt := (h.joins k node hk).2
  rw [he] at hlt
  exact lt_irrefl _ hlt

theorem Wired.unread (h : n.Wired) : readers n.nodes ⟨n.tensors.size⟩ = [] :=
  readers_eq_nil fun k node hk he => lt_irrefl _ ((h.joins k node hk).1 _ he)

theorem Wired.create {kind : TensorKind} {shape : Shape} {sequence : Nat} {id : TensorId}
    (h : n.Wired) (hc : create kind shape sequence n = .ok id n') : n'.Wired := by
  obtain ⟨-, -, -, rfl⟩ := create_ok_iff.mp hc
  refine ⟨fun k node hk => ?_, fun i t ht => ?_, fun i t ht => ?_, ?_⟩
  · obtain ⟨hin, hout⟩ := h.joins k node hk
    rw [Array.size_push]
    exact ⟨fun x hx => Nat.lt_succ_of_lt (hin x hx), Nat.lt_succ_of_lt hout⟩
  · rw [Array.getElem?_push] at ht
    split at ht
    · next hi =>
      cases ht
      rw [hi, h.unwritten]
      rfl
    · exact h.producer i t ht
  · rw [Array.getElem?_push] at ht
    split at ht
    · next hi =>
      cases ht
      rw [hi, h.unread]
      rfl
    · exact h.consumers i t ht
  · rw [Array.map_push, Array.foldl_push, ← h.longest]
    rfl

theorem link_getElem? {op : Operator α} {inputs : List TensorId} {output : TensorId} {k : Nat}
    {u : PUnit} (hl : link op inputs output k n = .ok u n') (i : Nat) :
    n'.tensors[i]? = n.tensors[i]?.map
      (·.registered { op, inputs, output, timeOffset := k } ⟨n.nodes.size⟩ ⟨i⟩) := by
  rw [link_eq] at hl
  cases hl
  simp only [Array.getElem?_modify, foldl_withConsumer_getElem?]
  obtain ⟨o⟩ := output
  by_cases ho : o = i
  · subst ho
    cases n.tensors[o]? with
    | none => simp
    | some t => simp [Tensor.registered]
  · have hne : (⟨o⟩ : TensorId) ≠ ⟨i⟩ := fun he => ho (TensorId.mk.inj he)
    simp [ho, hne, Tensor.registered]

theorem Wired.link {op : Operator α} {inputs : List TensorId} {output : TensorId} {k : Nat}
    {u : PUnit} (h : n.Wired) (hin : ∀ x ∈ inputs, x.index < n.tensors.size)
    (hout : output.index < n.tensors.size) (hl : link op inputs output k n = .ok u n') :
    n'.Wired := by
  have hget := link_getElem? hl
  obtain ⟨ts, hts, hplain⟩ := link_ok (n := n) op inputs output k
  rw [hts] at hl
  cases hl
  have hsize : ts.size = n.tensors.size := by
    have hsizes := congrArg Array.size hplain
    simpa [Network.plain] using hsizes
  refine ⟨fun j node hj => ?_, fun i t ht => ?_, fun i t ht => ?_, ?_⟩
  · rw [Array.getElem?_push] at hj
    rw [hsize]
    split at hj
    · cases hj
      exact ⟨hin, hout⟩
    · exact h.joins j node hj
  · rw [hget, Option.map_eq_some_iff] at ht
    obtain ⟨t, ht, rfl⟩ := ht
    rw [Tensor.registered_producer, h.producer i t ht, firstWriter_push]
  · rw [hget, Option.map_eq_some_iff] at ht
    obtain ⟨t, ht, rfl⟩ := ht
    have hnew : ⟨n.nodes.size⟩ ∉ t.consumers := by
      rw [h.consumers i t ht]
      exact fun hmem => lt_irrefl _ (lt_of_mem_readers hmem)
    rw [Tensor.registered_consumers _ _ _ _ hnew, h.consumers i t ht, readers_push]
  · have hsequences : ts.map (·.sequence) = n.tensors.map (·.sequence) := by
      refine Array.ext_getElem? fun i => ?_
      simp only [Array.getElem?_map, hget, Option.map_map, Function.comp_def,
        Tensor.registered_sequence]
    rw [hsequences]
    exact h.longest

theorem Linked.create {kind : TensorKind} {shape : Shape} {sequence : Nat} (h : n.Linked)
    (hk : kind ≠ .intermediate) : (Call.after (create kind shape sequence) n).Linked := by
  refine Call.after_induct h (fun e m he => create_error he) fun id m hm => ?_
  refine { h.toWired.create hm with created := fun i t ht hkind => ?_ }
  obtain ⟨-, -, -, rfl⟩ := create_ok_iff.mp hm
  rw [Array.getElem?_push] at ht
  split at ht
  · cases ht
    exact absurd hkind hk
  · exact h.created i t ht hkind

theorem created_push {nodes : Array (Node α)} {node : Node α} {i : Nat}
    (h : ∃ k a, firstWriter nodes ⟨i⟩ = some ⟨k⟩ ∧ nodes[k]? = some a ∧ a.output = ⟨i⟩ ∧
      ∀ x ∈ a.inputs, x.index < i) :
    ∃ k a, firstWriter (nodes.push node) ⟨i⟩ = some ⟨k⟩ ∧ (nodes.push node)[k]? = some a ∧
      a.output = ⟨i⟩ ∧ ∀ x ∈ a.inputs, x.index < i := by
  obtain ⟨k, a, hfirst, hk, ha⟩ := h
  have hlt := (Array.getElem?_eq_some_iff.mp hk).1
  refine ⟨k, a, ?_, ?_, ha⟩
  · rw [firstWriter_push, hfirst]
    rfl
  · rw [Array.getElem?_push, if_neg hlt.ne, hk]

theorem Takes.input_lt {op : Operator α} {inputs : List TensorId} {shape : Shape}
    (h : Takes n.plain op inputs shape) : ∀ x ∈ inputs, x.index < n.tensors.size := by
  intro x hx
  have hlt := h.lt hx
  rwa [Network.plain, Array.size_map] at hlt

theorem Linked.addOperator_ok {op : Operator α} {inputs : List TensorId} {k : Nat}
    {id : TensorId} (h : n.Linked) (ha : addOperator op inputs k n = .ok id n') : n'.Linked := by
  obtain ⟨shape, bound, n₁, htakes, -, hcreate, hlink⟩ := addOperator_ok_iff.mp ha
  have hwired := h.toWired.create hcreate
  obtain ⟨-, -, rfl, rfl⟩ := create_ok_iff.mp hcreate
  have hin : ∀ x ∈ inputs, x.index < n.tensors.size := htakes.input_lt
  have hget := link_getElem? hlink
  refine { hwired.link (fun x hx => ?_) ?_ hlink with created := fun i t ht hkind => ?_ }
  · rw [Array.size_push]
    exact Nat.lt_succ_of_lt (hin x hx)
  · rw [Array.size_push]
    exact Nat.lt_succ_self _
  · rw [hget, Option.map_eq_some_iff] at ht
    obtain ⟨t, ht, rfl⟩ := ht
    rw [Tensor.registered_kind] at hkind
    rw [link_eq] at hlink
    cases hlink
    rw [Array.getElem?_push] at ht
    split at ht
    · next hi =>
      subst hi
      refine ⟨n.nodes.size, _, ?_, Array.getElem?_push_size, rfl, hin⟩
      rw [firstWriter_push, h.unwritten, if_pos rfl]
      rfl
    · exact created_push (h.created i t ht hkind)

theorem Linked.addOperator {op : Operator α} {inputs : List TensorId} {k : Nat} (h : n.Linked) :
    (Call.after (addOperator op inputs k) n).Linked :=
  Call.after_induct h (fun _ _ he => addOperator_error he) fun _ _ hm => h.addOperator_ok hm

theorem Linked.addOperatorInto {op : Operator α} {inputs : List TensorId} {result : TensorId}
    {k : Nat} (h : n.Linked) : (Call.after (addOperatorInto op inputs result k) n).Linked := by
  refine Call.after_induct h (fun e m he => addOperatorInto_error he) fun id m hm => ?_
  obtain ⟨-, rfl, ⟨shape, target, htakes, htarget, -⟩, hlink⟩ := addOperatorInto_ok_iff.mp hm
  have hout : id.index < n.tensors.size := by
    have hlt := (Array.getElem?_eq_some_iff.mp htarget).1
    rwa [Network.plain, Array.size_map] at hlt
  have hget := link_getElem? hlink
  refine { h.toWired.link htakes.input_lt hout hlink with created := fun i t ht hkind => ?_ }
  rw [hget, Option.map_eq_some_iff] at ht
  obtain ⟨t, ht, rfl⟩ := ht
  rw [Tensor.registered_kind] at hkind
  rw [link_eq] at hlink
  cases hlink
  exact created_push (h.created i t ht hkind)

theorem Linked.nameTensor {id : TensorId} {name : String} (h : n.Linked) :
    (Call.after (nameTensor id name) n).Linked := by
  refine Call.after_induct h (fun e m he => nameTensor_error he) fun u m hm => ?_
  rw [nameTensor_ok hm]
  have hget : ∀ (i : Nat) (t : Tensor),
      (n.tensors.modify id.index ({ · with name := some name }))[i]? = some t →
        ∃ old name', n.tensors[i]? = some old ∧ t = { old with name := name' } := by
    intro i t ht
    rw [Array.getElem?_modify] at ht
    split at ht
    · obtain ⟨old, hold, rfl⟩ := Option.map_eq_some_iff.mp ht
      exact ⟨old, _, hold, rfl⟩
    · exact ⟨t, t.name, ht, rfl⟩
  refine ⟨⟨fun k node hk => ?_, fun i t ht => ?_, fun i t ht => ?_, ?_⟩, fun i t ht hkind => ?_⟩
  · rw [Array.size_modify]
    exact h.joins k node hk
  · obtain ⟨old, name', hold, rfl⟩ := hget i t ht
    exact h.producer i old hold
  · obtain ⟨old, name', hold, rfl⟩ := hget i t ht
    exact h.consumers i old hold
  · have hsequences : (n.tensors.modify id.index ({ · with name := some name })).map (·.sequence) =
        n.tensors.map (·.sequence) := by
      refine Array.ext_getElem? fun i => ?_
      rw [Array.getElem?_map, Array.getElem?_modify, Array.getElem?_map]
      split
      · cases n.tensors[i]? <;> rfl
      · rfl
    rw [hsequences]
    exact h.longest
  · obtain ⟨old, name', hold, rfl⟩ := hget i t ht
    exact h.created i old hold hkind

theorem Linked.perform (h : n.Linked) (c : BuildingCall α) : (c.perform n).Linked := by
  cases c with
  | createInput shape sequence => exact h.create (by decide)
  | createState shape sequence => exact h.create (by decide)
  | createParameter shape sequence => exact h.create (by decide)
  | addOperator op inputs timeOffset => exact h.addOperator
  | nameTensor id name => exact h.nameTensor
  | setOptimizer o =>
    refine Call.after_induct h (fun e m he => setOptimizer_error he) fun u m hm => ?_
    rw [setOptimizer_ok hm]
    exact ⟨⟨h.joins, h.producer, h.consumers, h.longest⟩, h.created⟩
  | initWeight target init =>
    refine Call.after_induct h (fun e m he => initWeight_error he) fun u m hm => ?_
    rw [(initWeight_ok hm).2]
    exact ⟨⟨h.joins, h.producer, h.consumers, h.longest⟩, h.created⟩

theorem Assembled.linked_tensors (h : Assembled (Network.new b config) n) : n.Linked := by
  induction h with
  | start => exact Linked.new b config
  | call c _ ih => exact ih.perform c
  | operatorInto op inputs result timeOffset _ ih => exact ih.addOperatorInto

/-- An operator that has been added stays where it is. -/
theorem Assembled.nodes_stay (h : Assembled n m) {k : Nat} {node : Node α}
    (hk : n.nodes[k]? = some node) : m.nodes[k]? = some node := by
  obtain ⟨ts, more, long, o, inits, rfl⟩ := h.grown
  exact (Array.getElem?_append_left (Array.getElem?_eq_some_iff.mp hk).1).trans hk

/-- After any calls that build a network, what its tensors note agrees with the list of its
operators; a call that fails leaves the network as it was, and an operator with an output of its
own reads only tensors that were there before it. -/
theorem Assembled.linked (built : Assembled (Network.new b config) n) :
    n.Linked ∧
      ((∀ kind shape sequence,
          Call.Atomic (Network.create kind shape sequence : Call α TensorId)) ∧
        (∀ id name, Call.Atomic (Network.nameTensor id name : Call α Unit)) ∧
        (∀ op inputs timeOffset,
          Call.Atomic (Network.addOperator op inputs timeOffset : Call α TensorId)) ∧
        (∀ op inputs result timeOffset,
          Call.Atomic (Network.addOperatorInto op inputs result timeOffset : Call α TensorId)) ∧
        (∀ o, Call.Atomic (Network.setOptimizer o : Call α Unit)) ∧
        ∀ target init, Call.Atomic (Network.initWeight target init : Call α Unit)) ∧
      ∀ op inputs timeOffset id n', addOperator op inputs timeOffset n = .ok id n' →
        id = ⟨n.tensors.size⟩ ∧ (∀ x ∈ inputs, x.index < id.index) ∧
          ∀ m, Assembled n' m →
            m.nodes[n.nodes.size]? = some { op, inputs, output := id, timeOffset } := by
  refine ⟨built.linked_tensors, ⟨fun kind shape sequence s s' e h => (create_error h).symm,
    fun id name s s' e h => (nameTensor_error h).symm,
    fun op inputs timeOffset s s' e h => (addOperator_error h).symm,
    fun op inputs result timeOffset s s' e h => (addOperatorInto_error h).symm,
    fun o s s' e h => (setOptimizer_error h).symm,
    fun target init s s' e h => (initWeight_error h).symm⟩,
    fun op inputs timeOffset id n' h => ?_⟩
  obtain ⟨-, rfl, ts, shape, sequence, htakes, -, -, rfl⟩ := addOperator_ok h
  exact ⟨rfl, htakes.input_lt, fun m hm => hm.nodes_stay Array.getElem?_push_size⟩

/-- A sum that reads its input twice, then is copied into a state that the next sum reads. -/
def doubledInput : Network Binary32 :=
  Call.after (addOperatorInto (.copy 1) [⟨2⟩] ⟨1⟩ 0) <|
    (Network.new Backend.host {}).draft
      [.createInput ⟨2, 1, 1, 1⟩ 3, .createState ⟨2, 1, 1, 1⟩ 0, .addOperator (.add 0) [⟨0⟩, ⟨0⟩] 0,
        .addOperator (.add 0) [⟨1⟩, ⟨7⟩] 0, .addOperator (.add 0) [⟨1⟩, ⟨0⟩] 0]

theorem doubledInput_linked : doubledInput.Linked ∧ doubledInput.maxSequence = 3 ∧
    doubledInput.tensors.toList.map (fun t => (t.producer, t.consumers)) =
      [(none, [⟨0⟩, ⟨1⟩]), (some ⟨2⟩, [⟨1⟩]), (some ⟨0⟩, [⟨2⟩]), (some ⟨1⟩, [])] :=
  ⟨(Assembled.linked (.operatorInto _ _ _ _ (Assembled.start.draft _))).1, by decide +kernel,
    by decide +kernel⟩

end Network

end Backprop
