import Mathlib
import Backprop.Proofs.Tensor
import Backprop.Proofs.Network.Construction

/-! Networks under construction. Every operator either has an output of its own, later than
everything read before it, or feeds a recurrent state. -/

namespace Backprop

variable {α : Type}

/-- The operator writes an output of its own. -/
def Node.Owns (ts : Array Tensor) (node : Node α) : Prop :=
  ∃ t, ts[node.output.index]? = some t ∧ t.kind = .intermediate ∧ t.timeOffset = node.timeOffset ∧
    Network.Takes ts node.op node.inputs t.shape

/-- The operator writes a recurrent state: the slot one step ahead, or the first one. -/
def Node.Feeds (ts : Array Tensor) (node : Node α) : Prop :=
  ∃ t shape, ts[node.output.index]? = some t ∧ t.kind = .recurrent ∧ node.timeOffset = 0 ∧
    node.output ∉ node.inputs ∧ (node.op = .copy 1 ∨ node.op = .copyInit) ∧
    Network.Takes ts node.op node.inputs shape ∧ shape.rowElements = t.shape.rowElements

namespace Network

/-- Everything in the first array stays where it is. -/
def Keeps (ts ts' : Array Tensor) : Prop := ∀ (i : Nat) (t : Tensor), ts[i]? = some t → ts'[i]? = some t

theorem Keeps.push (ts : Array Tensor) (t : Tensor) : Keeps ts (ts.push t) := by
  intro i u hi
  obtain ⟨hlt, hu⟩ := Array.getElem?_eq_some_iff.mp hi
  rw [Array.getElem?_push_lt hlt, hu]

theorem Takes.keeps {ts ts' : Array Tensor} {op : Operator α} {inputs : List TensorId}
    {shape : Shape} (h : Takes ts op inputs shape) (hk : Keeps ts ts') :
    Takes ts' op inputs shape := by
  obtain ⟨shapes, hs, ho⟩ := h
  exact ⟨shapes, hs.imp fun _ _ ⟨t, ht, he⟩ => ⟨t, hk _ t ht, he⟩, ho⟩

theorem Takes.lt {ts : Array Tensor} {op : Operator α} {inputs : List TensorId} {shape : Shape}
    (h : Takes ts op inputs shape) {x : TensorId} (hx : x ∈ inputs) : x.index < ts.size := by
  obtain ⟨shapes, hs, -⟩ := h
  induction hs with
  | nil => cases hx
  | cons hs _ ih =>
    obtain rfl | hx := List.mem_cons.mp hx
    · obtain ⟨t, ht, -⟩ := hs
      exact (Array.getElem?_eq_some_iff.mp ht).1
    · exact ih hx

end Network

namespace Node

open Network

theorem Owns.keeps {ts ts' : Array Tensor} {node : Node α} (h : node.Owns ts) (hk : Keeps ts ts') :
    node.Owns ts' := by
  obtain ⟨t, ht, hkind, ho, hs⟩ := h
  exact ⟨t, hk _ t ht, hkind, ho, hs.keeps hk⟩

theorem Feeds.keeps {ts ts' : Array Tensor} {node : Node α} (h : node.Feeds ts)
    (hk : Keeps ts ts') : node.Feeds ts' := by
  obtain ⟨t, shape, ht, hkind, ho, hn, hop, hs, hr⟩ := h
  exact ⟨t, shape, hk _ t ht, hkind, ho, hn, hop, hs.keeps hk, hr⟩

theorem Feeds.not_owns {ts : Array Tensor} {node : Node α} (h : node.Feeds ts) :
    ¬node.Owns ts := by
  rintro ⟨t, ht, hkind, -⟩
  obtain ⟨u, -, hu, hkind', -⟩ := h
  rw [ht] at hu
  cases hu
  rw [hkind] at hkind'
  cases hkind'

/-- What an operator does to its output. -/
def Writes (ts : Array Tensor) (node : Node α) : Prop := node.Owns ts ∨ node.Feeds ts

theorem Writes.keeps {ts ts' : Array Tensor} {node : Node α} (h : node.Writes ts)
    (hk : Keeps ts ts') : node.Writes ts' :=
  h.imp (·.keeps hk) (·.keeps hk)

theorem Writes.inputs_lt {ts : Array Tensor} {node : Node α} (h : node.Writes ts) {x : TensorId}
    (hx : x ∈ node.inputs) : x.index < ts.size := by
  obtain ⟨t, -, -, -, hs⟩ | ⟨t, shape, -, -, -, -, -, hs, -⟩ := h
  · exact hs.lt hx
  · exact hs.lt hx

theorem Writes.output_lt {ts : Array Tensor} {node : Node α} (h : node.Writes ts) :
    node.output.index < ts.size := by
  obtain ⟨t, ht, -⟩ | ⟨t, shape, ht, -⟩ := h
  · exact (Array.getElem?_eq_some_iff.mp ht).1
  · exact (Array.getElem?_eq_some_iff.mp ht).1

theorem Writes.owns {ts ts' : Array Tensor} {node : Node α} (h : node.Writes ts)
    (hk : Keeps ts ts') (ho : node.Owns ts') : node.Owns ts := by
  obtain h | h := h
  · exact h
  · exact absurd ho (h.keeps hk).not_owns

end Node

namespace Network

/-- A tensor before compilation. -/
structure Drafted (longest : Nat) (t : Tensor) : Prop where
  sound : t.Sound
  longest : t.sequence ≤ longest
  kind : t.kind ≠ .scratch
  offset : t.kind ≠ .intermediate → t.timeOffset = 0

theorem Drafted.mono {longest longer : Nat} {t : Tensor} (h : Drafted longest t)
    (hl : longest ≤ longer) : Drafted longer t :=
  ⟨h.sound, h.longest.trans hl, h.kind, h.offset⟩

/-- A network on an untouched backend, before compilation. -/
structure Sketch (b : Backend α) (n : Network α) : Prop where
  stage : n.stage = .building
  backend : n.backend = b
  scratch : n.scratch = []
  tensors : ∀ (i : Nat) (t : Tensor), n.plain[i]? = some t → Drafted n.maxSequence t
  bare : ∀ (i : Nat) (node : Node α), n.nodes[i]? = some node →
    node.scratch = [] ∧ node.forward = [] ∧ node.backward = []
  writes : ∀ (i : Nat) (node : Node α), n.nodes[i]? = some node → node.Writes n.plain
  initializers : ∀ p ∈ n.initializers, IsParameter n.plain p.1
  /-- What an operator owns is later than all that was there before. -/
  later : ∀ (i j : Nat) (a b : Node α), n.nodes[i]? = some a → n.nodes[j]? = some b → i ≤ j →
    b.Owns n.plain → (∀ x ∈ a.inputs, x.index < b.output.index) ∧
      (i < j → a.output.index < b.output.index)
  /-- A first slot is written before it is read. -/
  first : ∀ (i j : Nat) (a b : Node α), n.nodes[i]? = some a → n.nodes[j]? = some b → i ≤ j →
    b.op = .copyInit → b.output ∉ a.inputs

variable {b : Backend α} {n n' : Network α}

theorem Sketch.new (b : Backend α) (config : NetworkConfig) :
    Sketch { b with validation := config.validate } (Network.new b config) := by
  constructor <;> simp [Network.new, plain]

theorem Sketch.same (h : Sketch b n) (hs : n.SameGraph n') : Sketch b n' := by
  obtain ⟨ts, o, inits, hp, hinits, rfl⟩ := hs
  have hplain : Network.plain { n with tensors := ts, optimizer := o, initializers := inits } =
      n.plain := hp
  exact
    { stage := h.stage
      backend := h.backend
      scratch := h.scratch
      tensors := fun i t ht => h.tensors i t (hplain ▸ ht)
      bare := h.bare
      writes := fun i node hn => hplain.symm ▸ h.writes i node hn
      initializers := fun p hp => hplain ▸ (hinits p hp).elim (h.initializers p) id
      later := fun i j c d hc hd hij ho => h.later i j c d hc hd hij (hplain ▸ ho)
      first := h.first }

theorem Sketch.extend {t : Tensor} (h : Sketch b n) (hstage : n'.stage = n.stage)
    (hbackend : n'.backend = n.backend) (hscratch : n'.scratch = n.scratch)
    (hinits : n'.initializers = n.initializers)
    (hts : n'.plain = n.plain.push t) (hlong : n.maxSequence ≤ n'.maxSequence)
    (ht : Drafted n'.maxSequence t) (hnodes : n'.nodes = n.nodes) : Sketch b n' := by
  have hk : Keeps n.plain n'.plain := hts ▸ Keeps.push n.plain t
  refine
    { stage := hstage.trans h.stage
      backend := hbackend.trans h.backend
      scratch := hscratch.trans h.scratch
      tensors := fun i u hu => ?_
      bare := fun i node hn => h.bare i node (hnodes ▸ hn)
      writes := fun i node hn => (h.writes i node (hnodes ▸ hn)).keeps hk
      initializers := fun p hp => (h.initializers p (hinits ▸ hp)).imp fun t ht =>
        ⟨hk _ t ht.1, ht.2⟩
      later := fun i j c d hc hd hij ho => ?_
      first := fun i j c d hc hd hij => h.first i j c d (hnodes ▸ hc) (hnodes ▸ hd) hij }
  · rw [hts, Array.getElem?_push] at hu
    split at hu
    · cases hu
      exact ht
    · exact (h.tensors i u hu).mono hlong
  · rw [hnodes] at hc hd
    exact h.later i j c d hc hd hij ((h.writes j d hd).owns hk ho)

theorem Sketch.register {node : Node α} (h : Sketch b n)
    (hbare : node.scratch = [] ∧ node.forward = [] ∧ node.backward = [])
    (hwrites : node.Writes n.plain)
    (hlater : node.Owns n.plain → (∀ x ∈ node.inputs, x.index < node.output.index) ∧
      ∀ (i : Nat) (a : Node α), n.nodes[i]? = some a →
        (∀ x ∈ a.inputs, x.index < node.output.index) ∧ a.output.index < node.output.index)
    (hfirst : node.op = .copyInit → node.output ∉ node.inputs ∧
      ∀ (i : Nat) (a : Node α), n.nodes[i]? = some a → node.output ∉ a.inputs) :
    Sketch b { n with nodes := n.nodes.push node } := by
  have hcases : ∀ (i : Nat) (a : Node α), (n.nodes.push node)[i]? = some a →
      (i = n.nodes.size ∧ a = node) ∨ (i < n.nodes.size ∧ n.nodes[i]? = some a) := by
    intro i a ha
    rw [Array.getElem?_push] at ha
    split at ha
    · next he =>
      cases ha
      exact .inl ⟨he, rfl⟩
    · exact .inr ⟨(Array.getElem?_eq_some_iff.mp ha).1, ha⟩
  refine
    { stage := h.stage
      backend := h.backend
      scratch := h.scratch
      tensors := h.tensors
      bare := fun i a ha => ?_
      writes := fun i a ha => ?_
      initializers := h.initializers
      later := fun i j c d hc hd hij ho => ?_
      first := fun i j c d hc hd hij hop => ?_ }
  · obtain ⟨-, rfl⟩ | ⟨-, ha⟩ := hcases i a ha
    · exact hbare
    · exact h.bare i a ha
  · obtain ⟨-, rfl⟩ | ⟨-, ha⟩ := hcases i a ha
    · exact hwrites
    · exact h.writes i a ha
  · obtain ⟨hj, rfl⟩ | ⟨hj, hd⟩ := hcases j d hd
    · obtain ⟨hi, rfl⟩ | ⟨hi, hc⟩ := hcases i c hc
      · exact ⟨(hlater ho).1, fun hlt => by omega⟩
      · exact ⟨((hlater ho).2 i c hc).1, fun _ => ((hlater ho).2 i c hc).2⟩
    · obtain ⟨hi, rfl⟩ | ⟨hi, hc⟩ := hcases i c hc
      · omega
      · exact h.later i j c d hc hd hij ho
  · obtain ⟨hj, rfl⟩ | ⟨hj, hd⟩ := hcases j d hd
    · obtain ⟨hi, rfl⟩ | ⟨hi, hc⟩ := hcases i c hc
      · exact (hfirst hop).1
      · exact (hfirst hop).2 i c hc
    · obtain ⟨hi, rfl⟩ | ⟨hi, hc⟩ := hcases i c hc
      · omega
      · exact h.first i j c d hc hd hij hop

theorem ofKind_drafted {kind : TensorKind} {shape : Shape} {sequence k longest : Nat}
    (he : shape.elements ≠ 0) (hl : max sequence 1 ≤ longest) (hk : kind ≠ .scratch)
    (ho : kind ≠ .intermediate → k = 0) :
    Drafted longest { Tensor.ofKind kind shape sequence with timeOffset := k } where
  sound := ⟨by simp [Tensor.ofKind], rfl, Nat.pos_of_ne_zero he, rfl, rfl, rfl⟩
  longest := hl
  kind := hk
  offset := ho

theorem Sketch.create {kind : TensorKind} {shape : Shape} {sequence : Nat}
    (h : Sketch b n) (hk : kind ≠ .scratch) :
    Sketch b (Call.after (Network.create kind shape sequence) n) := by
  refine Call.after_induct h (fun e m he => create_error he) fun id m hm => ?_
  obtain ⟨-, he, -, rfl⟩ := create_ok_iff.mp hm
  refine h.extend (t := (Tensor.ofKind kind shape sequence).plain) rfl rfl rfl rfl ?_ (by simp) ?_ rfl
  · simp [plain]
  · exact ofKind_drafted (k := 0) he (Nat.le_max_right _ _) hk fun _ => rfl

theorem Sketch.addOperator_ok {op : Operator α} {inputs : List TensorId} {k : Nat} {id : TensorId}
    (h : Sketch b n) (ha : addOperator op inputs k n = .ok id n') :
    Sketch b n' ∧ n'.nodes = n.nodes.push { op, inputs, output := id, timeOffset := k } ∧
      Keeps n.plain n'.plain ∧ n.plain[id.index]? = none ∧
      ({ op, inputs, output := id, timeOffset := k } : Node α).Owns n'.plain := by
  obtain ⟨-, rfl, ts, shape, sequence, htakes, he, hp, rfl⟩ := Network.addOperator_ok ha
  have hsize : n.plain.size = n.tensors.size := by simp [plain]
  have hk : Keeps n.plain (ts.map Tensor.plain) := hp ▸ Keeps.push n.plain _
  have howns : ({ op, inputs, output := ⟨n.tensors.size⟩, timeOffset := k } : Node α).Owns
      (ts.map Tensor.plain) := by
    refine ⟨{ Tensor.ofKind .intermediate shape sequence with timeOffset := k }, ?_, rfl, rfl,
      htakes.keeps hk⟩
    rw [hp, ← hsize, Array.getElem?_push_size]
  have hgrown : Sketch b { n with
      tensors := ts
      maxSequence := max n.maxSequence (max sequence 1) } :=
    h.extend rfl rfl rfl rfl hp (Nat.le_max_left _ _)
      (ofKind_drafted he (Nat.le_max_right _ _) (by decide) fun hk => absurd rfl hk) rfl
  refine ⟨hgrown.register ⟨rfl, rfl, rfl⟩ (.inl howns) (fun _ => ⟨fun x hx => ?_, fun i a ha => ?_⟩)
    (fun _ => ⟨fun hx => ?_, fun i a ha hx => ?_⟩), rfl, hk, by simp [← hsize], howns⟩
  · exact hsize ▸ htakes.lt hx
  · exact ⟨fun x hx => hsize ▸ (h.writes i a ha).inputs_lt hx, hsize ▸ (h.writes i a ha).output_lt⟩
  · exact absurd (hsize ▸ htakes.lt hx) (Nat.lt_irrefl _)
  · exact absurd (hsize ▸ (h.writes i a ha).inputs_lt hx) (Nat.lt_irrefl _)

theorem Sketch.addOperator {op : Operator α} {inputs : List TensorId} {k : Nat}
    (h : Sketch b n) : Sketch b (Call.after (Network.addOperator op inputs k) n) :=
  Call.after_induct h (fun _ _ he => addOperator_error he) fun _ _ hm => (h.addOperator_ok hm).1

theorem Sketch.addOperatorInto_ok {op : Operator α} {a s id : TensorId} {t : Tensor}
    (h : Sketch b n) (ht : n.plain[s.index]? = some t) (hkind : t.kind = .recurrent) (hne : a ≠ s)
    (hop : op = .copy 1 ∨ op = .copyInit)
    (hfirst : op = .copyInit →
      ∀ (i : Nat) (c : Node α), n.nodes[i]? = some c → s ∉ c.inputs)
    (ha : addOperatorInto op [a] s 0 n = .ok id n') :
    Sketch b n' ∧ n'.nodes = n.nodes.push { op, inputs := [a], output := s, timeOffset := 0 } ∧
      n'.plain = n.plain ∧
      ({ op, inputs := [a], output := s, timeOffset := 0 } : Node α).Feeds n'.plain := by
  obtain ⟨-, rfl, ts, shape, target, htakes, htarget, hrow, hp, rfl⟩ :=
    Network.addOperatorInto_ok ha
  rw [ht] at htarget
  cases htarget
  have hzero : t.timeOffset = 0 := (h.tensors _ t ht).offset (by simp [hkind])
  have hplain : ts.map Tensor.plain = n.plain := by
    rw [hp]
    refine Array.ext_getElem? fun i => ?_
    rw [Array.getElem?_modify]
    split
    · next hi =>
      subst hi
      rw [ht, Option.map_some, ← hzero]
    · rfl
  have hsame : Sketch b { n with tensors := ts } :=
    h.same ⟨ts, n.optimizer, n.initializers, hplain, fun _ => .inl, rfl⟩
  have hfeeds : ({ op, inputs := [a], output := id, timeOffset := 0 } : Node α).Feeds
      (ts.map Tensor.plain) := by
    rw [hplain]
    exact ⟨t, shape, ht, hkind, rfl, by simpa using Ne.symm hne, hop, htakes, hrow⟩
  refine ⟨hsame.register ⟨rfl, rfl, rfl⟩ (.inr hfeeds) (fun ho => absurd ho hfeeds.not_owns)
    (fun hop => ⟨by simpa using Ne.symm hne, hfirst hop⟩), rfl, hplain, hfeeds⟩

end Network

end Backprop
