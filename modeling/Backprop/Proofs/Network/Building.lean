import Mathlib
import Backprop.Model.Layer
import Backprop.Proofs.Backend.Submission
import Backprop.Proofs.Network.Sketch

/-! Networks as calls build them. A call may fail; then the next one goes on from what it left. -/

namespace Backprop

variable {α : Type}

/-- A backend on which nothing has been recorded. -/
structure Backend.Idle (b : Backend α) : Prop where
  dispatches : b.dispatches = .replicate #[]
  sound : b.Sound

/-- A backend with all kernels of the host, on which nothing has been done. -/
def Backend.host : Backend α where
  device := .standard
  registry := ⟨HostKernel.all.map fun k => (k.name, "")⟩

theorem Backend.host_idle : (Backend.host : Backend α).Idle :=
  ⟨rfl, fun i compiled hi => by simp [Backend.host] at hi⟩

theorem Backend.host_registered (k : HostKernel) :
    (Backend.host : Backend α).registry.contains k.name = true := by
  cases k <;> rfl

namespace Network

/-- A call that builds a network: it creates a tensor, adds an operator with an output of its
own, names a tensor, or chooses the rule or the first values of a parameter. -/
inductive BuildingCall (α : Type) where
  | createInput (shape : Shape) (sequence : Nat)
  | createState (shape : Shape) (sequence : Nat)
  | createParameter (shape : Shape) (sequence : Nat)
  | addOperator (op : Operator α) (inputs : List TensorId) (timeOffset : Nat)
  | nameTensor (id : TensorId) (name : String)
  | setOptimizer (o : Optimizer α)
  | initWeight (target : TensorId) (init : Initializer)

namespace BuildingCall

def perform : BuildingCall α → Network α → Network α
  | createInput shape sequence => Call.after (Network.createInput shape sequence)
  | createState shape sequence => Call.after (Network.createState shape sequence)
  | createParameter shape sequence => Call.after (Network.createParameter shape sequence)
  | addOperator op inputs timeOffset => Call.after (Network.addOperator op inputs timeOffset)
  | nameTensor id name => Call.after (Network.nameTensor id name)
  | setOptimizer o => Call.after (Network.setOptimizer o)
  | initWeight target init => Call.after (Network.initWeight target init)

/-- The operator that the call adds, if it adds one, is allowed. -/
def Within (allowed : Operator α → Prop) : BuildingCall α → Prop
  | addOperator op _ _ => allowed op
  | _ => True

end BuildingCall

/-- What becomes of a network by building calls. -/
inductive Built (allowed : Operator α → Prop) (start : Network α) : Network α → Prop
  | start : Built allowed start start
  | call {n : Network α} (c : BuildingCall α) (ok : c.Within allowed) (h : Built allowed start n) :
      Built allowed start (c.perform n)

def draft (n : Network α) (calls : List (BuildingCall α)) : Network α :=
  calls.foldl (fun n c => c.perform n) n

theorem Built.draft {allowed : Operator α → Prop} {start n : Network α}
    {calls : List (BuildingCall α)} (h : Built allowed start n)
    (ok : ∀ c ∈ calls, c.Within allowed) : Built allowed start (n.draft calls) := by
  induction calls generalizing n with
  | nil => exact h
  | cons c calls ih =>
    exact ih (.call c (ok c List.mem_cons_self) h) fun d hd => ok d (List.mem_cons_of_mem _ hd)

def InStep (op : Operator α) : Prop := ∀ k, op = .add k ∨ op = .copy k → k = 0

def IsState (n : Network α) (s : TensorId) : Prop := ∃ t, n.tensor s = .ok t ∧ t.kind = .recurrent

/-- What becomes of a network by building calls, by gated units, and by first values of
recurrent states that come before all that reads the state. -/
inductive Unrolled [One α] (start : Network α) : Network α → Prop
  | start : Unrolled start start
  | call {n : Network α} (c : BuildingCall α) (ok : c.Within InStep) (h : Unrolled start n) :
      Unrolled start (c.perform n)
  | gatedUnit {n : Network α} (a s : TensorId) (p : GatedUnit) (state : n.IsState s)
      (h : Unrolled start n) : Unrolled start (Call.after (p.step a s) n)
  | copyInit {n : Network α} (a s : TensorId) (state : n.IsState s) (other : a ≠ s)
      (unread : ∀ (i : Nat) (node : Node α), n.nodes[i]? = some node → s ∉ node.inputs)
      (h : Unrolled start n) : Unrolled start (Call.after (copyInit a s) n)

theorem Unrolled.draft [One α] {start n : Network α} {calls : List (BuildingCall α)}
    (h : Unrolled start n) (ok : ∀ c ∈ calls, c.Within InStep) :
    Unrolled start (n.draft calls) := by
  induction calls generalizing n with
  | nil => exact h
  | cons c calls ih =>
    exact ih (.call c (ok c List.mem_cons_self) h) fun d hd => ok d (List.mem_cons_of_mem _ hd)

/-- A property of every operator, which may speak of the tensors. -/
def Each (P : Array Tensor → Node α → Prop) (n : Network α) : Prop :=
  ∀ (i : Nat) (node : Node α), n.nodes[i]? = some node → P n.plain node

variable {b : Backend α} {config : NetworkConfig} {allowed : Operator α → Prop} {n n' : Network α}
  {P : Array Tensor → Node α → Prop}

theorem Each.push {node : Node α} (h : n.Each P) (hk : Keeps n.plain n'.plain)
    (mono : ∀ ts ts' a, Keeps ts ts' → P ts a → P ts' a)
    (hn : n'.nodes = n.nodes.push node) (hp : P n'.plain node) : n'.Each P := by
  intro i a ha
  rw [hn, Array.getElem?_push] at ha
  split at ha
  · cases ha
    exact hp
  · exact mono _ _ a hk (h i a ha)

theorem Each.same (h : n.Each P) (hs : n.SameGraph n') : n'.Each P := by
  obtain ⟨ts, o, inits, hp, -, rfl⟩ := hs
  intro i a ha
  have hplain : Network.plain { n with tensors := ts, optimizer := o, initializers := inits } =
      n.plain := hp
  exact hplain.symm ▸ h i a ha

theorem Each.create {kind : TensorKind} {shape : Shape} {sequence : Nat} (h : n.Each P)
    (mono : ∀ ts ts' a, Keeps ts ts' → P ts a → P ts' a) :
    (Call.after (create kind shape sequence) n).Each P := by
  refine Call.after_induct h (fun e m he => create_error he) fun id m hm i a ha => ?_
  obtain ⟨-, -, -, rfl⟩ := create_ok_iff.mp hm
  refine mono _ _ a ?_ (h i a ha)
  rw [plain, plain, Array.map_push]
  exact Keeps.push _ _

theorem Sketch.perform (h : Sketch b n) (c : BuildingCall α) : Sketch b (c.perform n) := by
  cases c with
  | createInput shape sequence => exact h.create (by decide)
  | createState shape sequence => exact h.create (by decide)
  | createParameter shape sequence => exact h.create (by decide)
  | addOperator op inputs timeOffset => exact h.addOperator
  | nameTensor id name => exact h.same (nameTensor_same n id name)
  | setOptimizer o => exact h.same (setOptimizer_same n o)
  | initWeight target init => exact h.same (initWeight_same n target init)

theorem Each.perform (h : n.Each P) (hs : Sketch b n) {c : BuildingCall α}
    (mono : ∀ ts ts' a, Keeps ts ts' → P ts a → P ts' a) (ok : c.Within allowed)
    (owned : ∀ ts (a : Node α), allowed a.op → a.Owns ts → P ts a) : (c.perform n).Each P := by
  cases c with
  | createInput shape sequence => exact h.create mono
  | createState shape sequence => exact h.create mono
  | createParameter shape sequence => exact h.create mono
  | addOperator op inputs timeOffset =>
    refine Call.after_induct h (fun e m he => addOperator_error he) fun id m hm => ?_
    obtain ⟨-, hn, hk, -, howns⟩ := hs.addOperator_ok hm
    exact h.push hk mono hn (owned _ _ ok howns)
  | nameTensor id name => exact h.same (nameTensor_same n id name)
  | setOptimizer o => exact h.same (setOptimizer_same n o)
  | initWeight target init => exact h.same (initWeight_same n target init)

theorem Built.sketch (h : Built allowed (Network.new b config) n) :
    Sketch { b with validation := config.validate } n := by
  induction h with
  | start => exact Sketch.new b config
  | call c ok h ih => exact ih.perform c

/-- Every operator of such a network is allowed and owns its output. -/
theorem Built.owns (h : Built allowed (Network.new b config) n) :
    n.Each fun ts node => allowed node.op ∧ node.Owns ts := by
  induction h with
  | start =>
    intro i node hn
    simp [Network.new] at hn
  | call c ok h ih =>
    exact ih.perform h.sketch (fun _ _ _ hk hp => ⟨hp.1, hp.2.keeps hk⟩) ok
      fun _ _ hop ho => ⟨hop, ho⟩

/-! ### Recurrent networks -/

/-- A sketch in which every operator that reaches into another step feeds a state. -/
def InStepSketch (b : Backend α) (n : Network α) : Prop :=
  Sketch b n ∧ n.Each fun ts node => InStep node.op ∨ node.Feeds ts

theorem inStep_or_feeds_mono (ts ts' : Array Tensor) (node : Node α) (hk : Keeps ts ts')
    (h : InStep node.op ∨ node.Feeds ts) : InStep node.op ∨ node.Feeds ts' :=
  h.imp_right (·.keeps hk)

theorem InStepSketch.perform (h : InStepSketch b n) (c : BuildingCall α) (ok : c.Within InStep) :
    InStepSketch b (c.perform n) :=
  ⟨h.1.perform c, h.2.perform h.1 inStep_or_feeds_mono ok fun _ _ hop _ => .inl hop⟩

def StateSketch (b : Backend α) (s : TensorId) (n : Network α) : Prop :=
  InStepSketch b n ∧ ∃ t, n.plain[s.index]? = some t ∧ t.kind = .recurrent

theorem IsState.plain {s : TensorId} (h : n.IsState s) :
    ∃ t, n.plain[s.index]? = some t ∧ t.kind = .recurrent := by
  obtain ⟨t, ht, hkind⟩ := h
  rw [tensor_ok_iff] at ht
  exact ⟨t.plain, by rw [plain_getElem?, ht]; rfl, hkind⟩

theorem addOperator_keeps {s : TensorId} {op : Operator α} {inputs : List TensorId} {k : Nat}
    (hop : InStep op) : Call.Keeps (StateSketch b s) (addOperator op inputs k) (· ≠ s) := by
  rintro m ⟨⟨hm, hm'⟩, t, ht, hkind⟩
  refine ⟨⟨⟨hm.addOperator, ?_⟩, ?_⟩, fun id m' h => ?_⟩
  · have hwithin : BuildingCall.Within InStep (.addOperator op inputs k) := hop
    exact hm'.perform hm inStep_or_feeds_mono hwithin fun _ _ h _ => .inl h
  · refine Call.after_induct (P := fun m : Network α => ∃ t, m.plain[s.index]? = some t ∧
      t.kind = .recurrent) ⟨t, ht, hkind⟩ (fun e m' he => addOperator_error he) fun id m' h => ?_
    obtain ⟨-, -, hk, -⟩ := hm.addOperator_ok h
    exact ⟨t, hk _ t ht, hkind⟩
  · obtain ⟨-, -, -, hnone, -⟩ := hm.addOperator_ok h
    rintro rfl
    rw [ht] at hnone
    cases hnone

theorem StateSketch.feed {a s : TensorId} {op : Operator α} (h : StateSketch b s n) (hne : a ≠ s)
    (hop : op = .copy 1 ∨ op = .copyInit)
    (hfirst : op = .copyInit → ∀ (i : Nat) (c : Node α), n.nodes[i]? = some c → s ∉ c.inputs) :
    StateSketch b s (Call.after (addOperatorInto op [a] s 0) n) := by
  obtain ⟨⟨hn, hn'⟩, t, ht, hkind⟩ := h
  refine Call.after_induct ⟨⟨hn, hn'⟩, t, ht, hkind⟩ (fun e m he => addOperatorInto_error he)
    fun id m hm => ?_
  obtain ⟨hs, hnodes, hplain, hfeeds⟩ := hn.addOperatorInto_ok ht hkind hne hop hfirst hm
  refine ⟨⟨hs, hn'.push (hplain ▸ fun _ _ h => h) inStep_or_feeds_mono hnodes (.inr hfeeds)⟩,
    t, hplain ▸ ht, hkind⟩

theorem gate_keeps {a s : TensorId} {r : TensorId} (p : GateParams) (f : Activation) :
    Call.Keeps (StateSketch b s) (GatedUnit.gate a r p f : Network.Call α TensorId)
      fun _ => True := by
  unfold GatedUnit.gate
  refine (addOperator_keeps fun k hk => ?_).bind fun fromInput _ =>
    (addOperator_keeps fun k hk => ?_).bind fun fromState _ =>
    (addOperator_keeps fun k hk => ?_).bind fun sum _ =>
    (addOperator_keeps fun k hk => ?_).bind fun biased _ =>
    (addOperator_keeps fun k hk => ?_).mono fun _ _ => trivial
  all_goals simp_all

theorem step_keeps [One α] {a s : TensorId} (p : GatedUnit) :
    Call.Keeps (StateSketch b s) (p.step a s : Network.Call α TensorId) fun _ => True := by
  unfold GatedUnit.step
  simp only [Call.discard_eq]
  refine (gate_keeps p.z .sigmoid).bind fun z _ => (gate_keeps p.r .sigmoid).bind fun r _ =>
    (addOperator_keeps fun k hk => ?_).bind fun gated _ =>
    (gate_keeps p.h .tanh).bind fun h _ =>
    (addOperator_keeps fun k hk => ?_).bind fun keep _ =>
    (addOperator_keeps fun k hk => ?_).bind fun fresh _ =>
    (addOperator_keeps fun k hk => ?_).bind fun carried _ =>
    (addOperator_keeps fun k hk => ?_).bind fun next hnext => ?_
  case refine_6 =>
    have hfeed : Call.Keeps (StateSketch b s)
        (addOperatorInto (.copy 1) [next] s 0 : Network.Call α TensorId) fun _ => True :=
      fun m hm => ⟨hm.feed hnext (.inl rfl) nofun, fun _ _ _ => trivial⟩
    exact (hfeed.bind (R := fun _ => True) fun _ _ => .pure trivial).bind fun _ _ => .pure trivial
  all_goals simp_all

theorem Unrolled.sketch [One α] (h : Unrolled (Network.new b config) n) :
    InStepSketch { b with validation := config.validate } n := by
  induction h with
  | start =>
    refine ⟨Sketch.new b config, fun i node hn => ?_⟩
    simp [Network.new] at hn
  | call c ok h ih => exact ih.perform c ok
  | gatedUnit a s p state h ih => exact (step_keeps p _ ⟨ih, state.plain⟩).1.1
  | copyInit a s state other unread h ih =>
    exact (StateSketch.feed ⟨ih, state.plain⟩ other (.inr rfl) fun _ => unread).1

end Network

end Backprop
