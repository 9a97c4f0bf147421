import Mathlib
import Backprop.Proofs.Network.Effects
import Backprop.Proofs.Network.FailedWrites
import Backprop.Training.Trainer

/-! Evaluation leaves alone what training changes: it writes inputs and labels and runs forward,
and so reaches no gradient, no moment, no step counter and no weight. -/

namespace Backprop

variable {α β : Type}

namespace Network

variable {m k n : Network α} {host : List TensorId}

/-- What only training changes: gradients, moments, and weights that the host does not write. -/
def Learned (m : Network α) (host : List TensorId) (h : BufferId) : Prop :=
  ∃ i t p, m.tensors[i]? = some t ∧ t.part? p = some h ∧
    ∀ j, p = .slot .forward j → t.kind = .parameter ∧ ⟨i⟩ ∉ host

/-- No operator writes a parameter. -/
def KeepsParameters (m : Network α) : Prop :=
  ∀ node ∈ m.nodes, ∀ t, m.tensors[node.output.index]? = some t → t.kind ≠ .parameter

instance (m : Network α) : Decidable m.KeepsParameters :=
  decidable_of_iff (m.nodes.toList.all fun node =>
    m.tensors[node.output.index]?.all fun t => t.kind ≠ .parameter) <| by
      simp only [List.all_eq_true, Array.mem_toList_iff, Option.all_eq_true, decide_eq_true_eq,
        KeepsParameters]

/-- The network has run on, and what only training changes is as it was. -/
structure Spared (m k : Network α) [Scalar α] (host : List TensorId) (n : Network α) : Prop where
  used : m.Used n
  lists : n.backend.dispatches = k.backend.dispatches
  contents : ∀ h, m.Learned host h → n.backend.contents h = k.backend.contents h

theorem keeps_onBackend {P : Network α → Prop} {x : Backend.Call α β} {Q : β → Prop}
    (h : ∀ n, P n → Call.Keeps (fun c => P { n with backend := c }) x Q) :
    Call.Keeps P (onBackend x) Q := by
  intro n hn
  obtain ⟨hafter, hok⟩ := h n hn n.backend hn
  unfold Call.after at hafter
  cases hx : x n.backend with
  | ok y c =>
    rw [hx] at hafter
    refine ⟨?_, fun y' n' hn' => ?_⟩
    · simpa only [Call.after, onBackend, hx] using hafter
    · obtain ⟨c', hc', -⟩ := onBackend_ok_iff.mp hn'
      exact hok y' c' hc'
  | error e c =>
    rw [hx] at hafter
    refine ⟨?_, fun y' n' hn' => ?_⟩
    · simpa only [Call.after, onBackend, hx] using hafter
    · obtain ⟨c', hc', -⟩ := onBackend_ok_iff.mp hn'
      exact hok y' c' hc'

theorem keeps_readBuffer {P : Network α → Prop} (t : Tensor) (h : BufferId) :
    Call.Keeps P (readBuffer t h) fun _ => True := by
  refine keeps_onBackend fun n _ => Call.Keeps.get.bind fun c _ => ?_
  exact (Call.Keeps.ofExcept (Q := fun _ => True) fun _ _ => trivial).bind fun _ _ => .pure trivial

theorem keeps_readTensor {P : Network α → Prop} (id : TensorId) (timestep : Nat) :
    Call.Keeps P (readTensor id timestep) fun _ => True := by
  refine keeps_requireCompiled.bind fun _ _ => Call.Keeps.get.bind fun n _ => ?_
  refine (Call.Keeps.ofExcept (Q := fun _ => True) fun _ _ => trivial).bind fun t _ => ?_
  refine (Call.Keeps.ofExcept (Q := fun _ => True) fun _ _ => trivial).bind fun h _ => ?_
  exact keeps_readBuffer t h

theorem Arranged.learned_elsewhere [Zero α] {auxiliary : Nat} {allocation : Nat → Side → Nat}
    (ha : Arranged m auxiliary allocation) {h : BufferId} (hh : m.Learned host h) {w : Window}
    (hw : m.backend.window? h = some w) {x : TensorId} (hx : x ∈ host) {t : Tensor}
    (ht : m.tensors[x.index]? = some t) : w.allocation ≠ allocation x.index .forward := by
  obtain ⟨i, u, p, hu, hpart, hp⟩ := hh
  refine ha.part_apart hu hpart hw ht t.lives_forward ?_
  rintro j rfl rfl
  exact (hp j rfl).2 hx

variable [Scalar α] {b : Backend α} {batch : Nat} {n₀ : Network α}

omit [Scalar α] in
theorem Altered.contents {A : Nat → Prop} (ha : k.Altered A n) {l : BufferId}
    (away : ∀ w, k.backend.window? l = some w → ¬A w.allocation) :
    n.backend.contents l = k.backend.contents l := by
  cases hw : k.backend.window? l with
  | none =>
    have hw' : n.backend.window? l = none := (Backend.window?_congr ha.2.buffers l).trans hw
    simp only [Backend.contents, hw, hw']
  | some w => exact ha.2.contents hw (away w hw)

theorem Spared.write (h : Compiled n₀ m batch) {x : TensorId} (hx : x ∈ host) (timestep : Nat)
    (data : Array α) (hs : m.Spared k host n) :
    m.Spared k host (Call.after (writeTensor x timestep data) n) := by
  obtain ⟨allocation, ha⟩ := h.arranged
  have htensors : n.tensors = m.tensors := by rw [hs.used.same]
  have hwindows : ∀ l, n.backend.window? l = m.backend.window? l :=
    Backend.window?_congr hs.used.later.buffers
  have haltered : n.Altered (fun a => ∃ t, m.tensors[x.index]? = some t ∧
      a = allocation x.index .forward) (Call.after (writeTensor x timestep data) n) := by
    refine keeps_perform (.tensor x timestep data) (fun t ht j l hl v hv => ?_) ⟨rfl, .refl _ _⟩
    rw [HostWrite.target, htensors] at ht
    rw [hwindows] at hv
    exact ⟨t, ht, ha.forwardSlot ht hl hv⟩
  generalize Call.after (writeTensor x timestep data) n = n' at haltered ⊢
  obtain ⟨hused, hlists⟩ := hs.used.altered haltered
  refine ⟨hused, hlists.trans hs.lists, fun l hl => ?_⟩
  refine (haltered.contents fun w hw => ?_).trans (hs.contents l hl)
  rintro ⟨t, ht, heq⟩
  exact ha.learned_elsewhere hl ((hwindows l).symm.trans hw) hx ht heq

theorem Spared.forward (hn : Outline b n₀) (h : Compiled n₀ m batch) {alignment auxiliary : Nat}
    (hd : m.Divided alignment auxiliary) (keeps : m.KeepsParameters) (hs : m.Spared k host n) :
    m.Spared k host (Call.after (run .forward) n) := by
  obtain ⟨hconfined, hlists⟩ := h.run_confined hn hs.used .forward
  have hdispatches : (Call.after (run .forward) n).backend.dispatches = n.backend.dispatches := by
    have hall := fun other => hlists other (by simp)
    have hf := hall .forward
    have hb := hall .backward
    have hu := hall .update
    simp only [PerPass.get] at hf hb hu
    generalize (Call.after (run .forward) n).backend.dispatches = ds at hf hb hu
    obtain ⟨f, g, u⟩ := ds
    simp only at hf hb hu
    rw [hf, hb, hu]
  refine ⟨hs.used.run h.stage .forward, hdispatches.trans hs.lists, fun l hl => ?_⟩
  refine (hconfined.alters.contents fun r hr => ?_).trans (hs.contents l hl)
  obtain ⟨i, t, p, ht, hpart, hp⟩ := hl
  obtain ⟨node, hnode, ⟨u, j, hu, hslot⟩ | ⟨-, u, hu, hkind, -⟩⟩ := hr
  · refine (hd.apart ht hpart hu hslot fun heq => ?_).congr hs.used.later.buffers
    cases heq
    rw [ht, Option.some.injEq] at hu
    subst hu
    exact keeps node hnode t ht (hp j rfl).1
  · exact absurd hkind (keeps node hnode u hu)

end Network

namespace Trainer

variable {P : Network Binary32 → Prop}

theorem keeps_onNetwork {x : Network.Call Binary32 β} {Q : β → Prop} (h : Call.Keeps P x Q) :
    Call.Keeps (fun s : TrainingState => P s.network) (onNetwork x) Q := by
  intro s hs
  obtain ⟨hafter, hok⟩ := h s.network hs
  unfold Call.after at hafter
  unfold Call.after onNetwork
  cases hx : x s.network with
  | ok y n =>
    rw [hx] at hafter
    refine ⟨hafter, fun y' s' he => ?_⟩
    cases he
    exact hok y n hx
  | error e n =>
    rw [hx] at hafter
    exact ⟨hafter, by simp⟩

theorem keeps_doing {R : TrainingState → Prop} {text : String} {x : Call β} {Q : β → Prop}
    (h : Call.Keeps R x Q) : Call.Keeps R (doing text x) Q := by
  intro s hs
  obtain ⟨hafter, hok⟩ := h s hs
  unfold Call.after at hafter
  unfold Call.after doing
  cases hx : x s with
  | ok y s' =>
    rw [hx] at hafter
    refine ⟨hafter, fun y' s'' he => ?_⟩
    cases he
    exact hok y s' hx
  | error e s' =>
    rw [hx] at hafter
    exact ⟨hafter, by simp⟩

section

variable {model : Classifier}
  (inputs : ∀ data, Call.Keeps P (Network.writeTensor model.input 0 data) fun _ => True)
  (labels : ∀ data, Call.Keeps P (Network.writeTensor model.labels 0 data) fun _ => True)
  (forward : Call.Keeps P Network.forward fun _ => True)

include inputs labels forward

theorem keeps_runBatch (batch : Batch) :
    Call.Keeps (fun s : TrainingState => P s.network) (runBatch model batch false)
      fun _ => True := by
  have hread : ∀ id, Call.Keeps (fun s : TrainingState => P s.network) (readValue id)
      fun _ => True := by
    intro id
    refine (keeps_onNetwork (Network.keeps_readTensor id 0)).bind fun values _ => ?_
    cases values[0]? with
    | none => exact .throw
    | some x => exact .pure trivial
  refine (keeps_doing (keeps_onNetwork (inputs batch.inputs))).bind fun _ _ => ?_
  refine (keeps_doing (keeps_onNetwork (labels batch.labels))).bind fun _ _ => ?_
  refine (keeps_onNetwork forward).bind fun _ _ => ?_
  refine (hread model.loss).bind fun loss _ => (hread model.accuracy).bind fun accuracy _ => ?_
  exact .pure trivial

theorem keeps_sumTests (count : Nat) (loss accuracy : Binary32) (seen : Nat) :
    Call.Keeps (fun s : TrainingState => P s.network) (sumTests model count loss accuracy seen)
      fun _ => True := by
  induction count generalizing loss accuracy seen with
  | zero => exact .pure trivial
  | succ count ih =>
    have hnext : Call.Keeps (fun s : TrainingState => P s.network) nextTest fun _ => True := by
      refine Call.Keeps.get.bind fun s hs => ?_
      cases s.test.bind (·.next) with
      | none => exact .pure trivial
      | some next =>
        intro s' hs'
        exact ⟨hs, fun _ _ _ => trivial⟩
    refine hnext.bind fun batch _ => ?_
    cases batch with
    | none => exact .pure trivial
    | some batch =>
      exact (keeps_runBatch inputs labels forward batch).bind fun values _ => ih _ _ _

theorem keeps_evaluate (t : Trainer) (step : Nat) :
    Call.Keeps (fun s : TrainingState => P s.network) (t.evaluate model step) fun _ => True :=
  (keeps_sumTests inputs labels forward t.evalBatches 0 0 0).bind fun _ _ => .pure trivial

end

end Trainer

namespace Network

variable {b : Backend Binary32} {config : NetworkConfig} {n m k : Network Binary32} {batch : Nat}

/-- Evaluation spares what only training changes, but for weights that it is told to write. -/
theorem Compiled.evaluate_spares (hn : Outline b n) (h : Compiled n m batch)
    {alignment auxiliary : Nat} (hd : m.Divided alignment auxiliary) (keeps : m.KeepsParameters)
    (hk : m.Used k) (trainer : Trainer) (model : Classifier) (step : Nat) {s : TrainingState}
    (hs : s.network = k) :
    m.Spared k [model.input, model.labels]
      (Call.after (trainer.evaluate model step) s).network := by
  have hwrite : ∀ id ∈ [model.input, model.labels], ∀ data, Call.Keeps
      (m.Spared k [model.input, model.labels]) (writeTensor id 0 data) fun _ => True :=
    fun id hid data n hn' => ⟨hn'.write h hid 0 data, fun _ _ _ => trivial⟩
  have hforward : Call.Keeps (m.Spared k [model.input, model.labels]) Network.forward
      fun _ => True := fun n hn' => ⟨hn'.forward hn h hd keeps, fun _ _ _ => trivial⟩
  have hstart : m.Spared k [model.input, model.labels] s.network := by
    rw [hs]
    exact ⟨hk, rfl, fun _ _ => rfl⟩
  exact (Trainer.keeps_evaluate (hwrite model.input (by simp)) (hwrite model.labels (by simp))
    hforward trainer step s hstart).1

/-- The phases of a compiled network keep to their own storage, whatever memory holds and whether
or not they succeed: each pass changes words of the buffers that it may reach, and only updates
count; clearing zeroes what it reaches; and an evaluation, where no operator writes a parameter,
leaves all that training changes but weights that it is told to write. -/
theorem Assembled.phases_confined (idle : b.Idle) (built : Assembled (Network.new b config) n)
    (compiled : compile batch n = .ok ⟨⟩ m) (used : m.Used k) :
    (∀ pass, k.Confined (Call.after (run pass) k) (m.Reach pass) ∧
      ∀ other, (pass = .update → other ≠ .update) →
        (Call.after (run pass) k).backend.dispatches.get other = k.backend.dispatches.get other) ∧
    (∃ k', clearBuffers k = .ok ⟨⟩ k' ∧ k.Confined k' m.Cleared ∧
      k'.backend.dispatches = k.backend.dispatches ∧
      ∀ l, m.Cleared l → ∀ x ∈ k'.backend.contents l, x = 0) ∧
    (m.KeepsParameters → ∀ (trainer : Trainer) (model : Classifier) (step : Nat)
      (s : TrainingState), s.network = k → m.Spared k [model.input, model.labels]
        (Call.after (trainer.evaluate model step) s).network) := by
  have hn := built.outline
  have idle' : Backend.Idle { b with validation := config.validate } :=
    ⟨idle.dispatches, idle.sound⟩
  have hcompiled := compile_ok hn idle' compiled
  have hdivided := compile_divided hn idle' compiled
  exact ⟨hcompiled.run_confined hn used, hcompiled.clear_confined hn hdivided used,
    fun keeps trainer model step s hs =>
      hcompiled.evaluate_spares hn hdivided keeps used trainer model step hs⟩

def partedModel : Classifier := ⟨⟨0⟩, ⟨0⟩, ⟨2⟩, ⟨2⟩, ⟨2⟩, [⟨1⟩]⟩

set_option maxRecDepth 100000 in
theorem partedNetwork_phases_confined : ∃ m, compile 3 partedNetwork = .ok ⟨⟩ m ∧ m.Used m ∧
    m.KeepsParameters ∧ (∀ pass, m.Confined (Call.after (run pass) m) (m.Reach pass)) ∧
    ∀ (trainer : Trainer) (step : Nat) (s : TrainingState), s.network = m →
      m.Spared m [partedModel.input, partedModel.labels]
        (Call.after (trainer.evaluate partedModel step) s).network := by
  have hm : compile 3 partedNetwork = .ok ⟨⟩ (Call.after (compile 3) partedNetwork) :=
    Call.ok_of_isOk (by decide +kernel)
  have hkeeps : (Call.after (compile 3) partedNetwork).KeepsParameters := by decide +kernel
  have idle : Backend.Idle { Backend.host (α := Binary32) with device := { alignment := 12 } } :=
    ⟨rfl, fun i compiled hi => by simp [Backend.host] at hi⟩
  obtain ⟨hpasses, -, hevaluate⟩ :=
    Assembled.phases_confined idle (Assembled.start.draft _) hm (.refl _)
  exact ⟨_, hm, .refl _, hkeeps, fun pass => (hpasses pass).1,
    fun trainer step s => hevaluate hkeeps trainer partedModel step s⟩

/-- A parameter with moments into whose first slot an input is copied. -/
def seededMoments : Network Binary32 :=
  Call.after (addOperatorInto .copyInit [⟨0⟩] ⟨1⟩ 0)
    ((Network.new Backend.host {}).draft [.createInput ⟨1, 1, 1, 1⟩ 1,
      .createParameter ⟨1, 1, 1, 1⟩ 1, .setOptimizer (.adamAt Optimizer.defaultAlpha)])

def compiledMoments : Network Binary32 := Call.after (compile 1) seededMoments

set_option maxRecDepth 100000 in
theorem compiledMoments_auxiliary : compiledMoments.IsAuxiliary 1 0 ⟨8⟩ := by
  have hmoment : compiledMoments.tensors[1]?.any fun t =>
      t.kind = .parameter ∧ t.part? (.auxiliary 0) = some ⟨8⟩ := by decide +kernel
  obtain ⟨t, ht, hpart⟩ := (Option.any_eq_true _ _).mp hmoment
  obtain ⟨hk, hpart⟩ := of_decide_eq_true hpart
  exact ⟨t, ht, hk, hpart⟩

def weightAsLabels : Network Binary32 :=
  (Network.new Backend.host {}).draft [.createInput ⟨1, 1, 1, 1⟩ 1,
    .createParameter ⟨1, 1, 1, 1⟩ 1, .addOperator (.copy 0) [⟨0⟩] 0]

def compiledWeight : Network Binary32 := Call.after (compile 1) weightAsLabels

def weightModel : Classifier := ⟨⟨0⟩, ⟨1⟩, ⟨2⟩, ⟨2⟩, ⟨2⟩, [⟨1⟩]⟩

def weightState : TrainingState where
  network := compiledWeight
  training := .queue { empty := [] }
  test := some (.queue { empty := [], full := [⟨#[1], #[1]⟩] })

set_option maxRecDepth 100000 in
theorem compiledWeight_slot : compiledWeight.IsSlot 1 .forward ⟨5⟩ := by
  have hweight : compiledWeight.tensors[1]?.any fun t =>
      t.part? (.slot .forward 0) = some ⟨5⟩ := by decide +kernel
  obtain ⟨t, ht, hpart⟩ := (Option.any_eq_true _ _).mp hweight
  exact ⟨t, 0, ht, of_decide_eq_true hpart⟩

def testedWeight : Network Binary32 :=
  (Call.after (Trainer.evaluate { steps := 0 } weightModel 0) weightState).network

set_option maxRecDepth 100000 in
/-- Not all that changes is a slot of an output: seeding a parameter changes a moment. And an
evaluation may change a weight that no operator writes, when the model takes it for its labels. -/
theorem forward_reaches_moment :
    (∃ m k moment, compile 1 seededMoments = .ok ⟨⟩ m ∧ m.Used k ∧ m.IsAuxiliary 1 0 moment ∧
      (Call.after (run .forward) k).backend.contents moment ≠ k.backend.contents moment ∧
      ¬k.Confined (Call.after (run .forward) k)
        fun h => ∃ node ∈ m.nodes, m.IsSlot node.output.index .forward h) ∧
    ∃ weight, compile 1 weightAsLabels = .ok ⟨⟩ compiledWeight ∧ compiledWeight.KeepsParameters ∧
      compiledWeight.IsSlot 1 .forward weight ∧
      testedWeight.backend.contents weight ≠ compiledWeight.backend.contents weight := by
  have hm : compile 1 seededMoments = .ok ⟨⟩ compiledMoments :=
    Call.ok_of_isOk (by decide +kernel)
  have hused := Used.withContents compiledMoments ⟨1⟩ #[1]
  have hchanged : (Call.after (run .forward)
      (compiledMoments.withContents ⟨1⟩ #[1])).backend.contents ⟨8⟩ ≠
        (compiledMoments.withContents ⟨1⟩ #[1]).backend.contents ⟨8⟩ := by decide +kernel
  have hn : Assembled (Network.new Backend.host {}) seededMoments :=
    (Assembled.start.draft _).operatorInto .copyInit [⟨0⟩] ⟨1⟩ 0
  have hdivided := compile_divided hn.outline ⟨rfl, Backend.host_idle.sound⟩ hm
  have hweight : compile 1 weightAsLabels = .ok ⟨⟩ compiledWeight :=
    Call.ok_of_isOk (by decide +kernel)
  have hkeeps : compiledWeight.KeepsParameters := by decide +kernel
  have htested : testedWeight.backend.contents ⟨5⟩ ≠ compiledWeight.backend.contents ⟨5⟩ := by
    decide +kernel
  refine ⟨⟨_, _, ⟨8⟩, hm, hused, compiledMoments_auxiliary, hchanged, fun hconfined => ?_⟩,
    ⟨5⟩, hweight, hkeeps, compiledWeight_slot, htested⟩
  refine hchanged (hconfined.alters.contents ?_)
  rintro l ⟨node, -, t, j, ht, hslot⟩
  obtain ⟨u, hu, -, hmoment⟩ := compiledMoments_auxiliary
  exact (hdivided.apart hu hmoment ht hslot (by simp)).congr hused.later.buffers

end Network

end Backprop
