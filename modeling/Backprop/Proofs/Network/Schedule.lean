import Mathlib
import Backprop.Network.Compile
import Backprop.Proofs.Backend.Submission
import Backprop.Proofs.Network.Layout

/-! The fourth and fifth stages of a compilation: for each unroll step and each operator in the
order of registration the dispatches that it emits there, and then the updates. -/

namespace Backprop

variable {α : Type}

def Emission.get (e : Emission α) : Pass → List (Request α)
  | .forward => e.forward
  | .backward => e.backward
  | .update => []

/-- Requests have been recorded at the end of each list. -/
structure Backend.Recorded (b c : Backend α) (rs : Pass → List (Request α)) : Prop where
  same : ∃ ks, c = { b.withKernels ks with dispatches := c.dispatches }
  sound : c.Sound
  lists : ∀ pass, ∃ ds : List (Dispatch α),
    (c.dispatches.get pass).toList = (b.dispatches.get pass).toList ++ ds ∧
      List.Forall₂ c.Implements (rs pass) ds

namespace Backend.Recorded

variable {b c d : Backend α} {rs rs' : Pass → List (Request α)}

theorem refl (h : b.Sound) : b.Recorded b fun _ => [] :=
  ⟨⟨#[], by simp [withKernels]⟩, h, fun _ => ⟨[], by simp, .nil⟩⟩

theorem trans (h : b.Recorded c rs) (h' : c.Recorded d rs') :
    b.Recorded d fun pass => rs pass ++ rs' pass := by
  obtain ⟨ks, hc⟩ := h.same
  obtain ⟨ks', hd⟩ := h'.same
  refine ⟨⟨ks ++ ks', ?_⟩, h'.sound, fun pass => ?_⟩
  · rw [hd, hc]
    simp [withKernels]
  · obtain ⟨ds, hds, hi⟩ := h.lists pass
    obtain ⟨ds', hds', hi'⟩ := h'.lists pass
    refine ⟨ds ++ ds', by rw [hds', hds, List.append_assoc], List.rel_append (hi.imp ?_) hi'⟩
    intro r e he
    exact (he.withKernels ks').congr (by rw [hd])

theorem congr (h : b.Recorded c rs) (he : ∀ pass, rs pass = rs' pass) : b.Recorded c rs' :=
  ⟨h.same, h.sound, fun pass => he pass ▸ h.lists pass⟩

theorem submit {r : Request α} {pass : Pass} {position : Nat} (sound : b.Sound)
    (h : Backend.submit r pass b = .ok position c) :
    b.Recorded c fun p => if p = pass then [r] else [] := by
  obtain ⟨ks, e, rfl, hs, hi⟩ := submit_ok sound h
  refine ⟨⟨ks, rfl⟩, hs, fun p => ?_⟩
  by_cases hp : p = pass
  · subst hp
    exact ⟨[e], by simp, by simpa using hi⟩
  · exact ⟨[], by simp [PerPass.get_modify_of_ne _ _ hp], by simp [hp]⟩

end Backend.Recorded

namespace Backend

variable {b c : Backend α} {r : Request α} {rs : Pass → List (Request α)}

theorem Accepts.recorded (h : b.Accepts r) (hr : b.Recorded c rs) : c.Accepts r := by
  obtain ⟨ks, hks⟩ := hr.same
  rw [hks]
  exact ⟨h.kernel, h.buffers, h.launch, h.increment⟩

theorem submit_each {rs : List (Request α)} (pass : Pass) (sound : b.Sound)
    (accepts : ∀ r ∈ rs, b.Accepts r) : ∃ positions c,
    rs.mapM (fun r => submit r pass) b = .ok positions c ∧
      b.Recorded c fun p => if p = pass then rs else [] := by
  induction rs generalizing b with
  | nil =>
    exact ⟨[], b, Call.mapM_nil_ok_iff.mpr ⟨rfl, rfl⟩,
      (Recorded.refl sound).congr fun p => by simp⟩
  | cons r rs ih =>
    obtain ⟨position, m, hm⟩ := submit_succeeds sound (accepts r List.mem_cons_self) pass
    have hrec := Recorded.submit sound hm
    obtain ⟨positions, c, hc, hrec'⟩ := ih hrec.sound fun r' hr' =>
      (accepts r' (List.mem_cons_of_mem _ hr')).recorded hrec
    refine ⟨position :: positions, c, Call.mapM_cons_ok_iff.mpr ⟨position, m, positions, hm, hc,
      rfl⟩, (hrec.trans hrec').congr fun p => ?_⟩
    by_cases hp : p = pass
    · simp [hp]
    · simp [hp]

end Backend

namespace Network

variable {n m : Network α}

theorem submitAll_ok {requests : List (Request α)} {pass : Pass} {positions : List Nat}
    (sound : n.backend.Sound) (h : submitAll requests pass n = .ok positions m) :
    m = { n with backend := m.backend } ∧
      n.backend.Recorded m.backend fun p => if p = pass then requests else [] := by
  unfold submitAll at h
  induction requests generalizing n positions with
  | nil =>
    obtain ⟨rfl, rfl⟩ := Call.mapM_nil_ok_iff.mp h
    exact ⟨rfl, (Backend.Recorded.refl sound).congr fun p => by simp⟩
  | cons r requests ih =>
    obtain ⟨position, m₁, ps, hr, hrest, rfl⟩ := Call.mapM_cons_ok_iff.mp h
    obtain ⟨c, hc, rfl⟩ := onBackend_ok_iff.mp hr
    have hrec := Backend.Recorded.submit sound hc
    obtain ⟨hm, hrec'⟩ := ih hrec.sound hrest
    refine ⟨hm, (hrec.trans hrec').congr fun p => ?_⟩
    by_cases hp : p = pass
    · simp [hp]
    · simp [hp]

/-- An operator without its positions in the lists. -/
def unlisted (node : Node α) : Node α := { node with forward := [], backward := [] }

/-- Networks that emit the same. -/
def SameEmissions (n m : Network α) : Prop :=
  m.tensors = n.tensors ∧ m.nodes.map unlisted = n.nodes.map unlisted

theorem emission_congr {node other : Node α} (ht : m.tensors = n.tensors)
    (h : unlisted node = unlisted other) (step : Nat) :
    m.emission node step = n.emission other step := by
  obtain ⟨op, inputs, output, timeOffset, scratch, forward, backward⟩ := node
  obtain ⟨op', inputs', output', timeOffset', scratch', forward', backward'⟩ := other
  simp only [unlisted, Node.mk.injEq, and_true] at h
  obtain ⟨rfl, rfl, rfl, rfl, rfl⟩ := h
  have htensor : m.tensor = n.tensor := by
    funext id
    rw [tensor, tensor, ht]
  simp only [emission, Node.isActive, htensor]
  rfl

/-- What the operator at an index emits for a pass where the cursors stand. -/
def emits (n : Network α) (pass : Pass) (step index : Nat) : List (Request α) :=
  match n.nodes[index]? with
  | none => []
  | some node =>
    match n.emission node step with
    | .ok e => e.get pass
    | .error _ => []

def EmitsAt (n : Network α) (step index : Nat) : Prop :=
  ∀ node, n.nodes[index]? = some node → ∃ e, n.emission node step = .ok e

theorem SameEmissions.trans {k : Network α} (h : n.SameEmissions m) (h' : m.SameEmissions k) :
    n.SameEmissions k :=
  ⟨h'.1.trans h.1, h'.2.trans h.2⟩

theorem SameEmissions.node (h : n.SameEmissions m) (index : Nat) :
    (m.nodes[index]?).map unlisted = (n.nodes[index]?).map unlisted := by
  rw [← Array.getElem?_map, ← Array.getElem?_map, h.2]

theorem SameEmissions.emits (h : n.SameEmissions m) (pass : Pass) (step index : Nat) :
    m.emits pass step index = n.emits pass step index := by
  have hnode := h.node index
  unfold Network.emits
  cases hm : m.nodes[index]? with
  | none =>
    rw [hm, Option.map_none, eq_comm, Option.map_eq_none_iff] at hnode
    rw [hnode]
  | some node =>
    rw [hm, Option.map_some, eq_comm, Option.map_eq_some_iff] at hnode
    obtain ⟨other, ho, heq⟩ := hnode
    simp only [ho, emission_congr h.1 heq.symm step]

theorem SameEmissions.emitsAt (h : n.SameEmissions m) {step index : Nat} :
    m.EmitsAt step index ↔ n.EmitsAt step index := by
  have hnode := h.node index
  unfold EmitsAt
  cases hm : m.nodes[index]? with
  | none =>
    rw [hm, Option.map_none, eq_comm, Option.map_eq_none_iff] at hnode
    simp [hnode]
  | some node =>
    rw [hm, Option.map_some, eq_comm, Option.map_eq_some_iff] at hnode
    obtain ⟨other, ho, heq⟩ := hnode
    simp [ho, emission_congr h.1 heq.symm step]

theorem emitNode_ok {step index : Nat} (sound : n.backend.Sound)
    (h : emitNode step index n = .ok ⟨⟩ m) :
    m = { n with backend := m.backend, nodes := m.nodes } ∧ n.SameEmissions m ∧
      n.backend.Recorded m.backend (n.emits · step index) ∧ n.EmitsAt step index := by
  rw [emitNode, Call.get_bind_ok_iff] at h
  unfold Network.emits EmitsAt
  cases hn : n.nodes[index]? with
  | none =>
    simp only [hn] at h
    obtain ⟨-, rfl⟩ := Call.pure_ok_iff.mp h
    exact ⟨rfl, ⟨rfl, rfl⟩, .refl sound, nofun⟩
  | some node =>
    simp only [hn, Call.bind_ok_iff, Call.ofExcept_ok_iff, Call.modify_ok_iff] at h
    obtain ⟨e, _, ⟨he, rfl⟩, ps, m₁, hf, ps', m₂, hb, rfl⟩ := h
    obtain ⟨hm₁, hrec⟩ := submitAll_ok sound hf
    obtain ⟨hm₂, hrec'⟩ := submitAll_ok hrec.sound hb
    refine ⟨?_, ⟨?_, ?_⟩, (hrec.trans hrec').congr fun p => ?_, fun node' hn' => ?_⟩
    · rw [hm₂, hm₁]
    · rw [hm₂, hm₁]
    · rw [hm₂, hm₁]
      refine Array.ext_getElem? fun i => ?_
      simp only [Array.getElem?_map, Array.getElem?_modify]
      split
      · cases n.nodes[i]? <;> rfl
      · rfl
    · simp only [he]
      cases p <;> simp [Emission.get]
    · cases hn'
      exact ⟨e, he⟩

/-- What has been done when some of the operators have emitted at a step. -/
structure Emitting (n : Network α) (step count : Nat) (m : Network α) : Prop where
  same : m = { n with backend := m.backend, nodes := m.nodes }
  emissions : n.SameEmissions m
  recorded : n.backend.Recorded m.backend
    fun pass => (List.range count).flatMap (n.emits pass step)
  emits : ∀ i < count, n.EmitsAt step i

theorem Emitting.start (sound : n.backend.Sound) (step : Nat) : Emitting n step 0 n :=
  ⟨rfl, ⟨rfl, rfl⟩, .refl sound, by simp⟩

theorem Emitting.next {m' : Network α} {step count : Nat} (h : Emitting n step count m)
    (hstep : emitNode step count m = .ok ⟨⟩ m') : Emitting n step (count + 1) m' := by
  obtain ⟨hm, hsame, hrec, hemits⟩ := emitNode_ok h.recorded.sound hstep
  refine ⟨by rw [hm, h.same], h.emissions.trans hsame, (h.recorded.trans hrec).congr fun p => ?_,
    fun i hi => ?_⟩
  · rw [h.emissions.emits, List.range_succ, List.flatMap_append, List.flatMap_singleton]
  · obtain hlt | rfl := Nat.lt_succ_iff_lt_or_eq.mp hi
    · exact h.emits i hlt
    · exact h.emissions.emitsAt.mp hemits

theorem emitStep_ok {step : Nat} (sound : n.backend.Sound) (h : emitStep step n = .ok ⟨⟩ m) :
    ∃ m₁, Emitting n step n.nodes.size m₁ ∧
      m = { m₁ with tensors := n.tensors.map (·.advance) } := by
  rw [emitStep, Call.get_bind_ok_iff] at h
  obtain ⟨⟨⟩, m₁, hloop, hm⟩ := Call.bind_ok_iff.mp h
  have hall := Call.forM_range_induct (.start sound step)
    (fun i s s' _ hs hstep => Emitting.next hs hstep) hloop
  refine ⟨m₁, hall, ?_⟩
  rw [Call.modify_ok_iff.mp hm, hall.emissions.1]

def atStep (n : Network α) (step : Nat) : Network α :=
  { n with tensors := n.tensors.map (·.atStep step) }

/-- The requests of a pass up to an unroll step, step by step and operator by operator. -/
def scheduledUpTo (n : Network α) (steps : Nat) (pass : Pass) : List (Request α) :=
  (List.range steps).flatMap fun step =>
    (List.range n.nodes.size).flatMap ((n.atStep step).emits pass step)

def scheduled (n : Network α) (pass : Pass) : List (Request α) :=
  n.scheduledUpTo n.maxSequence pass

theorem SameEmissions.atStep (h : n.SameEmissions m) (step : Nat) :
    (n.atStep step).SameEmissions (m.atStep step) :=
  ⟨by simp only [Network.atStep, h.1], h.2⟩

theorem SameEmissions.size_nodes (h : n.SameEmissions m) : m.nodes.size = n.nodes.size := by
  rw [← Array.size_map (f := unlisted), h.2, Array.size_map]

theorem map_advance_atStep (ts : Array Tensor) (step : Nat) :
    (ts.map (·.atStep step)).map (·.advance) = ts.map (·.atStep (step + 1)) := by
  rw [Array.map_map]
  congr 1
  funext t
  simp only [Function.comp_apply, Tensor.advance, Tensor.atStep, Nat.mod_add_mod]

/-- What has been done when all operators have emitted at some of the steps. -/
structure Unrolling (n : Network α) (steps : Nat) (m : Network α) : Prop where
  same : m = { n with backend := m.backend, nodes := m.nodes, tensors := m.tensors }
  emissions : (n.atStep steps).SameEmissions m
  recorded : n.backend.Recorded m.backend (n.scheduledUpTo steps)
  emits : ∀ step < steps, ∀ i, (n.atStep step).EmitsAt step i

theorem Unrolling.start (sound : n.backend.Sound) (rewound : ∀ t ∈ n.tensors, t.cursor = 0) :
    Unrolling n 0 n := by
  have hts : n.tensors.map (·.atStep 0) = n.tensors := by
    refine Array.ext_getElem? fun i => ?_
    rw [Array.getElem?_map]
    cases ht : n.tensors[i]? with
    | none => rfl
    | some t =>
      simp [Tensor.atStep_zero (rewound t (Array.mem_of_getElem? ht))]
  exact ⟨rfl, ⟨by rw [atStep, hts], rfl⟩, .refl sound, by simp⟩

theorem Unrolling.next {m' : Network α} {steps : Nat} (h : Unrolling n steps m)
    (hstep : emitStep steps m = .ok ⟨⟩ m') : Unrolling n (steps + 1) m' := by
  obtain ⟨m₁, hm₁, rfl⟩ := emitStep_ok h.recorded.sound hstep
  have hsize : m.nodes.size = n.nodes.size := h.emissions.size_nodes
  refine ⟨?_, ⟨?_, ?_⟩, (h.recorded.trans hm₁.recorded).congr fun p => ?_, fun step hs i => ?_⟩
  · rw [hm₁.same, h.same]
  · simp only [h.emissions.1, atStep, map_advance_atStep]
  · exact hm₁.emissions.2.trans h.emissions.2
  · rw [scheduledUpTo, scheduledUpTo, List.range_succ, List.flatMap_append, List.flatMap_singleton,
      hsize]
    congr 2
    funext i
    exact h.emissions.emits p steps i
  · obtain hlt | rfl := Nat.lt_succ_iff_lt_or_eq.mp hs
    · exact h.emits step hlt i
    · by_cases hi : i < m.nodes.size
      · exact h.emissions.emitsAt.mp (hm₁.emits i hi)
      · intro node hn
        have hlt : i < n.nodes.size := (Array.getElem?_eq_some_iff.mp hn).1
        omega

/-- The lists of a network whose operators have all emitted. -/
structure Unwound (n m : Network α) : Prop where
  same : m = { n with backend := m.backend, nodes := m.nodes }
  nodes : m.nodes.map unlisted = n.nodes.map unlisted
  recorded : n.backend.Recorded m.backend n.scheduled
  emits : ∀ step < n.maxSequence, ∀ i, (n.atStep step).EmitsAt step i

theorem emitAll_ok (sound : n.backend.Sound) (rewound : ∀ t ∈ n.tensors, t.cursor = 0)
    (h : emitAll n = .ok ⟨⟩ m) : Unwound n m := by
  rw [emitAll, Call.get_bind_ok_iff] at h
  obtain ⟨⟨⟩, m₁, hloop, hm⟩ := Call.bind_ok_iff.mp h
  have hall := Call.forM_range_induct (.start sound rewound)
    (fun i s s' _ hs hstep => Unrolling.next hs hstep) hloop
  obtain rfl := Call.modify_ok_iff.mp hm
  have hts : m₁.tensors.map (·.rewind) = n.tensors := by
    rw [hall.emissions.1, atStep, Array.map_map]
    refine Array.ext_getElem? fun i => ?_
    rw [Array.getElem?_map]
    cases ht : n.tensors[i]? with
    | none => rfl
    | some t =>
      have hc := rewound t (Array.mem_of_getElem? ht)
      simp [Tensor.atStep, Tensor.rewind, ← hc]
  refine ⟨?_, hall.emissions.2, hall.recorded, hall.emits⟩
  rw [hall.same]
  simp only
  rw [hts]

end Network

end Backprop
