import Mathlib
import Backprop.Proofs.Network.SequenceWrites
import Backprop.Proofs.Network.Sized
import Backprop.Proofs.Network.Updates

/-! Stages of a compilation that cannot fail: there is room for what is stored, every operator and
every update can be recorded, and all storage can be cleared. -/

namespace Backprop

variable {α β γ : Type}

namespace Network

variable {n m : Network α} {batch : Nat}

/-! ### Rows and scratch -/

theorem applyBatch_succeeds (h : ∀ t ∈ n.tensors.mapIdx (n.batchTensor batch),
    t.shape.elements * 4 ≤ sequenceLimit) : ∃ m, applyBatch batch n = .ok ⟨⟩ m := by
  refine ⟨_, applyBatch_ok_iff.mpr ⟨?_, rfl⟩⟩
  rw [← Array.foldl_toList]
  have hle : (n.tensors.mapIdx (n.batchTensor batch)).toList.foldl
      (fun largest t => max largest t.shape.elements) 0 ≤ sequenceLimit / 4 :=
    foldl_max_le (Nat.zero_le _) fun t ht => by
      have hroom := h t (Array.mem_toList_iff.mp ht)
      omega
  omega

theorem planScratch_succeeds
    (h : ∀ node ∈ n.nodes, ∀ x ∈ node.inputs, x.index < n.tensors.size) :
    ∃ m, planScratch n = .ok ⟨⟩ m := by
  obtain ⟨needs, hneeds⟩ := exists_forall₂ (R := fun node need => n.nodeScratch node = .ok need)
    (l := n.nodes.toList) fun node hn => by
      obtain ⟨shapes, hshapes⟩ := exists_forall₂ (R := fun x s => n.shape x = .ok s)
        (l := node.inputs) fun x hx =>
          ⟨n.shapeOf x, by
            have hget := Array.getElem?_eq_getElem (h node (Array.mem_toList_iff.mp hn) x hx)
            rw [shapeOf_eq hget, shape, Network.tensor, hget]
            rfl⟩
      simp only [nodeScratch, Except.bind_ok_iff, Except.mapM_ok_iff, Except.pure_ok_iff]
      exact ⟨_, shapes, hshapes, rfl⟩
  exact ⟨_, planScratch_ok_iff.mpr ⟨needs, Except.mapM_ok_iff.mpr hneeds, rfl⟩⟩

theorem plan_room {m₁ : Network α} (h₁ : applyBatch batch n = .ok ⟨⟩ m₁)
    (h₂ : planScratch m₁ = .ok ⟨⟩ m)
    (sound : ∀ u ∈ n.tensors.mapIdx (n.batchTensor batch), u.Sound) {size : Nat → Nat}
    {limit : Nat} (room : ∀ u ∈ n.tensors.mapIdx (n.batchTensor batch),
      size u.shape.bytes * u.slotCount ≤ limit) {t : Tensor} (ht : t ∈ m.tensors) :
    size t.shape.bytes * t.slotCount ≤ limit := by
  obtain ⟨u, hu, rfl | rfl⟩ := plan_tensor h₁ h₂ ht
  · exact room _ hu
  · have hpos := (sound u hu).elements
    have hbytes : (scratchTensor u.shape.elements).shape.bytes = u.shape.bytes := by
      rw [scratchTensor_eq, Nat.max_eq_left hpos]
      simp only [Shape.bytes, Shape.elements, Nat.mul_one]
    have hcount : (scratchTensor u.shape.elements).slotCount = 1 := by
      rw [scratchTensor_eq]
      rfl
    rw [hbytes, hcount, Nat.mul_one]
    exact (Nat.le_mul_of_pos_right _ (Tensor.slotCount_pos (sound u hu).sequence)).trans (room u hu)

/-! ### Emissions -/

theorem mapM_onBackend_ok_iff {f : β → Backend.Call α γ} {l : List β} {ys : List γ} :
    (l.mapM fun x => onBackend (f x)) n = .ok ys m ↔
      ∃ c, l.mapM f n.backend = .ok ys c ∧ m = { n with backend := c } := by
  induction l generalizing n ys with
  | nil =>
    simp only [Call.mapM_nil_ok_iff]
    constructor
    · rintro ⟨rfl, rfl⟩
      exact ⟨_, ⟨rfl, rfl⟩, rfl⟩
    · rintro ⟨c, ⟨rfl, rfl⟩, rfl⟩
      exact ⟨rfl, rfl⟩
  | cons x l ih =>
    simp only [Call.mapM_cons_ok_iff, onBackend_ok_iff]
    constructor
    · rintro ⟨y, n₁, zs, ⟨c, hc, rfl⟩, hl, rfl⟩
      obtain ⟨c', hc', rfl⟩ := ih.mp hl
      exact ⟨c', ⟨y, c, zs, hc, hc', rfl⟩, rfl⟩
    · rintro ⟨c', ⟨y, c, zs, hc, hc', rfl⟩, rfl⟩
      exact ⟨y, _, zs, ⟨c, hc, rfl⟩, ih.mpr ⟨c', hc', rfl⟩, rfl⟩

theorem submitAll_succeeds {requests : List (Request α)} (pass : Pass) (sound : n.backend.Sound)
    (accepts : ∀ r ∈ requests, n.backend.Accepts r) : ∃ positions m,
      submitAll requests pass n = .ok positions m ∧ m.backend.Sound ∧
        ∀ r, n.backend.Accepts r → m.backend.Accepts r := by
  obtain ⟨positions, c, hc, hrec⟩ := Backend.submit_each pass sound accepts
  exact ⟨positions, _, mapM_onBackend_ok_iff.mpr ⟨c, hc, rfl⟩, hrec.sound, fun r hr =>
    hr.recorded hrec⟩

/-- What the operator at an index emits where the cursors stand can be recorded. -/
def AcceptsAt (n : Network α) (step index : Nat) : Prop :=
  ∀ node, n.nodes[index]? = some node → ∃ e, n.emission node step = .ok e ∧
    ∀ pass, ∀ r ∈ e.get pass, n.backend.Accepts r

theorem AcceptsAt.later {step index : Nat} {rs : Pass → List (Request α)} (h : n.AcceptsAt step index)
    (hs : n.SameEmissions m) (hr : n.backend.Recorded m.backend rs) : m.AcceptsAt step index := by
  intro node hnode
  have hsame := hs.node index
  rw [hnode, Option.map_some, eq_comm, Option.map_eq_some_iff] at hsame
  obtain ⟨other, hother, heq⟩ := hsame
  obtain ⟨e, he, haccepts⟩ := h other hother
  exact ⟨e, emission_congr hs.1 heq.symm step ▸ he, fun pass r hr' =>
    (haccepts pass r hr').recorded hr⟩

theorem emitNode_succeeds {step index : Nat} (sound : n.backend.Sound)
    (h : n.AcceptsAt step index) : ∃ m, emitNode step index n = .ok ⟨⟩ m := by
  simp only [emitNode, Call.get_bind_ok_iff]
  cases hnode : n.nodes[index]? with
  | none => exact ⟨n, rfl⟩
  | some node =>
    obtain ⟨e, he, haccepts⟩ := h node hnode
    obtain ⟨fs, m₁, hf, sound₁, later₁⟩ := submitAll_succeeds .forward sound (haccepts .forward)
    obtain ⟨bs, m₂, hb, -, -⟩ := submitAll_succeeds .backward sound₁ fun r hr =>
      later₁ r (haccepts .backward r hr)
    simp only [Call.bind_ok_iff, Call.ofExcept_ok_iff, Call.modify_ok_iff]
    exact ⟨_, e, n, ⟨he, rfl⟩, fs, m₁, hf, bs, m₂, hb, rfl⟩

theorem emitStep_succeeds {step : Nat} (sound : n.backend.Sound)
    (h : ∀ index, n.AcceptsAt step index) : ∃ m, emitStep step n = .ok ⟨⟩ m := by
  simp only [emitStep, Call.get_bind_ok_iff]
  obtain ⟨m, hm, -⟩ := Call.forM_range_succeeds (Emitting.start sound step) fun i s _ hs => by
    obtain ⟨s', hs'⟩ := emitNode_succeeds hs.recorded.sound ((h i).later hs.emissions hs.recorded)
    exact ⟨s', hs', hs.next hs'⟩
  exact ⟨_, Call.bind_ok_iff.mpr ⟨⟨⟩, m, hm, Call.modify_ok_iff.mpr rfl⟩⟩

theorem emitAll_succeeds (sound : n.backend.Sound) (rewound : ∀ t ∈ n.tensors, t.cursor = 0)
    (h : ∀ step < n.maxSequence, ∀ index, (n.atStep step).AcceptsAt step index) :
    ∃ m, emitAll n = .ok ⟨⟩ m := by
  simp only [emitAll, Call.get_bind_ok_iff]
  obtain ⟨m, hm, -⟩ := Call.forM_range_succeeds (Unrolling.start sound rewound) fun step s hstep hs => by
    obtain ⟨s', hs'⟩ := emitStep_succeeds hs.recorded.sound fun index =>
      (h step hstep index).later hs.emissions hs.recorded
    exact ⟨s', hs', hs.next hs'⟩
  exact ⟨_, Call.bind_ok_iff.mpr ⟨⟨⟩, m, hm, Call.modify_ok_iff.mpr rfl⟩⟩

/-! ### Storage -/

section

variable [Zero α] {k : Network α} {auxiliary : Nat} {allocation : Nat → Side → Nat}

theorem Arranged.recorded {rs : Pass → List (Request α)} (ha : Arranged m auxiliary allocation)
    (ht : k.tensors = m.tensors) (hr : m.backend.Recorded k.backend rs) :
    Arranged k auxiliary allocation := by
  obtain ⟨floor, hl⟩ := ha.layout
  have hblank : ∀ a, m.backend.Blank a → k.backend.Blank a := fun a h words hw => by
    rw [hr.device] at hw
    exact h words hw
  refine ⟨⟨floor, ?_⟩, fun i t side hi hl hp => ?_, fun i t h w hi hh hw => ?_⟩
  · rw [ht]
    exact hl.congr hr.buffers (by rw [hr.device])
  · rw [ht] at hi
    exact hblank _ (ha.blank i t side hi hl hp)
  · rw [ht] at hi
    rw [Backend.window?_congr hr.buffers] at hw
    exact hblank _ (ha.blank_auxiliary i t h w hi hh hw)

theorem Instantiating.stored {count : Nat} (h : Instantiating m auxiliary count k)
    (hcount : count = m.tensors.size) : ∃ allocation, Arranged k auxiliary allocation := by
  obtain ⟨allocation, hl⟩ := h.layout
  rw [hcount, ← h.size] at hl
  have hblank : ∀ a, m.backend.device.memory.size ≤ a → k.backend.Blank a :=
    fun a ha words hw => h.grows.blank ha words hw
  refine ⟨allocation, ⟨_, hl⟩, fun i t side hi _ _ => ?_, fun i t x w hi hx hw => ?_⟩
  · exact hblank _ (hl.above i side (Array.getElem?_eq_some_iff.mp hi).1)
  · exact hblank _ (hl.auxiliary i t x w (Array.getElem?_eq_some_iff.mp hi).1 hi hx hw).1

end

/-! ### Updates -/

section

variable [Zero α] {auxiliary i : Nat} {allocation : Nat → Side → Nat} {t : Tensor}
  {o : Optimizer α} {c : Backend α}

theorem Arranged.parameter_holds (ha : Arranged m auxiliary allocation)
    (ht : m.tensors[i]? = some t) (kind : t.kind = .parameter) (sequence : 0 < t.sequence)
    (hb : c.buffers = m.backend.buffers) (hs : c.device.sizes = m.backend.device.sizes)
    {h : BufferId} (hh : t.backwardBuffer .current = .ok h ∨ t.forwardBuffer .current = .ok h ∨
      ∃ j, t.forwardBuffer (.timestep j) = .ok h) :
    c.Resolves h ∧ t.shape.elements ≤ (c.contents h).size := by
  have hparts := Tensor.parameter_part (h := h) kind
  have hslot : ∀ side, t.part? (.slot side 0) = some h →
      c.Resolves h ∧ t.shape.elements ≤ (c.contents h).size := by
    intro side hpart
    have hl : t.Lives side := fun _ => by rw [kind]; rfl
    obtain ⟨-, stride, -, hslots⟩ := ha.side ht hl
    obtain ⟨hslot, hr, -⟩ := hslots 0 (Tensor.slotCount_pos sequence)
    obtain rfl : h = m.handle ⟨i, side, 0⟩ := Option.some.inj (hpart.symm.trans hslot)
    have hsize := ha.size_contents (p := ⟨i, side, 0⟩) (.refl m.backend) ht hl
      (Tensor.slotCount_pos sequence)
    exact ⟨hr.congr hb hs, by rw [Backend.size_contents_congr hr hb hs, hsize]⟩
  obtain hh | hh | ⟨j, hh⟩ := hh
  · exact hslot _ (hparts.1 hh)
  · exact hslot _ (hparts.2.1 hh)
  · obtain ⟨floor, hlayout⟩ := ha.layout
    obtain ⟨hr, w, hw, hle, -⟩ :=
      (hlayout.stored i t (Array.getElem?_eq_some_iff.mp ht).1 ht).auxiliary j h (hparts.2.2 j hh)
    obtain ⟨w', hw', hholds⟩ := hr.window?
    rw [hw, Option.some.injEq] at hw'
    subst hw'
    refine ⟨hr.congr hb hs, ?_⟩
    rw [Backend.size_contents_congr hr hb hs, Backend.contents, hw]
    simp only [Device.size_words hholds]
    exact hle

end

section

variable [Scalar α] {auxiliary i : Nat} {allocation : Nat → Side → Nat} {t : Tensor}
  {o : Optimizer α} {c : Backend α}

theorem Arranged.request_lasts (ha : Arranged m auxiliary allocation)
    (ht : m.tensors[i]? = some t) (kind : t.kind = .parameter) (sequence : 0 < t.sequence)
    {r : Request α} (hr : o.requests t = .ok [r]) (hb : c.buffers = m.backend.buffers)
    (hs : c.device.sizes = m.backend.device.sizes) : r.Lasts c :=
  Optimizer.requests_last hr fun _ => ha.parameter_holds ht kind sequence hb hs

theorem Arranged.emitUpdates_succeeds (ha : Arranged m m.auxiliaryCount allocation)
    (sound : m.backend.Sound) (registry : ∀ k : HostKernel, m.backend.registry.contains k.name)
    (sequence : ∀ (i : Nat) (t : Tensor), m.tensors[i]? = some t → 0 < t.sequence) :
    ∃ k, emitUpdates m = .ok ⟨⟩ k := by
  simp only [emitUpdates, Call.get_bind_ok_iff]
  cases ho : m.optimizer with
  | none => exact ⟨m, rfl⟩
  | some o =>
    have hcount : m.auxiliaryCount = o.auxiliaryCount := by rw [auxiliaryCount, ho]; rfl
    rw [hcount] at ha
    obtain ⟨k, hk, -⟩ := Call.forM_succeeds
      (P := fun k : Network α => k.backend.Sound ∧ ∀ r, m.backend.Accepts r → k.backend.Accepts r)
      (l := m.tensors.toList.filter (·.kind == .parameter))
      (f := fun t => do discard (submitAll (← ofExcept (o.requests t)) .update))
      (fun t ht k hk => by
        obtain ⟨hmem, hkind⟩ := List.mem_filter.mp ht
        have kind : t.kind = .parameter := by simpa using hkind
        obtain ⟨i, hi⟩ := Array.getElem?_of_mem (Array.mem_toList_iff.mp hmem)
        obtain ⟨r, hr⟩ := ha.requests_ok hi kind (sequence i t hi)
        have haccepts : m.backend.Accepts r := Optimizer.requests_accepted hr registry
          (ha.request_lasts hi kind (sequence i t hi) hr rfl rfl).resolves
        have hlist : ∀ r' ∈ [r], k.backend.Accepts r' := by simpa using hk.2 r haccepts
        obtain ⟨positions, k', hk', hsound, hlater⟩ := submitAll_succeeds .update hk.1 hlist
        refine ⟨k', ?_, hsound, fun r' hr' => hlater r' (hk.2 r' hr')⟩
        simp only [Call.discard_eq, Call.bind_ok_iff, Call.ofExcept_ok_iff, Call.pure_ok_iff]
        exact ⟨[r], k, ⟨hr, rfl⟩, positions, k', hk', trivial, rfl⟩)
      ⟨sound, fun _ => id⟩
    exact ⟨k, hk⟩

end

/-! ### Clearing -/

theorem Layout.clearAll_succeeds [Zero α] {floor auxiliary : Nat}
    {allocation : Nat → Side → Nat}
    (hl : Layout m.backend floor auxiliary m.tensors m.tensors.size allocation) :
    ∃ k, clearAll m = .ok ⟨⟩ k := by
  simp only [clearAll, Call.get_bind_ok_iff]
  suffices hrounds : ∃ k, m.tensors.toList.forM (fun t => onBackend t.clearAll) m = .ok ⟨⟩ k ∧
      k.backend.buffers = m.backend.buffers ∧ k.backend.device.sizes = m.backend.device.sizes from
    hrounds.imp fun k hk => hk.1
  refine Call.forM_succeeds (P := fun k : Network α => k.backend.buffers = m.backend.buffers ∧
    k.backend.device.sizes = m.backend.device.sizes) (fun t ht k hk => ?_) ⟨rfl, rfl⟩
  obtain ⟨i, hi⟩ := Array.getElem?_of_mem (Array.mem_toList_iff.mp ht)
  have hst := hl.stored i t (Array.getElem?_eq_some_iff.mp hi).1 hi
  have hzero : ∀ (side : Side) (c : Backend α), c.buffers = m.backend.buffers ∧ c.device.sizes = m.backend.device.sizes →
      ∃ d : Backend α, (t.storage side).zero c = .ok ⟨⟩ d ∧ d.buffers = m.backend.buffers ∧
        d.device.sizes = m.backend.device.sizes := by
    rintro side c ⟨hb, hs⟩
    obtain ⟨d, hd⟩ := Storage.zero_succeeds (s := t.storage side) (b := c) <| by
      by_cases hlives : t.Lives side
      · exact .inr ⟨_, _, _, (hst.occupies side hlives).congr hb hs⟩
      · cases side with
        | forward => exact absurd t.lives_forward hlives
        | backward =>
          have hdead : t.kind.hasBackward = false := by simpa [Tensor.Lives] using hlives
          exact .inl (hst.dead hdead)
    have hwiped := Storage.zero_wiped hd
    exact ⟨d, hd, by rw [hwiped.same, hb], hwiped.sizes.trans hs⟩
  obtain ⟨c₁, h₁, hc₁⟩ := hzero .forward k.backend hk
  obtain ⟨c₂, h₂, hc₂⟩ := hzero .backward c₁ hc₁
  exact ⟨_, onBackend_ok_iff.mpr ⟨c₂, Call.bind_ok_iff.mpr ⟨⟨⟩, c₁, h₁, h₂⟩, rfl⟩, hc₂⟩

end Network

end Backprop
