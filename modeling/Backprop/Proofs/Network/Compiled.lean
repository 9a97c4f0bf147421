import Mathlib
import Backprop.Proofs.Network.Initial
import Backprop.Proofs.Network.Outline
import Backprop.Proofs.Network.Planning

/-! What a compilation that succeeds leaves: storage that does not overlap and holds zeros
wherever no first value was written, and lists that hold the scheduled requests. -/

namespace Backprop

variable {α : Type}

namespace Backend

variable {b c : Backend α}

theorem Recorded.buffers {rs : Pass → List (Request α)} (h : b.Recorded c rs) :
    c.buffers = b.buffers := by
  obtain ⟨ks, hc⟩ := h.same
  rw [hc]
  rfl

theorem Recorded.device {rs : Pass → List (Request α)} (h : b.Recorded c rs) :
    c.device = b.device := by
  obtain ⟨ks, hc⟩ := h.same
  rw [hc]
  rfl

end Backend

theorem Storage.Occupies.congr {s : Storage} {b c : Backend α} {allocation elements count : Nat}
    (h : s.Occupies b allocation elements count) (hb : c.buffers = b.buffers)
    (hs : c.device.sizes = b.device.sizes) : s.Occupies c allocation elements count := by
  obtain ⟨base, whole, hbase, hwhole, ha, hr⟩ := h.base
  obtain ⟨stride, hstride, hslots⟩ := h.slots
  exact ⟨⟨base, whole, hbase, hb ▸ hwhole, ha, hr.congr hb hs⟩, h.size, stride, hstride,
    fun j k hk => ⟨(hslots j k hk).1.congr hb hs,
      (Backend.window?_congr hb k).trans (hslots j k hk).2⟩⟩

theorem Tensor.Stored.congr [Zero α] {t : Tensor} {b c : Backend α} {allocation : Side → Nat}
    {auxiliary : Nat} (h : t.Stored b allocation auxiliary) (hb : c.buffers = b.buffers)
    (hs : c.device.sizes = b.device.sizes) : t.Stored c allocation auxiliary where
  occupies side hl := (h.occupies side hl).congr hb hs
  apart := h.apart
  dead := h.dead
  size_auxiliary := h.size_auxiliary
  auxiliary i k hk := by
    obtain ⟨hr, w, hw, hle⟩ := h.auxiliary i k hk
    exact ⟨hr.congr hb hs, w, (Backend.window?_congr hb k).trans hw, hle⟩

namespace Network

/-- The graph of the second network is that of the first with the rows of a batch, with scratch, and
with any storage. -/
structure Expanded (n m : Network α) (batch : Nat) : Prop where
  tensor : ∀ (i : Nat) (t : Tensor), n.tensors[i]? = some t → ∃ t', m.tensors[i]? = some t' ∧
    (n.batchTensor batch i t).SameButStorage t'
  scratch : ∀ (i : Nat) (t : Tensor), n.tensors.size ≤ i → m.tensors[i]? = some t →
    ∃ elements, (scratchTensor elements).SameButStorage t
  size_nodes : m.nodes.size = n.nodes.size
  node : ∀ (i : Nat) (node : Node α), n.nodes[i]? = some node →
    ∃ ids needs, (m.nodes[i]?).map unlisted = some (unlisted { node with scratch := ids }) ∧
      (∀ x ∈ ids, n.tensors.size ≤ x.index) ∧ m.nodeScratch node = .ok needs ∧
      List.Forall₂ (fun x need => ∃ t, m.tensors[x.index]? = some t ∧ need ≤ t.shape.elements)
        ids needs

theorem Expanded.congr {n m k : Network α} {batch : Nat} (h : Expanded n m batch) (ht : k.tensors = m.tensors)
    (hn : k.nodes.map unlisted = m.nodes.map unlisted) : Expanded n k batch := by
  have hscratch : k.nodeScratch = m.nodeScratch := by
    funext node
    have htensor : k.tensor = m.tensor := by
      funext id
      rw [Network.tensor, Network.tensor, ht]
    unfold nodeScratch shape
    rw [htensor]
  refine ⟨ht ▸ h.tensor, ht ▸ h.scratch, ?_, fun i node hi => ?_⟩
  · rw [← h.size_nodes, ← Array.size_map (f := unlisted), hn, Array.size_map]
  · rw [← Array.getElem?_map, hn, Array.getElem?_map, ht, hscratch]
    exact h.node i node hi

theorem Planned.expanded [Zero α] {n m₂ m₃ : Network α} {batch auxiliary count : Nat}
    (hp : Planned n m₂ batch) (h₃ : Instantiating m₂ auxiliary count m₃) : Expanded n m₃ batch := by
  have hnodes : m₃.nodes = m₂.nodes := by rw [h₃.same]
  refine ⟨fun i t ht => ?_, fun i t hi ht => ?_, by rw [hnodes, hp.size_nodes],
    fun i node hi => ?_⟩
  · obtain ⟨t', ht', hst, -⟩ := h₃.tensor i _ (hp.tensor i t ht)
    exact ⟨t', ht', hst⟩
  · have hlt : i < m₂.tensors.size := h₃.size ▸ (Array.getElem?_eq_some_iff.mp ht).1
    obtain ⟨t', ht', hst, -⟩ := h₃.tensor i _ (Array.getElem?_eq_getElem hlt)
    rw [ht] at ht'
    cases ht'
    obtain ⟨elements, he⟩ := hp.scratch i _ hi (Array.getElem?_eq_getElem hlt)
    exact ⟨elements, he ▸ hst⟩
  · obtain ⟨ids, needs, hnode, hids, hneeds, hcov⟩ := hp.node i node hi
    refine ⟨ids, needs, by rw [hnodes, hnode, Option.map_some], hids, ?_,
      hcov.imp fun x need ⟨t, ht, hle⟩ => ?_⟩
    · simp only [nodeScratch, Except.bind_ok_iff, Except.mapM_ok_iff, Except.pure_ok_iff] at hneeds ⊢
      obtain ⟨shapes, hs, he⟩ := hneeds
      refine ⟨shapes, hs.imp fun x s hx => ?_, he⟩
      simp only [shape, Except.map_ok_iff, tensor_ok_iff] at hx ⊢
      obtain ⟨t, ht, hts'⟩ := hx
      obtain ⟨t', ht', hst, -⟩ := h₃.tensor _ t ht
      refine ⟨t', ht', ?_⟩
      rw [hst]
      exact hts'
    · obtain ⟨t', ht', hst, -⟩ := h₃.tensor _ t ht
      refine ⟨t', ht', ?_⟩
      rw [hst]
      exact hle

section

variable [Zero α]

theorem Layout.congr {b c : Backend α} {floor auxiliary count : Nat} {ts : Array Tensor}
    {allocation : Nat → Side → Nat} (h : Layout b floor auxiliary ts count allocation)
    (hb : c.buffers = b.buffers) (hs : c.device.sizes = b.device.sizes) :
    Layout c floor auxiliary ts count allocation where
  stored i t hi ht := (h.stored i t hi ht).congr hb hs
  above := h.above
  below i t side hi ht hl := by
    have hsize : c.device.memory.size = b.device.memory.size := by
      have hh := congrArg Array.size hs
      simpa [Device.sizes] using hh
    rw [hsize]
    exact h.below i t side hi ht hl
  apart := h.apart
  auxiliary i t k w hi ht hk hw := by
    have hsize : c.device.memory.size = b.device.memory.size := by
      have hh := congrArg Array.size hs
      simpa [Device.sizes] using hh
    rw [hsize]
    exact h.auxiliary i t k w hi ht hk (by rwa [Backend.window?_congr hb] at hw)

/-- The storage of a compiled network. All of it is blank but for the values of parameters. -/
structure Arranged (m : Network α) (auxiliary : Nat) (allocation : Nat → Side → Nat) : Prop where
  layout : ∃ floor, Layout m.backend floor auxiliary m.tensors m.tensors.size allocation
  blank : ∀ (i : Nat) (t : Tensor) (side : Side), m.tensors[i]? = some t → t.Lives side →
    (t.kind = .parameter → side = .backward) → m.backend.Blank (allocation i side)
  blank_auxiliary : ∀ (i : Nat) (t : Tensor) (k : BufferId) (w : Window), m.tensors[i]? = some t →
    k ∈ t.auxiliary → m.backend.window? k = some w → m.backend.Blank w.allocation

/-- The second network is what a compilation makes of the first. -/
structure Compiled (n m : Network α) (batch : Nat) : Prop where
  stage : m.stage = .compiled
  longest : m.maxSequence = n.maxSequence
  optimizer : m.optimizer = n.optimizer
  tensor : ∀ (i : Nat) (t : Tensor), n.tensors[i]? = some t → ∃ t', m.tensors[i]? = some t' ∧
    (n.batchTensor batch i t).SameButStorage t'
  scratch : ∀ (i : Nat) (t : Tensor), n.tensors.size ≤ i → m.tensors[i]? = some t →
    ∃ elements, (scratchTensor elements).SameButStorage t
  size_nodes : m.nodes.size = n.nodes.size
  node : ∀ (i : Nat) (node : Node α), n.nodes[i]? = some node →
    ∃ ids needs, (m.nodes[i]?).map unlisted = some (unlisted { node with scratch := ids }) ∧
      (∀ x ∈ ids, n.tensors.size ≤ x.index) ∧ m.nodeScratch node = .ok needs ∧
      List.Forall₂ (fun x need => ∃ t, m.tensors[x.index]? = some t ∧ need ≤ t.shape.elements)
        ids needs
  arranged : ∃ allocation, Arranged m n.auxiliaryCount allocation
  emits : ∀ step < m.maxSequence, ∀ i, (m.atStep step).EmitsAt step i
  lists : ∀ pass, List.Forall₂ m.backend.Implements
    (m.scheduled pass ++ if pass = .update then m.updates else [])
    (m.backend.dispatches.get pass).toList

end

theorem Compiled.expanded [Zero α] {n m : Network α} {batch : Nat} (h : Compiled n m batch) :
    Expanded n m batch :=
  ⟨h.tensor, h.scratch, h.size_nodes, h.node⟩

theorem SameEmissions.scheduled {n m : Network α} (h : n.SameEmissions m)
    (hl : m.maxSequence = n.maxSequence) (pass : Pass) : m.scheduled pass = n.scheduled pass := by
  unfold Network.scheduled scheduledUpTo
  rw [hl, h.size_nodes]
  congr 1
  funext step
  congr 1
  funext i
  exact (h.atStep step).emits pass step i

variable [Scalar α] {b : Backend α} {n m : Network α} {batch : Nat}

theorem compile_ok_iff :
    compile batch n = .ok ⟨⟩ m ↔ n.stage = .building ∧ ∃ m₁ m₂ m₃ m₄ m₅ m₆ m₇,
      applyBatch (max batch 1) n = .ok ⟨⟩ m₁ ∧ planScratch m₁ = .ok ⟨⟩ m₂ ∧
      instantiateAll m₂ = .ok ⟨⟩ m₃ ∧ emitAll m₃ = .ok ⟨⟩ m₄ ∧ emitUpdates m₄ = .ok ⟨⟩ m₅ ∧
      clearAll m₅ = .ok ⟨⟩ m₆ ∧ drawInitials m₆ = .ok ⟨⟩ m₇ ∧ m = { m₇ with stage := .compiled } := by
  have hstages : ∀ k : Network α, compileStages (max batch 1) n = .ok ⟨⟩ k ↔
      ∃ m₁ m₂ m₃ m₄ m₅ m₆,
        applyBatch (max batch 1) n = .ok ⟨⟩ m₁ ∧ planScratch m₁ = .ok ⟨⟩ m₂ ∧
        instantiateAll m₂ = .ok ⟨⟩ m₃ ∧ emitAll m₃ = .ok ⟨⟩ m₄ ∧ emitUpdates m₄ = .ok ⟨⟩ m₅ ∧
        clearAll m₅ = .ok ⟨⟩ m₆ ∧ drawInitials m₆ = .ok ⟨⟩ k := by
    intro k
    simp only [compileStages, Call.bind_ok_iff]
    constructor
    · rintro ⟨⟨⟩, m₁, h₁, ⟨⟩, m₂, h₂, ⟨⟩, m₃, h₃, ⟨⟩, m₄, h₄, ⟨⟩, m₅, h₅, ⟨⟩, m₆, h₆, h₇⟩
      exact ⟨m₁, m₂, m₃, m₄, m₅, m₆, h₁, h₂, h₃, h₄, h₅, h₆, h₇⟩
    · rintro ⟨m₁, m₂, m₃, m₄, m₅, m₆, h₁, h₂, h₃, h₄, h₅, h₆, h₇⟩
      exact ⟨⟨⟩, m₁, h₁, ⟨⟩, m₂, h₂, ⟨⟩, m₃, h₃, ⟨⟩, m₄, h₄, ⟨⟩, m₅, h₅, ⟨⟩, m₆, h₆, h₇⟩
  constructor
  · intro h
    obtain ⟨⟨⟩, _, hrequire, h⟩ := Call.bind_ok_iff.mp h
    obtain ⟨hb, rfl⟩ := requireBuilding_ok_iff.mp hrequire
    cases hs : compileStages (max batch 1) n with
    | error e k => simp [hs] at h
    | ok u k =>
      simp only [hs, EStateM.Result.ok.injEq, true_and] at h
      obtain ⟨m₁, m₂, m₃, m₄, m₅, m₆, h₁, h₂, h₃, h₄, h₅, h₆, h₇⟩ := (hstages k).mp hs
      exact ⟨hb, m₁, m₂, m₃, m₄, m₅, m₆, k, h₁, h₂, h₃, h₄, h₅, h₆, h₇, h.symm⟩
  · rintro ⟨hb, m₁, m₂, m₃, m₄, m₅, m₆, k, h₁, h₂, h₃, h₄, h₅, h₆, h₇, rfl⟩
    have hs := (hstages k).mpr ⟨m₁, m₂, m₃, m₄, m₅, m₆, h₁, h₂, h₃, h₄, h₅, h₆, h₇⟩
    exact Call.bind_ok_iff.mpr ⟨⟨⟩, n, requireBuilding_ok_iff.mpr ⟨hb, rfl⟩, by simp [hs]⟩

omit [Scalar α] in
theorem Planned.sound (hn : Outline b n) (hp : Planned n m batch) {i : Nat} {t : Tensor}
    (ht : m.tensors[i]? = some t) : t.Sound := by
  by_cases hi : i < n.tensors.size
  · obtain ⟨u, hu⟩ : ∃ u, n.tensors[i]? = some u := ⟨_, Array.getElem?_eq_getElem hi⟩
    rw [hp.tensor i u hu] at ht
    cases ht
    have hplain : n.plain[i]? = some u.plain := by rw [plain_getElem?, hu, Option.map_some]
    have hs := (hn.tensors i _ hplain).1
    exact batchTensor_sound n batch i ⟨hs.sequence, hs.cursor, hs.elements, hs.bare⟩
  · obtain ⟨elements, rfl⟩ := hp.scratch i t (Nat.le_of_not_lt hi) ht
    exact scratchTensor_sound elements

omit [Scalar α] in
theorem Instantiating.cleared [Zero α] {m₃ m₄ m₅ m₆ : Network α} {auxiliary count : Nat}
    (h₃ : Instantiating n auxiliary count m₃) (hcount : count = n.tensors.size)
    (h₄ : Unwound m₃ m₄) (h₅ : m₅ = { m₄ with backend := m₅.backend })
    (h₅' : m₄.backend.Recorded m₅.backend fun pass => if pass = .update then m₄.updates else [])
    (h₆ : clearAll m₅ = .ok ⟨⟩ m₆) : ∃ allocation,
      Layout m₆.backend n.backend.device.memory.size auxiliary m₆.tensors m₆.tensors.size
        allocation ∧
      ∀ a, n.backend.device.memory.size ≤ a → m₆.backend.Blank a := by
  obtain ⟨hm₆, hwiped⟩ := clearAll_ok h₆
  obtain ⟨allocation, hl⟩ := h₃.layout
  have hts : m₆.tensors = m₃.tensors := by rw [hm₆, h₅, h₄.same]
  have hbuffers : m₆.backend.buffers = m₃.backend.buffers := by
    rw [hwiped.same, h₅'.buffers, h₄.recorded.buffers]
  have hsizes : m₆.backend.device.sizes = m₃.backend.device.sizes := by
    rw [hwiped.sizes, h₅'.device, h₄.recorded.device]
  rw [hcount, ← h₃.size, ← hts] at hl
  refine ⟨allocation, hl.congr hbuffers hsizes, fun a ha => hwiped.blank _ ?_⟩
  intro words hw
  rw [h₅'.device, h₄.recorded.device] at hw
  exact h₃.grows.blank ha words hw

theorem Instantiating.arranged {m₃ m₄ m₅ m₆ m₇ : Network α} {auxiliary count : Nat}
    (h₃ : Instantiating n auxiliary count m₃) (hcount : count = n.tensors.size)
    (initializers : ∀ p ∈ n.initializers, IsParameter n.tensors p.1)
    (h₄ : Unwound m₃ m₄) (h₅ : m₅ = { m₄ with backend := m₅.backend })
    (h₅' : m₄.backend.Recorded m₅.backend fun pass => if pass = .update then m₄.updates else [])
    (h₆ : clearAll m₅ = .ok ⟨⟩ m₆) (h₇ : drawInitials m₆ = .ok ⟨⟩ m₇) :
    m₇ = { m₅ with backend := m₇.backend, generator := m₇.generator } ∧
      m₅.backend.SameButDevice m₇.backend ∧ ∃ allocation, Arranged m₇ auxiliary allocation := by
  obtain ⟨allocation, hl₆, hblank⟩ := h₃.cleared hcount h₄ h₅ h₅' h₆
  obtain ⟨hm₆, hwiped⟩ := clearAll_ok h₆
  have hts : m₆.tensors = m₃.tensors := by rw [hm₆, h₅, h₄.same]
  have hinit : m₆.initializers = n.initializers := by rw [hm₆, h₅, h₄.same, h₃.same]
  -- first values reach the parameters at most
  obtain ⟨hm₇, htouch⟩ := drawInitials_ok (A := fun a => ∃ i t, m₆.tensors[i]? = some t ∧
    t.kind = .parameter ∧ a = allocation i .forward) (fun p hp t k v ht hk hv => by
      rw [hinit] at hp
      obtain ⟨u, hu, hkind⟩ := initializers p hp
      obtain ⟨u', hu', hsame, -⟩ := h₃.tensor _ u hu
      rw [hts, hu'] at ht
      cases ht
      have hpar : t.kind = .parameter := by
        rw [hsame]
        exact hkind
      rw [← hts] at hu'
      have hst := hl₆.stored _ t (Array.getElem?_eq_some_iff.mp hu').1 hu'
      obtain ⟨stride, -, hslots⟩ := (hst.occupies .forward t.lives_forward).slots
      simp only [Tensor.forwardBuffer, Tensor.slot_ok_iff] at hk
      obtain ⟨-, hw⟩ := hslots _ k hk.2
      rw [hw] at hv
      cases hv
      exact ⟨_, t, hu', hpar, rfl⟩) h₇
  have hsame : m₅.backend.SameButDevice m₇.backend := hwiped.same.trans htouch.same
  have hts₇ : m₇.tensors = m₆.tensors := by rw [hm₇]
  refine ⟨by rw [hm₇, hm₆], hsame, allocation, ⟨n.backend.device.memory.size, ?_⟩,
    fun i t side ht hlive hpar => ?_, fun i t k w ht hk hw => ?_⟩
  · rw [hts₇]
    exact hl₆.congr htouch.buffers htouch.sizes
  · rw [hts₇] at ht
    have hi := (Array.getElem?_eq_some_iff.mp ht).1
    have hnot : ¬∃ j u, m₆.tensors[j]? = some u ∧ u.kind = .parameter ∧
        allocation i side = allocation j .forward := by
      rintro ⟨j, u, hu, hkind, heq⟩
      have hj := (Array.getElem?_eq_some_iff.mp hu).1
      obtain ⟨rfl, rfl⟩ := hl₆.apart i j t u side .forward hi hj ht hu hlive u.lives_forward heq
      rw [ht] at hu
      cases hu
      cases hpar hkind
    intro words hw
    rw [htouch.memory _ hnot] at hw
    exact hblank _ (hl₆.above i side hi) words hw
  · rw [hts₇] at ht
    rw [Backend.window?_congr htouch.buffers] at hw
    obtain ⟨habove, -, happ⟩ :=
      hl₆.auxiliary i t k w (Array.getElem?_eq_some_iff.mp ht).1 ht hk hw
    have hnot : ¬∃ j u, m₆.tensors[j]? = some u ∧ u.kind = .parameter ∧
        w.allocation = allocation j .forward := by
      rintro ⟨j, u, hu, -, heq⟩
      exact happ j u .forward (Array.getElem?_eq_some_iff.mp hu).1 hu u.lives_forward heq
    intro words hwords
    rw [htouch.memory _ hnot] at hwords
    exact hblank _ habove words hwords

omit [Scalar α] in
theorem Planned.ready [Zero α] {m₂ m₃ : Network α} (hn : Outline b n) (idle : b.Idle)
    (hp : Planned n m₂ batch) (h₃ : instantiateAll m₂ = .ok ⟨⟩ m₃) :
    m₃.backend.Idle ∧ ∀ t ∈ m₃.tensors, t.cursor = 0 := by
  have hinst := instantiateAll_ok (fun i t ht => (hp.sound hn ht).sequence) h₃
  refine ⟨?_, fun t ht => ?_⟩
  · obtain ⟨staging, ts, nodes, scratch, hm₂⟩ := hp.same
    obtain ⟨bs, ms, -, hg⟩ := hinst.grows
    have hbackend : m₂.backend = b := by rw [hm₂, hn.backend]
    rw [hg, hbackend]
    exact ⟨idle.dispatches, idle.sound⟩
  · obtain ⟨i, hi⟩ := Array.getElem?_of_mem ht
    have hlt : i < m₂.tensors.size := hinst.size ▸ (Array.getElem?_eq_some_iff.mp hi).1
    obtain ⟨u, hu, hsame, -⟩ := hinst.tensor i _ (Array.getElem?_eq_getElem hlt)
    rw [hi] at hu
    cases hu
    rw [hsame]
    exact (hp.sound hn (Array.getElem?_eq_getElem hlt)).cursor

/-- The stages of a compilation that succeeds, each with what it leaves. -/
theorem compile_stages (hn : Outline b n) (idle : b.Idle) (h : compile batch n = .ok ⟨⟩ m) :
    ∃ m₁ m₂ m₃ m₄ m₅ m₆ m₇, applyBatch (max batch 1) n = .ok ⟨⟩ m₁ ∧
      planScratch m₁ = .ok ⟨⟩ m₂ ∧ Planned n m₂ (max batch 1) ∧ instantiateAll m₂ = .ok ⟨⟩ m₃ ∧
      emitAll m₃ = .ok ⟨⟩ m₄ ∧ Unwound m₃ m₄ ∧ m₅ = { m₄ with backend := m₅.backend } ∧
      m₄.backend.Recorded m₅.backend (fun pass => if pass = .update then m₄.updates else []) ∧
      clearAll m₅ = .ok ⟨⟩ m₆ ∧ drawInitials m₆ = .ok ⟨⟩ m₇ ∧
      m = { m₇ with stage := .compiled } := by
  obtain ⟨-, m₁, m₂, m₃, m₄, m₅, m₆, m₇, h₁, h₂, h₃, h₄, h₅, h₆, h₇, rfl⟩ := compile_ok_iff.mp h
  have hplan := plan_ok h₁ h₂
  obtain ⟨hidle, hrewound⟩ := hplan.ready hn idle h₃
  have hun := emitAll_ok hidle.sound hrewound h₄
  obtain ⟨hm₅, hrec⟩ := emitUpdates_ok hun.recorded.sound h₅
  exact ⟨m₁, m₂, m₃, m₄, m₅, m₆, m₇, h₁, h₂, hplan, h₃, h₄, hun, hm₅, hrec, h₆, h₇, rfl⟩

theorem compile_ok (hn : Outline b n) (idle : b.Idle) (h : compile batch n = .ok ⟨⟩ m) :
    Compiled n m (max batch 1) := by
  obtain ⟨-, m₂, m₃, m₄, m₅, m₆, m₇, -, -, hplan, h₃, -, hun, hm₅, hrec, h₆, h₇, rfl⟩ :=
    compile_stages hn idle h
  obtain ⟨staging, ts, nodes, scratch, hm₂⟩ := hplan.same
  have hinst := instantiateAll_ok (fun i t ht => (hplan.sound hn ht).sequence) h₃
  have hbackend : m₂.backend = b := by rw [hm₂, hn.backend]
  have hinits : ∀ p ∈ m₂.initializers, IsParameter m₂.tensors p.1 := by
    intro p hp
    rw [hm₂] at hp
    obtain ⟨t, ht, hkind⟩ := hn.initializers p hp
    rw [plain_getElem?, Option.map_eq_some_iff] at ht
    obtain ⟨u, hu, rfl⟩ := ht
    refine ⟨_, hplan.tensor _ u hu, ?_⟩
    rw [batchTensor_eq]
    exact hkind
  obtain ⟨hm₇, hdevice, harranged⟩ := hinst.arranged rfl hinits hun hm₅ hrec h₆ h₇
  have hts : m₇.tensors = m₃.tensors := by rw [hm₇, hm₅, hun.same]
  have hnodes : m₇.nodes.map unlisted = m₃.nodes.map unlisted := by
    rw [hm₇, hm₅]
    exact hun.nodes
  have hnodes₃ : m₃.nodes = m₂.nodes := by rw [hinst.same]
  have hlongest : m₃.maxSequence = n.maxSequence := by rw [hinst.same, hm₂]
  have hsame : m₃.SameEmissions m₇ := ⟨hts, hnodes⟩
  have hkernels : m₇.backend.kernels = m₅.backend.kernels := by rw [hdevice]
  have hdispatches : m₇.backend.dispatches = m₅.backend.dispatches := by rw [hdevice]
  have hmax : m₇.maxSequence = m₃.maxSequence := by rw [hm₇, hm₅, hun.same]
  have hexpanded : Expanded n { m₇ with stage := .compiled } (max batch 1) :=
    (hplan.expanded hinst).congr hts hnodes
  refine
    { stage := rfl
      longest := by simp only [hmax, hlongest]
      optimizer := ?_
      tensor := hexpanded.tensor
      scratch := hexpanded.scratch
      size_nodes := hexpanded.size_nodes
      node := hexpanded.node
      arranged := ?_
      emits := fun step hs i => ?_
      lists := fun pass => ?_ }
  · change m₇.optimizer = n.optimizer
    rw [hm₇, hm₅, hun.same, hinst.same, hm₂]
  · obtain ⟨allocation, hl, hb, hx⟩ := harranged
    have haux : m₂.auxiliaryCount = n.auxiliaryCount := by
      rw [auxiliaryCount, hm₂, auxiliaryCount]
    rw [← haux]
    exact ⟨allocation, hl, hb, hx⟩
  · have hemits := hun.emits step (hs.trans_eq hmax) i
    exact (hsame.atStep step).emitsAt.mpr hemits
  · obtain ⟨ds, hds, hi⟩ := hun.recorded.lists pass
    obtain ⟨ds', hds', hi'⟩ := hrec.lists pass
    have hempty : (m₃.backend.dispatches.get pass).toList = [] := by
      rw [(hplan.ready hn idle h₃).1.dispatches]
      cases pass <;> rfl
    rw [hempty, List.nil_append] at hds
    have hupdates : m₄.updates = m₇.updates := by
      unfold updates
      have ho : m₇.optimizer = m₄.optimizer := by rw [hm₇, hm₅]
      have ht : m₇.tensors = m₄.tensors := by rw [hts, hun.same]
      rw [ho, ht]
    obtain ⟨ks, hm₅'⟩ := hrec.same
    change List.Forall₂ m₇.backend.Implements
      (m₇.scheduled pass ++ if pass = .update then m₇.updates else [])
      (m₇.backend.dispatches.get pass).toList
    rw [hdispatches, hds', hds, hsame.scheduled hmax, ← hupdates]
    refine List.rel_append (hi.imp fun r d hr => ?_) (hi'.imp fun r d hr => hr.congr hkernels)
    exact (hr.withKernels ks).congr (by rw [hkernels, hm₅'])

end Network

end Backprop
