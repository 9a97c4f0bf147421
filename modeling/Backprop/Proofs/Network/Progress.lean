import Mathlib
import Backprop.Proofs.Network.FirstDraws
import Backprop.Proofs.Network.Stages

/-! What keeps compilations and passes from failing: room for all that is stored, and operators that
fit their tensors. -/

namespace Backprop.Network

variable {α : Type} [Scalar α] {b : Backend α} {n m k : Network α} {batch auxiliary : Nat}
  {allocation : Nat → Side → Nat}

/-! ### Compilation -/

theorem Sized.acceptsAt (h : Sized m) (ha : Arranged m auxiliary allocation)
    (registry : ∀ k : HostKernel, m.backend.registry.contains k.name) (step index : Nat) :
    (m.atStep step).AcceptsAt step index := by
  intro node hnode
  have hn : node ∈ m.nodes := Array.mem_of_getElem? hnode
  obtain ⟨e, he⟩ := h.emission ha hn step
  obtain ⟨hactive, hidle⟩ := (h.fitted node hn).emission ha h.sequence he
  refine ⟨e, he, fun pass r hr => ?_⟩
  by_cases hact : m.Active node step
  · obtain rfl := Except.ok.inj (he.symm.trans (hactive hact))
    exact h.accepted ha registry hn hr
  · obtain rfl := Except.ok.inj (he.symm.trans (hidle hact))
    cases pass <;> cases hr

theorem Sized.lists_succeed (h : Sized m) (ha : Arranged m m.auxiliaryCount allocation)
    (idle : m.backend.Idle) (rewound : ∀ t ∈ m.tensors, t.cursor = 0)
    (registry : ∀ k : HostKernel, m.backend.registry.contains k.name) :
    ∃ m₁ m₂ m₃, emitAll m = .ok ⟨⟩ m₁ ∧ emitUpdates m₁ = .ok ⟨⟩ m₂ ∧ clearAll m₂ = .ok ⟨⟩ m₃ := by
  obtain ⟨m₁, h₁⟩ := emitAll_succeeds idle.sound rewound fun step _ index =>
    h.acceptsAt ha registry step index
  have hun := emitAll_ok idle.sound rewound h₁
  have htensors : m₁.tensors = m.tensors := by rw [hun.same]
  have hcount : m₁.auxiliaryCount = m.auxiliaryCount := by rw [hun.same]; rfl
  have hregistry : m₁.backend.registry = m.backend.registry := by
    obtain ⟨ks, hsame⟩ := hun.recorded.same
    rw [hsame]
    rfl
  have ha₁ : Arranged m₁ m₁.auxiliaryCount allocation :=
    hcount.symm ▸ ha.recorded htensors hun.recorded
  obtain ⟨m₂, h₂⟩ := ha₁.emitUpdates_succeeds hun.recorded.sound (hregistry ▸ registry)
    (htensors ▸ h.sequence)
  obtain ⟨hm₂, hrec⟩ := emitUpdates_ok hun.recorded.sound h₂
  obtain ⟨floor, hl⟩ := (ha₁.recorded (by rw [hm₂]) hrec).layout
  obtain ⟨m₃, h₃⟩ := hl.clearAll_succeeds
  exact ⟨m₁, m₂, m₃, h₁, h₂, h₃⟩

/-- A compilation comes to its last stage. -/
theorem Sketch.prepare_succeeds (hn : Sketch b n) (idle : b.Idle)
    (registry : ∀ k : HostKernel, b.registry.contains k.name) (storable : n.Storable batch)
    (sized : ∀ {m}, Expanded n m batch → Sized m) : ∃ m, prepare batch n = .ok ⟨⟩ m := by
  have houtline := hn.outline
  obtain ⟨m₁, h₁⟩ := applyBatch_succeeds storable.staging
  obtain ⟨-, hm₁⟩ := applyBatch_ok_iff.mp h₁
  have hinputs : ∀ node ∈ m₁.nodes, ∀ x ∈ node.inputs, x.index < m₁.tensors.size := by
    intro node hnode x hx
    rw [hm₁] at hnode ⊢
    obtain ⟨i, hi⟩ := Array.getElem?_of_mem hnode
    have hlt := (houtline.joins i node hi).2.1 x hx
    simpa [plain] using hlt
  obtain ⟨m₂, h₂⟩ := planScratch_succeeds hinputs
  have hplan := plan_ok h₁ h₂
  obtain ⟨staging, ts, nodes, scratch, hm₂⟩ := hplan.same
  have hbackend : m₂.backend = n.backend := by rw [hm₂]
  have sound : ∀ u ∈ n.tensors.mapIdx (n.batchTensor batch), u.Sound := by
    intro u hu
    obtain ⟨i, hi⟩ := Array.getElem?_of_mem hu
    rw [Array.getElem?_mapIdx, Option.map_eq_some_iff] at hi
    obtain ⟨t, ht, rfl⟩ := hi
    exact hplan.sound houtline (hplan.tensor i t ht)
  obtain ⟨m₃, h₃⟩ := instantiateAll_succeeds (fun i t ht => hplan.sound houtline ht)
    fun i t ht => by
      rw [hbackend]
      exact plan_room h₁ h₂ sound storable.storage (Array.mem_of_getElem? ht)
  have hinst := instantiateAll_ok (fun i t ht => (hplan.sound houtline ht).sequence) h₃
  obtain ⟨hidle, hrewound⟩ := hplan.ready houtline idle h₃
  obtain ⟨allocation, ha⟩ := hinst.stored rfl
  have hcount : m₃.auxiliaryCount = m₂.auxiliaryCount := by rw [hinst.same]; rfl
  have hregistry : m₃.backend.registry = b.registry := by
    obtain ⟨bs, ms, -, hg⟩ := hinst.grows
    rw [hg, hbackend, houtline.backend]
  obtain ⟨m₄, m₅, m₆, h₄, h₅, h₆⟩ := (sized (hplan.expanded hinst)).lists_succeed
    (hcount.symm ▸ ha) hidle hrewound (hregistry ▸ registry)
  exact ⟨m₆, prepare_ok_iff.mpr ⟨m₁, m₂, m₃, m₄, m₅, h₁, h₂, h₃, h₄, h₅, h₆⟩⟩

theorem Sketch.compile_succeeds (hn : Sketch b n) (idle : b.Idle)
    (registry : ∀ k : HostKernel, b.registry.contains k.name)
    (storable : n.Storable (max batch 1)) (sized : ∀ {m}, Expanded n m (max batch 1) → Sized m)
    {draws : List (Array Binary32)} {g : Generator}
    (drawn : drawAll n.initials n.generator = .ok (draws, g)) :
    ∃ m, compile batch n = .ok ⟨⟩ m := by
  obtain ⟨m, h⟩ := hn.prepare_succeeds idle registry storable sized
  obtain ⟨m', hd⟩ := (prepare_ok hn.outline idle h).draws drawn
  exact ⟨_, compile_ok_iff_draws.mpr ⟨hn.stage, m, m', h, hd, rfl⟩⟩

/-! ### Runs -/

section

variable (hn : Sketch b n) (h : Compiled n m batch) (sized : Sized m) (used : m.Used k)

include hn h sized

/-- All that a compilation has recorded lasts: operators ask for what fits their shapes, and rules
for what a parameter has. -/
theorem Compiled.request_lasts {c : Backend α} (later : m.backend.Later c) {pass : Pass}
    {r : Request α} (hr : r ∈ m.scheduled pass ++ if pass = .update then m.updates else []) :
    r.Lasts c := by
  obtain ⟨allocation, ha⟩ := h.arranged
  obtain hr | hr := List.mem_append.mp hr
  · have plain := h.scheduled_increment hn.outline r hr
    obtain ⟨step, hs, hr⟩ := List.mem_flatMap.mp hr
    obtain ⟨i, -, hr⟩ := List.mem_flatMap.mp hr
    obtain ⟨node, hi, -, hr⟩ := (h.lowered hn).mem_emits (List.mem_range.mp hs) hr
    obtain ⟨hruns, hresolves⟩ :=
      sized.runs ha (Array.mem_of_getElem? hi) hr later.buffers later.sizes
    exact hruns.lasts plain hresolves
  · split at hr
    · unfold updates at hr
      cases ho : m.optimizer with
      | none => simp [ho] at hr
      | some o =>
        simp only [ho, List.mem_flatMap, List.mem_filter, beq_iff_eq, Array.mem_toList_iff] at hr
        obtain ⟨t, ⟨ht, kind⟩, hr⟩ := hr
        obtain ⟨i, hi⟩ := Array.getElem?_of_mem ht
        have hcount : n.auxiliaryCount = o.auxiliaryCount := by
          rw [auxiliaryCount, ← h.optimizer, ho]
          rfl
        obtain ⟨r', hr'⟩ := (hcount ▸ ha).requests_ok hi kind (sized.sequence i t hi)
        simp only [updatesOf, hr', List.mem_singleton] at hr
        exact hr ▸ ha.request_lasts hi kind (sized.sequence i t hi) hr' later.buffers later.sizes
    · cases hr

include used

/-- Every pass succeeds, whatever memory holds. -/
theorem Compiled.run_succeeds (pass : Pass) :
    ∃ k', run pass k = .ok ⟨⟩ k' ∧ m.Used k' := by
  have hexecutes : ∀ d ∈ k.backend.dispatches.get pass, ∀ e, d.Counted e → ∀ c,
      k.backend.Later c → ∃ dev, c.execute e = .ok dev := by
    intro d hd e hcounted c later
    obtain ⟨i, hi⟩ := List.getElem?_of_mem (Array.mem_toList_iff.mpr hd)
    obtain ⟨d₀, hd₀, hcount⟩ := forall₂_getElem? (used.counted pass).flip hi
    obtain ⟨r, hr, himp⟩ := forall₂_getElem? (h.lists pass).flip hd₀
    have later' := used.later.trans later
    have hkernels : c.kernels = m.backend.kernels := by rw [later'.same]
    exact himp.executes_counted hkernels
      (h.request_lasts hn sized later' (List.mem_of_getElem? hr))
      (Dispatch.Counted.trans hcount hcounted)
  obtain ⟨c, hc⟩ := Backend.run_succeeds hexecutes
  have hstage : k.stage = .compiled := by
    rw [used.same]
    exact h.stage
  have hok : run pass k = .ok ⟨⟩ { k with
      backend := c, runs := k.runs.map (·.modify pass (· + 1)) } := by
    rw [run_eq hstage, hc]
  have hused := used.run h.stage pass
  rw [Call.after_of_ok hok] at hused
  exact ⟨_, hok, hused⟩

omit sized in
theorem Compiled.clear_succeeds {alignment : Nat} (hd : m.Divided alignment auxiliary) :
    ∃ k', clearBuffers k = .ok ⟨⟩ k' ∧ m.Used k' := by
  obtain ⟨k', hok, hconfined, -⟩ := h.clear_confined hn.outline hd used
  exact ⟨k', hok, used.trans hconfined.used⟩

end

end Backprop.Network
