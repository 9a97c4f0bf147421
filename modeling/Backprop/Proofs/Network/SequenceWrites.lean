import Mathlib
import Backprop.Proofs.Backend.Safety
import Backprop.Proofs.Network.HostWrites
import Backprop.Proofs.Network.Preparation
import Backprop.Proofs.Network.ScratchSharing

/-! Sequences, which hold row by row all timesteps, and the slots, which hold timestep by timestep
all rows. The staging area has room for every tensor, also for scratch, which comes after it. -/

namespace Backprop

variable {α : Type}

namespace Network

/-! ### Rows of a timestep -/

def timestepRows (data : Array α) (steps row rows t : Nat) : Array α :=
  (List.range rows).foldl (fun gathered b =>
    let start := (b * steps + t) * row
    gathered ++ data.extract start (start + row)) #[]

section

variable {data : Array α} {steps row rows t : Nat}

theorem timestepRows_succ (data : Array α) (steps row rows t : Nat) :
    timestepRows data steps row (rows + 1) t = timestepRows data steps row rows t ++
      data.extract ((rows * steps + t) * row) ((rows * steps + t) * row + row) := by
  rw [timestepRows, List.range_succ, List.foldl_append]
  rfl

theorem timestepRow_end_le (row : Nat) {b : Nat} (ht : t < steps) (hb : b < rows) :
    (b * steps + t) * row + row ≤ rows * steps * row := by
  rw [← Nat.succ_mul]
  apply Nat.mul_le_mul_right
  calc b * steps + t + 1 ≤ (b + 1) * steps := by rw [Nat.succ_mul]; omega
    _ ≤ rows * steps := Nat.mul_le_mul_right steps hb

theorem size_timestepRows (hs : rows * steps * row ≤ data.size) (ht : t < steps) :
    (timestepRows data steps row rows t).size = rows * row := by
  induction rows with
  | zero => simp [timestepRows]
  | succ rows ih =>
    have hend := (timestepRow_end_le row ht (Nat.lt_succ_self rows)).trans hs
    have hbefore : rows * steps * row ≤ (rows + 1) * steps * row := by gcongr; omega
    rw [timestepRows_succ, Array.size_append, ih (hbefore.trans hs), Array.size_extract,
      min_eq_left hend, Nat.add_sub_cancel_left, Nat.succ_mul]

theorem gatherRows_ok (hs : rows * steps * row ≤ data.size) (ht : t < steps) :
    gatherRows data steps row rows t = .ok (timestepRows data steps row rows t) := by
  induction rows with
  | zero => rfl
  | succ rows ih =>
    have hbefore : rows * steps * row ≤ (rows + 1) * steps * row := by gcongr; omega
    have hend := (timestepRow_end_le row ht (Nat.lt_succ_self rows)).trans hs
    have hrow : timestepRow data steps row t rows = .ok
        (data.extract ((rows * steps + t) * row) ((rows * steps + t) * row + row)) := if_pos hend
    have hrows := ih (hbefore.trans hs)
    unfold gatherRows at hrows ⊢
    rw [List.range_succ, List.foldlM_append, hrows, timestepRows_succ]
    simp only [bind, Except.bind, List.foldlM_cons, List.foldlM_nil, hrow]
    rfl

end

/-! ### Staging -/

section

variable {n m : Network α} {batch : Nat}

theorem mem_pointwiseMax {as bs : List Nat} {e : Nat} (h : e ∈ pointwiseMax as bs) :
    e ∈ as ∨ e ∈ bs := by
  induction as generalizing bs with
  | nil => exact .inr h
  | cons a as ih =>
    cases bs with
    | nil => exact .inl h
    | cons c bs =>
      rcases List.mem_cons.mp h with rfl | h
      · rcases Nat.le_total a c with hle | hle
        · rw [Nat.max_eq_right hle]
          exact .inr List.mem_cons_self
        · rw [Nat.max_eq_left hle]
          exact .inl List.mem_cons_self
      · exact (ih h).imp (List.mem_cons_of_mem _) (List.mem_cons_of_mem _)

/-- The size of a scratch tensor is the need of some operator. -/
theorem mem_foldl_pointwiseMax {needs : List (List Nat)} {start : List Nat} {e : Nat}
    (h : e ∈ needs.foldl pointwiseMax start) : e ∈ start ∨ ∃ need ∈ needs, e ∈ need := by
  induction needs generalizing start with
  | nil => exact .inl h
  | cons need needs ih =>
    rcases ih h with h | ⟨other, hmem, h⟩
    · rcases mem_pointwiseMax h with h | h
      · exact .inl h
      · exact .inr ⟨need, List.mem_cons_self, h⟩
    · exact .inr ⟨other, List.mem_cons_of_mem _ hmem, h⟩

theorem mem_scratchElements {op : Operator α} {shapes : List Shape} {e : Nat}
    (h : e ∈ op.scratchElements shapes) : ∃ s ∈ shapes, e = s.elements := by
  unfold Operator.scratchElements at h
  split at h
  · next a b rest =>
    rcases max_choice a.elements b.elements with hmax | hmax
    · exact ⟨a, by simp, by rw [List.mem_singleton.mp h, hmax]⟩
    · exact ⟨b, by simp, by rw [List.mem_singleton.mp h, hmax]⟩
  · next a b rest =>
    rcases max_choice a.elements b.elements with hmax | hmax
    · exact ⟨a, by simp, by rw [List.mem_singleton.mp h, hmax]⟩
    · exact ⟨b, by simp, by rw [List.mem_singleton.mp h, hmax]⟩
  · next a b rest => exact ⟨b, by simp, List.mem_singleton.mp h⟩
  · simp at h

theorem nodeScratch_ok {node : Node α} {need : List Nat} (h : n.nodeScratch node = .ok need)
    {e : Nat} (he : e ∈ need) :
    ∃ (i : Nat) (t : Tensor), n.tensors[i]? = some t ∧ e = t.shape.elements := by
  simp only [nodeScratch, Except.bind_ok_iff, Except.mapM_ok_iff, Except.pure_ok_iff] at h
  obtain ⟨shapes, hshapes, rfl⟩ := h
  obtain ⟨s, hs, rfl⟩ := mem_scratchElements he
  obtain ⟨i, hi⟩ := List.getElem?_of_mem hs
  obtain ⟨x, -, hx⟩ := forall₂_getElem? hshapes.flip hi
  obtain ⟨t, ht, rfl⟩ := Except.map_ok_iff.mp hx
  exact ⟨x.index, t, tensor_ok_iff.mp ht, rfl⟩

theorem plan_tensor {m₁ : Network α} (h₁ : applyBatch batch n = .ok ⟨⟩ m₁)
    (h₂ : planScratch m₁ = .ok ⟨⟩ m) {t : Tensor} (ht : t ∈ m.tensors) :
    ∃ u ∈ n.tensors.mapIdx (n.batchTensor batch), t = u ∨ t = scratchTensor u.shape.elements := by
  obtain ⟨-, rfl⟩ := applyBatch_ok_iff.mp h₁
  obtain ⟨needs, hneeds, rfl⟩ := planScratch_ok_iff.mp h₂
  obtain ht | ht := Array.mem_append.mp ht
  · exact ⟨t, ht, .inl rfl⟩
  · simp only [List.mem_toArray, List.mem_map] at ht
    obtain ⟨e, he, rfl⟩ := ht
    obtain he | ⟨need, hmem, he⟩ := mem_foldl_pointwiseMax he
    · simp at he
    · obtain ⟨i, hi⟩ := List.getElem?_of_mem hmem
      obtain ⟨node, -, hnode⟩ := forall₂_getElem? (Except.mapM_ok_iff.mp hneeds).flip hi
      obtain ⟨j, u, hu, rfl⟩ := nodeScratch_ok hnode he
      exact ⟨u, Array.mem_of_getElem? hu, .inr rfl⟩

end

/-! ### Slots, one after the other -/

section

variable {k k' : Network α}

theorem requireCompiled_error_iff {e : Error} :
    requireCompiled k = .error e k' ↔ k.stage ≠ .compiled ∧ .notInitialized = e ∧ k = k' := by
  simp only [requireCompiled, Call.bind_error_iff, Call.get_error_iff, Call.get_ok_iff]
  by_cases h : k.stage = .compiled
  · simp [h, Call.pure_error_iff]
  · simp [h, Call.throw_error_iff]

theorem tensor_faultless (n : Network α) (id : TensorId) : Faultless (n.tensor id) := by
  unfold tensor
  split
  · exact .pure _
  · exact .throw fun _ h => nomatch h

end

def writeStep (t : Tensor) (staging : Nat) (data : Array α) (steps timestep : Nat) :
    Call α Unit := do
  let h ← ofExcept (forwardSlot t timestep)
  if staging < t.shape.elements then throw (.fault .outOfBounds)
  let values ← ofExcept (gatherRows data steps t.shape.rowElements t.shape.w timestep)
  onBackend (Backend.write h 0 values)

/-- So many timesteps of a tensor have more elements than `data` has, and than a size can count. -/
def Oversized (k : Network α) (id : TensorId) (data : Array α) (steps : Nat) : Prop :=
  ∃ t, k.tensor id = .ok t ∧ data.size < t.shape.w * steps * t.shape.rowElements ∧
    UInt64.size ≤ t.shape.w * steps * t.shape.rowElements

/-- Where a sequence fails that fits its tensor, one of its timesteps does. -/
theorem writeSequence_error {k k' : Network α} {e : Error} {id : TensorId} {data : Array α}
    {steps : Nat} (he : writeSequence id data steps k = .error e k') :
    k' = k ∧ (∀ f, e = .fault f → f = .overflow ∧ k.Oversized id data steps) ∨
      k.stage = .compiled ∧ ∃ t, k.tensor id = .ok t ∧ steps ≤ t.sequence ∧ data.size = t.shape.w * steps * t.shape.rowElements ∧
      (List.range steps).forM (writeStep t k.staging data steps) k = .error e k' := by
  simp only [writeSequence, Call.bind_error_iff, requireCompiled_ok_iff, requireCompiled_error_iff,
    Call.get_error_iff, Call.get_ok_iff, Call.ofExcept_error_iff, Call.ofExcept_ok_iff,
    Call.throw_ite_error_iff] at he
  rcases he with ⟨-, rfl, rfl⟩ | ⟨_, _, ⟨hstage, rfl⟩, he⟩
  · exact .inl ⟨rfl, fun f h => nomatch h⟩
  rcases he with he | ⟨_, _, ⟨rfl, rfl⟩, he⟩
  · exact he.elim
  rcases he with ⟨ht, rfl⟩ | ⟨t, _, ⟨ht, rfl⟩, he⟩
  · exact .inl ⟨rfl, fun f h => (tensor_faultless _ id f (h ▸ ht)).elim⟩
  rcases he with ⟨-, rfl, rfl⟩ | ⟨hsteps, he⟩
  · exact .inl ⟨rfl, fun f h => nomatch h⟩
  rcases he with ⟨hlarge, rfl⟩ | ⟨_, _, ⟨-, rfl⟩, he⟩
  · obtain ⟨rfl, hdata, hlarge⟩ := requireSize_error_iff.mp hlarge
    exact .inl ⟨rfl, fun f h => ⟨(Error.fault.inj h).symm, t, ht, hdata, hlarge⟩⟩
  rcases he with ⟨-, rfl, rfl⟩ | ⟨hsize, he⟩
  · exact .inl ⟨rfl, fun f h => nomatch h⟩
  exact .inr ⟨hstage, t, ht, Nat.not_lt.mp hsteps, not_not.mp hsize, he⟩

section

variable [Zero α] {m k : Network α} {auxiliary : Nat} {allocation : Nat → Side → Nat}
  {id : TensorId} {t : Tensor} {data : Array α} {staging steps : Nat}

theorem sequence_le_slotCount (kind : t.kind ≠ .parameter)
    (scratch : t.kind = .scratch → t.sequence = 1) : t.sequence ≤ t.slotCount := by
  unfold Tensor.slotCount TensorKind.slotCount
  cases hk : t.kind <;> simp_all

theorem Arranged.writeStep_ok (ha : Arranged m auxiliary allocation)
    (hbuffers : k.backend.buffers = m.backend.buffers)
    (hsizes : k.backend.device.sizes = m.backend.device.sizes)
    (ht : m.tensors[id.index]? = some t) (kind : t.kind ≠ .parameter)
    (scratch : t.kind = .scratch → t.sequence = 1) {timestep : Nat}
    (hstaging : t.shape.elements ≤ staging) (hsteps : steps ≤ t.sequence)
    (hsize : data.size = t.shape.w * steps * t.shape.rowElements) (htimestep : timestep < steps) :
    writeStep t staging data steps timestep k = .ok ⟨⟩ { k with
      backend := k.backend.put (m.handle ⟨id.index, .forward, timestep⟩)
        (timestepRows data steps t.shape.rowElements t.shape.w timestep) } := by
  obtain ⟨-, stride, -, hslots⟩ := ha.side ht t.lives_forward
  have hlt : timestep < t.slotCount :=
    htimestep.trans_le (hsteps.trans (sequence_le_slotCount kind scratch))
  obtain ⟨-, hresolves, hwindow⟩ := hslots timestep hlt
  have hforward := ha.hostSlot ht hlt fun hp => absurd hp kind
  have hgather : gatherRows data steps t.shape.rowElements t.shape.w timestep =
      .ok (timestepRows data steps t.shape.rowElements t.shape.w timestep) :=
    gatherRows_ok hsize.ge htimestep
  have hrows : (timestepRows data steps t.shape.rowElements t.shape.w timestep).size =
      t.shape.elements := by
    rw [size_timestepRows hsize.ge htimestep, Shape.elements_eq_rowElements_mul, Nat.mul_comm]
  have hwrite := (hresolves.congr hbuffers hsizes).write_ok
    ((Backend.window?_congr hbuffers _).trans hwindow) hrows
  simp only [writeStep, Call.bind_ok_iff, Call.ofExcept_ok_iff, Call.throw_ite_ok_iff]
  exact ⟨_, k, ⟨hforward, rfl⟩, Nat.not_lt.mpr hstaging, _, k, ⟨hgather, rfl⟩,
    onBackend_ok_iff.mpr ⟨_, hwrite, rfl⟩⟩

/-- The first timesteps of a sequence stand in their slots, and nothing else has changed. -/
structure Filled (m k : Network α) (id : TensorId) (t : Tensor) (data : Array α)
    (steps count : Nat) (l : Network α) : Prop where
  same : l = { k with backend := l.backend }
  layout : k.backend.SameLayout l.backend
  alters : k.backend.Alters l.backend fun h => ∃ s < steps, forwardSlot t s = .ok h
  written : ∀ s < count, l.backend.contents (m.handle ⟨id.index, .forward, s⟩) =
    timestepRows data steps t.shape.rowElements t.shape.w s

omit [Zero α] in
theorem Filled.start : Filled m k id t data steps 0 k :=
  ⟨rfl, .refl _, .refl _ _, fun _ hs => absurd hs (Nat.not_lt_zero _)⟩

end

section

variable [Scalar α] {b : Backend α} {config : NetworkConfig} {n m k : Network α} {batch : Nat}

theorem Compiled.scratch_sequence (hn : Outline b n) (hc : Compiled n m batch) {i : Nat}
    {t : Tensor} (ht : m.tensors[i]? = some t) (kind : t.kind = .scratch) : t.sequence = 1 := by
  obtain ⟨u, hu, hs⟩ | ⟨-, elements, hs⟩ := hc.expanded.tensor_cases ht
  · have hplain : n.plain[i]? = some u.plain := by rw [plain_getElem?, hu, Option.map_some]
    rw [batchTensor_eq] at hs
    rw [hs] at kind
    exact absurd kind (hn.tensors i _ hplain).2.1
  · rw [hs, scratchTensor_eq]
    rfl

end

end Network

end Backprop
