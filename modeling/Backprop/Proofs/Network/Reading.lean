import Mathlib
import Backprop.Network.Run
import Backprop.Proofs.Network.Values

/-! What the host sees of a compiled network: the values of its places, before and after a
pass. -/

namespace Backprop

variable {α : Type}

namespace Backend

theorem read_ok {b : Backend α} {h : BufferId} {w : Window} (hr : b.Resolves h)
    (hw : b.window? h = some w) : read h 0 (4 * w.count) b = .ok (b.contents h) b := by
  obtain ⟨buffer, hb, ho, hl, hholds⟩ := hr
  rw [window?, hb, Option.map_some, Option.some.injEq] at hw
  have hcount : 4 * w.count = buffer.bytes := by
    rw [← hw]
    simp only
    omega
  have hwin : b.window h 0 (4 * w.count) = .ok w := by
    rw [window_ok_iff, hcount]
    exact ⟨buffer, hb, fun _ => by omega, by simpa using ho, hl, by rw [← hw]; rfl, hw ▸ hholds⟩
  rw [read, Call.get_bind_ok_iff]
  simp only [Call.bind_ok_iff, Call.ofExcept_ok_iff, Call.pure_ok_iff]
  refine ⟨w, b, ⟨hwin, rfl⟩, ?_, rfl⟩
  rw [contents, window?, hb, Option.map_some, hw]

theorem Resolves.write_ok {b : Backend α} {h : BufferId} {w : Window} {data : Array α}
    (hr : b.Resolves h) (hw : b.window? h = some w) (hs : data.size = w.count) :
    write h 0 data b = .ok ⟨⟩ (b.put h data) :=
  write_ok_iff.mpr ⟨w, hs ▸ hr.window_whole hw, by rw [put, hw]⟩

end Backend

namespace Operator

theorem requestsAt_increment (op : Operator α) (a b out : Shape) (tile : Nat) (w : Wires)
    (pass : Pass) : ∀ r ∈ (op.requestsAt a b out tile w).get pass, r.increment = none := by
  intro r hr
  unfold requestsAt at hr
  split at hr
  · cases pass <;> cases hr
  · cases pass with
    | forward =>
      rw [List.mem_singleton.mp hr]
      rfl
    | backward =>
      have hback : ∀ r ∈ op.backwardRequests a b tile w, r.increment = none := by
        cases op <;> simp [backwardRequests, request]
      exact hback r hr
    | update => cases hr

end Operator

namespace Network

theorem requireCompiled_ok_iff {n n' : Network α} {u : PUnit} :
    requireCompiled n = .ok u n' ↔ n.stage = .compiled ∧ n = n' := by
  unfold requireCompiled
  rw [Call.get_bind_ok_iff]
  by_cases h : n.stage = .compiled
  · simp [h, Call.pure_ok_iff]
  · simp [h, Call.throw_ok_iff]

/-- A network that differs from another in values and in the count of its runs at most. -/
structure SameGraphAs (m n : Network α) : Prop where
  same : n = { m with backend := n.backend, runs := n.runs }
  layout : m.backend.SameLayout n.backend

theorem SameGraphAs.refl (m : Network α) : m.SameGraphAs m := ⟨rfl, .refl _⟩

/-- A compiled network with the tensors and the storage of another; values may differ. -/
structure SharesStorage (m k : Network α) : Prop where
  stage : k.stage = .compiled
  tensors : k.tensors = m.tensors
  buffers : k.backend.buffers = m.backend.buffers
  sizes : k.backend.device.sizes = m.backend.device.sizes

theorem SameGraphAs.shares {m n : Network α} (h : m.SameGraphAs n) (stage : m.stage = .compiled) :
    m.SharesStorage n where
  stage := by rw [h.same, stage]
  tensors := by rw [h.same]
  buffers := h.layout.buffers
  sizes := h.layout.sizes

section

variable [Zero α] {m n k : Network α} {auxiliary : Nat} {allocation : Nat → Side → Nat}
  {x : TensorId} {t : Tensor} {j : Nat}

theorem Arranged.hostSlot (ha : Arranged m auxiliary allocation)
    (ht : m.tensors[x.index]? = some t) (hj : j < t.slotCount) (hp : t.kind = .parameter → j = 0) :
    Network.forwardSlot t j = .ok (m.handle ⟨x.index, .forward, j⟩) := by
  obtain ⟨hbase, stride, -, hslots⟩ := ha.side ht t.lives_forward
  have hslot : t.slot .forward j = .ok (m.handle ⟨x.index, .forward, j⟩) :=
    Tensor.slot_ok_iff.mpr ⟨hbase, (hslots j hj).1⟩
  unfold Network.forwardSlot
  by_cases hk : t.kind = .parameter
  · obtain rfl := hp hk
    have hcurrent : t.currentSlot = 0 := by
      rw [Tensor.currentSlot, hk]
    rw [if_pos hk, if_pos rfl, Tensor.forwardBuffer, hcurrent]
    exact hslot
  · rw [if_neg hk, Tensor.forwardBuffer, if_neg hk]
    exact hslot

theorem Arranged.readBuffer_ok (ha : Arranged m auxiliary allocation) (hk : m.SharesStorage k)
    {p : Place} (ht : m.tensors[p.tensor]? = some t) (hl : t.Lives p.side)
    (hlt : p.slot < t.slotCount) :
    readBuffer t (m.handle p) k = .ok (m.values k.backend p) k := by
  obtain ⟨-, stride, -, hslots⟩ := ha.side ht hl
  obtain ⟨-, hr, hw⟩ := hslots _ hlt
  rw [← Backend.window?_congr hk.buffers] at hw
  have hread := Backend.read_ok (hr.congr hk.buffers hk.sizes) hw
  exact onBackend_ok_iff.mpr ⟨k.backend, hread, rfl⟩

theorem Arranged.readTensor_ok (ha : Arranged m auxiliary allocation) (hk : m.SharesStorage k)
    (ht : m.tensors[x.index]? = some t) (hj : j < t.slotCount) (hp : t.kind = .parameter → j = 0) :
    readTensor x j k = .ok (m.values k.backend ⟨x.index, .forward, j⟩) k := by
  have hslot := ha.hostSlot ht hj hp
  have htensor : k.tensor x = .ok t := by
    rw [tensor_ok_iff, hk.tensors]
    exact ht
  simp only [readTensor, Call.bind_ok_iff, requireCompiled_ok_iff, Call.get_ok_iff,
    Call.ofExcept_ok_iff]
  refine ⟨⟨⟩, k, ⟨hk.stage, rfl⟩, k, k, ⟨rfl, rfl⟩, t, k, ⟨htensor, rfl⟩, _, k, ⟨hslot, rfl⟩, ?_⟩
  exact ha.readBuffer_ok (p := ⟨x.index, .forward, j⟩) hk ht t.lives_forward hj

theorem Arranged.readGradient_ok (ha : Arranged m auxiliary allocation) (hk : m.SharesStorage k)
    (hp : m.Has ⟨x.index, .backward, j⟩) :
    readGradient x j k = .ok (m.values k.backend ⟨x.index, .backward, j⟩) k := by
  obtain ⟨t, ht, hl, hlt⟩ := hp
  obtain ⟨hbase, stride, -, hslots⟩ := ha.side ht hl
  have hbuffer : t.backwardBuffer (.timestep j) = .ok (m.handle ⟨x.index, .backward, j⟩) := by
    rw [Tensor.backwardBuffer, if_pos (hl rfl)]
    exact Tensor.slot_ok_iff.mpr ⟨hbase, (hslots j hlt).1⟩
  have htensor : k.tensor x = .ok t := by
    rw [tensor_ok_iff, hk.tensors]
    exact ht
  simp only [readGradient, Call.bind_ok_iff, requireCompiled_ok_iff, Call.get_ok_iff,
    Call.ofExcept_ok_iff]
  refine ⟨⟨⟩, k, ⟨hk.stage, rfl⟩, k, k, ⟨rfl, rfl⟩, t, k, ⟨htensor, rfl⟩, _, k, ⟨hbuffer, rfl⟩, ?_⟩
  exact ha.readBuffer_ok hk ht hl hlt

theorem Arranged.writeTensor_ok (ha : Arranged m auxiliary allocation) (hk : m.SharesStorage k)
    (ht : m.tensors[x.index]? = some t) (hj : j < t.slotCount) (hp : t.kind = .parameter → j = 0)
    {data : Array α} (hs : data.size = t.shape.elements) :
    writeTensor x j data k = .ok ⟨⟩ { k with
      backend := k.backend.put (m.handle ⟨x.index, .forward, j⟩) data } := by
  have hslot := ha.hostSlot ht hj hp
  have htensor : k.tensor x = .ok t := by
    rw [tensor_ok_iff, hk.tensors]
    exact ht
  obtain ⟨-, stride, -, hslots⟩ := ha.side ht t.lives_forward
  obtain ⟨-, hr, hw⟩ := hslots j hj
  have hwrite := (hr.congr hk.buffers hk.sizes).write_ok
    ((Backend.window?_congr hk.buffers _).trans hw) hs
  simp only [writeTensor, Call.bind_ok_iff, requireCompiled_ok_iff, Call.get_ok_iff,
    Call.ofExcept_ok_iff]
  refine ⟨⟨⟩, k, ⟨hk.stage, rfl⟩, k, k, ⟨rfl, rfl⟩, t, k, ⟨htensor, rfl⟩, _, k, ⟨hslot, rfl⟩, ?_⟩
  exact onBackend_ok_iff.mpr ⟨_, hwrite, rfl⟩

theorem Arranged.writeGradient_ok (ha : Arranged m auxiliary allocation) (hk : m.SharesStorage k)
    (ht : m.tensors[x.index]? = some t) (hl : t.Lives .backward) (hj : j < t.slotCount)
    {data : Array α} (hs : data.size = t.shape.elements) :
    writeGradient x j data k = .ok ⟨⟩ { k with
      backend := k.backend.put (m.handle ⟨x.index, .backward, j⟩) data } := by
  obtain ⟨hbase, stride, -, hslots⟩ := ha.side ht hl
  obtain ⟨hslot, hr, hw⟩ := hslots j hj
  have hbuffer : t.backwardBuffer (.timestep j) = .ok (m.handle ⟨x.index, .backward, j⟩) := by
    rw [Tensor.backwardBuffer, if_pos (hl rfl)]
    exact Tensor.slot_ok_iff.mpr ⟨hbase, hslot⟩
  have htensor : k.tensor x = .ok t := by
    rw [tensor_ok_iff, hk.tensors]
    exact ht
  have hwrite := (hr.congr hk.buffers hk.sizes).write_ok
    ((Backend.window?_congr hk.buffers _).trans hw) hs
  simp only [writeGradient, Call.bind_ok_iff, requireCompiled_ok_iff, Call.get_ok_iff,
    Call.ofExcept_ok_iff]
  refine ⟨⟨⟩, k, ⟨hk.stage, rfl⟩, k, k, ⟨rfl, rfl⟩, t, k, ⟨htensor, rfl⟩, _, k, ⟨hbuffer, rfl⟩, ?_⟩
  exact onBackend_ok_iff.mpr ⟨_, hwrite, rfl⟩

theorem Lowered.has_of_forwardSlot (h : Lowered m) (ht : m.tensors[x.index]? = some t)
    {buffer : BufferId} (hb : Network.forwardSlot t j = .ok buffer) :
    m.Has ⟨x.index, .forward, j⟩ := by
  by_cases hp : t.kind = .parameter
  · have hj : j = 0 := by
      by_contra hj
      rw [Network.forwardSlot, if_pos hp, if_neg hj] at hb
      cases hb
    exact ⟨t, ht, t.lives_forward, hj ▸ Tensor.slotCount_pos (h.sequence _ t ht).1⟩
  · obtain ⟨allocation, ha⟩ := h.arranged
    rw [Network.forwardSlot, if_neg hp, Tensor.forwardBuffer, if_neg hp] at hb
    refine (ha.has_of_handle? (k := buffer) ?_).1
    rw [handle?, ht, Option.bind_some]
    exact (Tensor.slot_ok_iff.mp hb).2

theorem Lowered.readTensor_ok (h : Lowered m) (stage : m.stage = .compiled)
    (hn : m.SameGraphAs n) (ht : m.tensors[x.index]? = some t) (hj : j < t.slotCount)
    (hp : t.kind = .parameter → j = 0) :
    readTensor x j n = .ok (m.values n.backend ⟨x.index, .forward, j⟩) n := by
  obtain ⟨allocation, ha⟩ := h.arranged
  exact ha.readTensor_ok (hn.shares stage) ht hj hp

theorem Lowered.readGradient_ok (h : Lowered m) (stage : m.stage = .compiled)
    (hn : m.SameGraphAs n) (hp : m.Has ⟨x.index, .backward, j⟩) :
    readGradient x j n = .ok (m.values n.backend ⟨x.index, .backward, j⟩) n := by
  obtain ⟨allocation, ha⟩ := h.arranged
  exact ha.readGradient_ok (hn.shares stage) hp

end

variable [Scalar α] {m n n' : Network α}

theorem run_ok_iff {pass : Pass} : run pass n = .ok ⟨⟩ n' ↔ n.stage = .compiled ∧ ∃ c,
    Backend.run pass n.backend = .ok ⟨⟩ c ∧
      n' = { n with backend := c, runs := n.runs.map (·.modify pass (· + 1)) } := by
  simp only [run, Call.bind_ok_iff, requireCompiled_ok_iff, onBackend_ok_iff, Call.modify_ok_iff]
  constructor
  · rintro ⟨_, _, ⟨hs, rfl⟩, _, _, ⟨c, hc, rfl⟩, rfl⟩
    exact ⟨hs, c, hc, rfl⟩
  · rintro ⟨hs, c, hc, rfl⟩
    exact ⟨⟨⟩, n, ⟨hs, rfl⟩, ⟨⟩, _, ⟨c, hc, rfl⟩, rfl⟩

theorem Lowered.run_ok (h : Lowered m) (hn : m.SameGraphAs n) {pass : Pass}
    (hpass : pass ≠ .update) (hr : run pass n = .ok ⟨⟩ n') :
    m.SameGraphAs n' ∧ ∃ ds, List.Forall₂ m.backend.Implements (m.scheduled pass) ds ∧
      Backend.Runs (Backend.inPlayOrder pass ds) n.backend n'.backend := by
  obtain ⟨-, c, hc, rfl⟩ := run_ok_iff.mp hr
  have hlists := h.lists pass
  rw [if_neg hpass, List.append_nil] at hlists
  have hdispatches : n.backend.dispatches = m.backend.dispatches := by rw [hn.layout.same]
  have hplain : ∀ d ∈ n.backend.dispatches.get pass, d.increment = none := by
    intro d hd
    rw [hdispatches, ← Array.mem_toList_iff] at hd
    obtain ⟨p, hp⟩ := List.getElem?_of_mem hd
    obtain ⟨r, hr, hi⟩ := forall₂_getElem? hlists.flip hp
    rw [hi.increment]
    obtain ⟨step, hs, hmem⟩ := List.mem_flatMap.mp (List.mem_of_getElem? hr)
    obtain ⟨i, -, hmem⟩ := List.mem_flatMap.mp hmem
    obtain ⟨node, -, -, hmem⟩ := h.mem_emits (List.mem_range.mp hs) hmem
    exact Operator.requestsAt_increment _ _ _ _ _ _ _ r hmem
  have hruns := Backend.run_ok_runs hplain hc
  have hlayout : n.backend.SameLayout c := ⟨hruns.same, hruns.sizes⟩
  refine ⟨⟨?_, hn.layout.trans hlayout⟩, _, hlists, hdispatches ▸ hruns⟩
  rw [hn.same]

end Network

end Backprop
