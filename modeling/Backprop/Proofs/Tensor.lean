import Mathlib
import Backprop.Tensor.Basic
import Backprop.Proofs.Backend.Allocation

/-! Tensors with storage: each side lies in an allocation of its own, in one slot for every
timestep. -/

namespace Backprop

variable {α : Type}

namespace Tensor

/-- The sides a tensor has. -/
def Lives (t : Tensor) (side : Side) : Prop := side = .backward → t.kind.hasBackward = true

theorem lives_forward (t : Tensor) : t.Lives .forward := by simp [Lives]

def atStep (t : Tensor) (step : Nat) : Tensor := { t with cursor := step % t.sequence }

theorem atStep_zero {t : Tensor} (h : t.cursor = 0) : t.atStep 0 = t := by
  rw [atStep, Nat.zero_mod, ← h]

/-- A tensor that can be given storage. -/
structure Sound (t : Tensor) : Prop where
  sequence : 0 < t.sequence
  cursor : t.cursor = 0
  elements : 0 < t.shape.elements
  bare : t.forward = {} ∧ t.backward = {} ∧ t.auxiliary = #[]

theorem slotCount_pos {t : Tensor} (h : 0 < t.sequence) : 0 < t.slotCount := by
  unfold slotCount TensorKind.slotCount
  split <;> omega

theorem currentSlot_lt {t : Tensor} (h : t.cursor < t.sequence) : t.currentSlot < t.slotCount := by
  unfold currentSlot slotCount TensorKind.slotCount
  cases t.kind <;> simp <;> omega

theorem slot_ok_iff {t : Tensor} {side : Side} {i : Nat} {h : BufferId} :
    t.slot side i = .ok h ↔
      (t.storage side).base.isSome = true ∧ (t.storage side).slots[i]? = some h := by
  unfold slot
  cases hb : (t.storage side).base with
  | none => simp [hb]
  | some base => cases hs : (t.storage side).slots[i]? <;> simp [hb, hs]

/-- Both sides of a tensor and its auxiliary buffers, as they lie on a backend. -/
structure Stored [Zero α] (t : Tensor) (b : Backend α) (allocation : Side → Nat)
    (auxiliary : Nat) : Prop where
  occupies : ∀ side, t.Lives side →
    (t.storage side).Occupies b (allocation side) t.shape.elements t.slotCount
  apart : allocation .forward ≠ allocation .backward
  dead : t.kind.hasBackward = false → t.backward = {}
  size_auxiliary : t.kind = .parameter → t.auxiliary.size = auxiliary
  auxiliary : ∀ (i : Nat) (h : BufferId), t.auxiliary[i]? = some h →
    b.Resolves h ∧ ∃ w, b.window? h = some w ∧ t.shape.elements ≤ w.count ∧
      ∀ side, w.allocation ≠ allocation side

variable [Zero α]

theorem Stored.grows {t : Tensor} {b c : Backend α} {allocation : Side → Nat} {auxiliary : Nat}
    (h : t.Stored b allocation auxiliary) (hg : b.Grows c) : t.Stored c allocation auxiliary where
  occupies side hl := (h.occupies side hl).grows hg
  apart := h.apart
  dead := h.dead
  size_auxiliary := h.size_auxiliary
  auxiliary i k hk := by
    obtain ⟨hr, w, hw, hle⟩ := h.auxiliary i k hk
    exact ⟨hg.resolves hr, w, hg.window? hw, hle⟩

theorem mapM_create_ok {bytes : Nat} {access : Access} {l : List Nat} {b c : Backend α}
    {hs : List BufferId} (h : (l.mapM fun _ => Backend.create bytes access 1) b = .ok hs c) :
    b.Grows c ∧ hs.length = l.length ∧ ∀ k ∈ hs, c.Resolves k ∧
      ∃ w, c.window? k = some w ∧ bytes / 4 ≤ w.count ∧ b.device.memory.size ≤ w.allocation ∧
        w.allocation < c.device.memory.size := by
  induction l generalizing b hs with
  | nil =>
    obtain ⟨rfl, rfl⟩ := Call.mapM_nil_ok_iff.mp h
    exact ⟨.refl _, rfl, by simp⟩
  | cons n l ih =>
    obtain ⟨k, m, ks, hk, hrest, rfl⟩ := Call.mapM_cons_ok_iff.mp h
    obtain ⟨-, rfl, rfl⟩ := Backend.create_ok_iff.mp hk
    obtain ⟨hr, w, hw, hle, hnew⟩ := b.withBase_resolves bytes access 1
    obtain ⟨hg, hlen, hks⟩ := ih hrest
    have hsize : (b.withBase bytes access 1).device.memory.size = b.device.memory.size + 1 := by
      simp [Backend.withBase]
    refine ⟨(b.withBase_grows bytes access 1).trans hg, by simp [hlen], fun j hj => ?_⟩
    obtain rfl | hj := List.mem_cons.mp hj
    · have hmem := hg.size_memory
      exact ⟨hg.resolves hr, w, hg.window? hw, hle, by omega, by omega⟩
    · obtain ⟨hr', v, hv, hle', hlow, hhigh⟩ := hks j hj
      exact ⟨hr', v, hv, hle', by omega, hhigh⟩

theorem instantiate_ok_iff {t t' : Tensor} {b c : Backend α} {auxiliary : Nat} :
    t.instantiate auxiliary b = .ok t' c ↔ t.isInstantiated = false ∧
      ∃ forward b₁, Storage.allocate t.shape.bytes t.kind.forwardAccess t.slotCount b =
          .ok forward b₁ ∧
        ∃ backward b₂, (if t.kind.hasBackward = true then
            Storage.allocate t.shape.bytes .readWrite t.slotCount else pure {}) b₁ =
          .ok backward b₂ ∧
        ∃ extra, (if t.kind = .parameter then (List.range auxiliary).mapM fun _ =>
            Backend.create t.shape.bytes .readWrite 1 else pure []) b₂ = .ok extra c ∧
          t' = { t with forward, backward, auxiliary := extra.toArray } := by
  unfold instantiate
  simp only [Call.throw_ite_ok_iff, Call.bind_ok_iff, Call.ite_bind, Call.pure_ok_iff,
    Bool.not_eq_true]
  constructor
  · rintro ⟨hi, forward, b₁, hf, backward, b₂, hb, extra, _, he, rfl, rfl⟩
    exact ⟨hi, forward, b₁, hf, backward, b₂, hb, extra, he, rfl⟩
  · rintro ⟨hi, forward, b₁, hf, backward, b₂, hb, extra, he, rfl⟩
    exact ⟨hi, forward, b₁, hf, backward, b₂, hb, extra, c, he, rfl, rfl⟩

def nextAllocation (b : Backend α) : Side → Nat
  | .forward => b.device.memory.size
  | .backward => b.device.memory.size + 1

theorem instantiate_ok {t t' : Tensor} {b c : Backend α} {auxiliary : Nat} (hs : 0 < t.sequence)
    (h : t.instantiate auxiliary b = .ok t' c) :
    b.Grows c ∧
      t' = { t with forward := t'.forward, backward := t'.backward, auxiliary := t'.auxiliary } ∧
      ∃ allocation : Side → Nat, t'.Stored c allocation auxiliary ∧
        (∀ side, b.device.memory.size ≤ allocation side ∧
          (t.Lives side → allocation side < c.device.memory.size)) ∧
        ∀ k ∈ t'.auxiliary, ∀ w, c.window? k = some w →
          b.device.memory.size ≤ w.allocation ∧ w.allocation < c.device.memory.size := by
  have hcount := slotCount_pos hs
  obtain ⟨-, _, b₁, hf, backward, b₂, hb, extra, he, rfl⟩ := instantiate_ok_iff.mp h
  obtain ⟨-, rfl, rfl⟩ := Storage.allocate_ok_iff.mp hf
  have hgf := Storage.withNext_grows b t.shape.bytes t.kind.forwardAccess t.slotCount
  have hof := Storage.next_occupies b t.shape.elements t.kind.forwardAccess hcount
  -- what the second side adds
  have hback : (Storage.withNext b t.shape.bytes t.kind.forwardAccess t.slotCount).Grows b₂ ∧
      (t.kind.hasBackward = true → backward.Occupies b₂ (b.device.memory.size + 1)
        t.shape.elements t.slotCount ∧ b₂.device.memory.size = b.device.memory.size + 2) ∧
      (t.kind.hasBackward = false → backward = {}) := by
    by_cases hk : t.kind.hasBackward = true
    · rw [if_pos hk] at hb
      obtain ⟨-, rfl, rfl⟩ := Storage.allocate_ok_iff.mp hb
      refine ⟨Storage.withNext_grows .., fun _ => ⟨?_, by simp⟩, by simp [hk]⟩
      have hh := Storage.next_occupies (Storage.withNext b t.shape.bytes t.kind.forwardAccess
        t.slotCount) t.shape.elements .readWrite hcount
      rwa [Storage.size_memory_withNext] at hh
    · rw [if_neg hk] at hb
      obtain ⟨rfl, rfl⟩ := Call.pure_ok_iff.mp hb
      exact ⟨.refl _, fun hk' => absurd hk' hk, fun _ => rfl⟩
  -- what the auxiliary buffers add
  have hextra : b₂.Grows c ∧ (t.kind = .parameter → extra.length = auxiliary) ∧
      ∀ k ∈ extra, c.Resolves k ∧ ∃ w, c.window? k = some w ∧ t.shape.elements ≤ w.count ∧
        b.device.memory.size + 2 ≤ w.allocation ∧ w.allocation < c.device.memory.size := by
    by_cases hp : t.kind = .parameter
    · rw [if_pos hp] at he
      obtain ⟨hg, hlen, hks⟩ := mapM_create_ok he
      refine ⟨hg, fun _ => by simpa using hlen, fun k hk => ?_⟩
      obtain ⟨hr, w, hw, hle, hlow, hhigh⟩ := hks k hk
      rw [Shape.bytes, Nat.mul_div_cancel_left _ (by decide)] at hle
      have hsize := (hback.2.1 (by rw [hp]; rfl)).2
      exact ⟨hr, w, hw, hle, by omega, hhigh⟩
    · rw [if_neg hp] at he
      obtain ⟨rfl, rfl⟩ := Call.pure_ok_iff.mp he
      exact ⟨.refl _, fun hp' => absurd hp' hp, by simp⟩
  obtain ⟨hgb, hob, hdead⟩ := hback
  obtain ⟨hge, hlen, haux⟩ := hextra
  refine ⟨(hgf.trans hgb).trans hge, rfl, nextAllocation b, ⟨fun side hl => ?_,
    by simp [nextAllocation], hdead, by simpa using hlen, fun i k hk => ?_⟩, fun side => ?_,
    fun k hk w hw => ?_⟩
  · cases side with
    | forward => exact hof.grows (hgb.trans hge)
    | backward => exact (hob (hl rfl)).1.grows hge
  · simp only [List.getElem?_toArray] at hk
    obtain ⟨hr, w, hw, hle, hlow, -⟩ := haux k (List.mem_of_getElem? hk)
    refine ⟨hr, w, hw, hle, fun side => ?_⟩
    cases side <;> simp only [nextAllocation] <;> omega
  · have hsize := (hgb.trans hge).size_memory
    rw [Storage.size_memory_withNext] at hsize
    cases side with
    | forward => exact ⟨le_rfl, fun _ => by simp only [nextAllocation]; omega⟩
    | backward =>
      refine ⟨by simp [nextAllocation], fun hl => ?_⟩
      have hmem := (hob (hl rfl)).2
      have hle := hge.size_memory
      simp only [nextAllocation]
      omega
  · obtain ⟨-, v, hv, -, hlow, hhigh⟩ := haux k (by simpa using hk)
    rw [hw] at hv
    cases hv
    exact ⟨by omega, hhigh⟩

theorem mapM_create_succeeds {bytes : Nat} {access : Access} (l : List Nat) {b : Backend α}
    (room : b.alignedSlot (max bytes 1) ≤ sequenceLimit) :
    ∃ hs c, (l.mapM fun _ => Backend.create bytes access 1) b = .ok hs c := by
  induction l generalizing b with
  | nil => exact ⟨[], b, Call.mapM_nil_ok_iff.mpr ⟨rfl, rfl⟩⟩
  | cons n l ih =>
    have hcreate : Backend.create bytes access 1 b = .ok ⟨b.buffers.size⟩
        (b.withBase bytes access 1) :=
      Backend.create_ok_iff.mpr ⟨by simpa using room, rfl, rfl⟩
    obtain ⟨hs, c, hrest⟩ := ih (b := b.withBase bytes access 1)
      (by rwa [(b.withBase_grows bytes access 1).alignedSlot])
    exact ⟨_, c, Call.mapM_cons_ok_iff.mpr ⟨_, _, hs, hcreate, hrest, rfl⟩⟩

theorem instantiate_succeeds {t : Tensor} {b : Backend α} (auxiliary : Nat) (h : t.Sound)
    (room : b.alignedSlot t.shape.bytes * t.slotCount ≤ sequenceLimit) :
    ∃ t' c, t.instantiate auxiliary b = .ok t' c := by
  have hcount := slotCount_pos h.sequence
  have hbytes : max t.shape.bytes 1 = t.shape.bytes := by
    have hpos := h.elements
    unfold Shape.bytes
    omega
  have hroom : b.alignedSlot (max t.shape.bytes 1) * max t.slotCount 1 ≤ sequenceLimit := by
    rwa [hbytes, Nat.max_eq_left hcount]
  have hslot : b.alignedSlot (max t.shape.bytes 1) ≤ sequenceLimit :=
    (Nat.le_mul_of_pos_right _ (by omega)).trans hroom
  have hgrows := Storage.withNext_grows b t.shape.bytes t.kind.forwardAccess t.slotCount
  have hback : ∃ backward b₂, (if t.kind.hasBackward = true then
      Storage.allocate t.shape.bytes .readWrite t.slotCount else pure {})
        (Storage.withNext b t.shape.bytes t.kind.forwardAccess t.slotCount) =
          .ok backward b₂ ∧ b.Grows b₂ := by
    by_cases hk : t.kind.hasBackward = true
    · rw [if_pos hk]
      exact ⟨_, _, Storage.allocate_ok_iff.mpr ⟨by rwa [hgrows.alignedSlot], rfl, rfl⟩,
        hgrows.trans (Storage.withNext_grows ..)⟩
    · rw [if_neg hk]
      exact ⟨_, _, Call.pure_ok_iff.mpr ⟨rfl, rfl⟩, hgrows⟩
  obtain ⟨backward, b₂, hb, hg⟩ := hback
  have hextra : ∃ extra c, (if t.kind = .parameter then (List.range auxiliary).mapM fun _ =>
      Backend.create t.shape.bytes .readWrite 1 else pure []) b₂ = .ok extra c := by
    by_cases hp : t.kind = .parameter
    · rw [if_pos hp]
      exact mapM_create_succeeds _ (by rwa [hg.alignedSlot])
    · rw [if_neg hp]
      exact ⟨_, _, Call.pure_ok_iff.mpr ⟨rfl, rfl⟩⟩
  obtain ⟨extra, c, he⟩ := hextra
  have hbare : t.isInstantiated = false := by
    simp [isInstantiated, h.bare.1]
  exact ⟨_, c, instantiate_ok_iff.mpr ⟨hbare, _, _,
    Storage.allocate_ok_iff.mpr ⟨hroom, rfl, rfl⟩, backward, b₂, hb, extra, he, rfl⟩⟩

end Tensor

end Backprop
