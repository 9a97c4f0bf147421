import Mathlib
import Backprop.Network.Compile
import Backprop.Proofs.Tensor
import Backprop.Proofs.Network.Sketch

/-! The third stage of a compilation: every tensor gets storage, and no two sides share an
allocation. -/

namespace Backprop

/-- A tensor that differs from another in its storage at most. -/
def Tensor.SameButStorage (t u : Tensor) : Prop :=
  u = { t with forward := u.forward, backward := u.backward, auxiliary := u.auxiliary }

theorem Tensor.SameButStorage.lives {t u : Tensor} (h : t.SameButStorage u) (side : Side) :
    u.Lives side ↔ t.Lives side := by
  rw [h]
  exact Iff.rfl

namespace Network

variable {α β : Type}

theorem onBackend_ok_iff {call : Backend.Call α β} {n n' : Network α} {x : β} :
    onBackend call n = .ok x n' ↔
      ∃ backend, call n.backend = .ok x backend ∧ n' = { n with backend } := by
  unfold onBackend
  cases h : call n.backend with
  | ok y backend =>
    simp only [EStateM.Result.ok.injEq]
    constructor
    · rintro ⟨rfl, rfl⟩
      exact ⟨backend, ⟨rfl, rfl⟩, rfl⟩
    · rintro ⟨_, ⟨rfl, rfl⟩, rfl⟩
      exact ⟨rfl, rfl⟩
  | error e backend => simp

variable [Zero α]

/-- The first `count` tensors are stored, every side in an allocation of its own that was not
there before. -/
structure Layout (b : Backend α) (floor auxiliary : Nat) (ts : Array Tensor) (count : Nat)
    (allocation : Nat → Side → Nat) : Prop where
  stored : ∀ (i : Nat) (t : Tensor), i < count → ts[i]? = some t →
    t.Stored b (allocation i) auxiliary
  above : ∀ (i : Nat) (side : Side), i < count → floor ≤ allocation i side
  below : ∀ (i : Nat) (t : Tensor) (side : Side), i < count → ts[i]? = some t → t.Lives side →
    allocation i side < b.device.memory.size
  apart : ∀ (i j : Nat) (t u : Tensor) (side other : Side), i < count → j < count →
    ts[i]? = some t → ts[j]? = some u → t.Lives side → u.Lives other →
    allocation i side = allocation j other → i = j ∧ side = other
  auxiliary : ∀ (i : Nat) (t : Tensor) (k : BufferId) (w : Window), i < count → ts[i]? = some t →
    k ∈ t.auxiliary → b.window? k = some w → floor ≤ w.allocation ∧
      w.allocation < b.device.memory.size ∧
      ∀ (j : Nat) (u : Tensor) (side : Side), j < count → ts[j]? = some u → u.Lives side →
        w.allocation ≠ allocation j side

/-- A network on the way to one whose tensors are all stored. -/
structure Instantiating (n : Network α) (auxiliary count : Nat) (m : Network α) : Prop where
  same : m = { n with backend := m.backend, tensors := m.tensors }
  grows : n.backend.Grows m.backend
  size : m.tensors.size = n.tensors.size
  tensor : ∀ (i : Nat) (t : Tensor), n.tensors[i]? = some t → ∃ t', m.tensors[i]? = some t' ∧
    t.SameButStorage t' ∧ (count ≤ i → t' = t)
  layout : ∃ allocation, Layout m.backend n.backend.device.memory.size auxiliary m.tensors count
    allocation

variable {n m m' : Network α} {auxiliary count : Nat}

theorem instantiateTensor_ok_iff {t : Tensor} {i : Nat} (ht : m.tensors[i]? = some t) :
    instantiateTensor auxiliary i m = .ok ⟨⟩ m' ↔ ∃ t' c,
      t.instantiate auxiliary m.backend = .ok t' c ∧
        m' = { m with backend := c, tensors := m.tensors.modify i fun _ => t' } := by
  rw [instantiateTensor, Call.get_bind_ok_iff]
  simp only [ht, Call.bind_ok_iff, onBackend_ok_iff, modifyTensor,
    Call.modify_ok_iff]
  constructor
  · rintro ⟨t', _, ⟨c, hc, rfl⟩, rfl⟩
    exact ⟨t', c, hc, rfl⟩
  · rintro ⟨t', c, hc, rfl⟩
    exact ⟨t', _, ⟨c, hc, rfl⟩, rfl⟩

theorem Instantiating.start (n : Network α) (auxiliary : Nat) : Instantiating n auxiliary 0 n where
  same := rfl
  grows := .refl _
  size := rfl
  tensor _ t ht := ⟨t, ht, rfl, fun _ => rfl⟩
  layout := ⟨fun _ _ => 0, by simp, by simp, by simp, by simp, by simp⟩

theorem Layout.next {b c : Backend α} {floor : Nat} {ts : Array Tensor}
    {allocation : Nat → Side → Nat} {t : Tensor} {alloc : Side → Nat}
    (h : Layout b floor auxiliary ts count allocation) (hg : b.Grows c)
    (hfloor : floor ≤ b.device.memory.size) (hstored : t.Stored c alloc auxiliary)
    (halloc : ∀ side, b.device.memory.size ≤ alloc side ∧
      (t.Lives side → alloc side < c.device.memory.size))
    (haux : ∀ k ∈ t.auxiliary, ∀ w, c.window? k = some w →
      b.device.memory.size ≤ w.allocation ∧ w.allocation < c.device.memory.size) :
    Layout c floor auxiliary (ts.modify count fun _ => t) (count + 1)
      (Function.update allocation count alloc) := by
  have hget : ∀ (i : Nat) (u : Tensor), i < count + 1 → (ts.modify count fun _ => t)[i]? = some u →
      (i = count ∧ u = t) ∨ (i ≠ count ∧ i < count ∧ ts[i]? = some u) := by
    intro i u hi hu
    rw [Array.getElem?_modify] at hu
    split at hu
    · next he =>
      obtain ⟨_, -, rfl⟩ := Option.map_eq_some_iff.mp hu
      exact .inl ⟨he.symm, rfl⟩
    · next he => exact .inr ⟨Ne.symm he, by omega, hu⟩
  have hmem := hg.size_memory
  refine ⟨fun i u hi hu => ?_, fun i side hi => ?_, fun i u side hi hu hlive => ?_,
    fun i j u v side other hi hj hu hv hlive hlive' heq => ?_, fun i u k w hi hu hk hw => ?_⟩
  · obtain ⟨rfl, rfl⟩ | ⟨hne, hlt, hu⟩ := hget i u hi hu
    · rwa [Function.update_self]
    · rw [Function.update_of_ne hne]
      exact (h.stored i u hlt hu).grows hg
  · by_cases hne : i = count
    · subst hne
      rw [Function.update_self]
      exact hfloor.trans (halloc side).1
    · rw [Function.update_of_ne hne]
      exact h.above i side (by omega)
  · obtain ⟨rfl, rfl⟩ | ⟨hne, hlt, hu⟩ := hget i u hi hu
    · rw [Function.update_self]
      exact (halloc side).2 hlive
    · rw [Function.update_of_ne hne]
      exact (h.below i u side hlt hu hlive).trans_le hmem
  · obtain ⟨rfl, rfl⟩ | ⟨hne, hlt, hu₁⟩ := hget i u hi hu
    · obtain ⟨rfl, rfl⟩ | ⟨hne', hlt', hv₁⟩ := hget j v hj hv
      · rw [Function.update_self] at heq
        refine ⟨rfl, ?_⟩
        have hapart := hstored.apart
        cases side with
        | forward =>
          cases other with
          | forward => rfl
          | backward => exact absurd heq hapart
        | backward =>
          cases other with
          | forward => exact absurd heq.symm hapart
          | backward => rfl
      · rw [Function.update_self, Function.update_of_ne hne'] at heq
        have h₁ := (halloc side).1
        have h₂ := h.below j v other hlt' hv₁ hlive'
        omega
    · obtain ⟨rfl, rfl⟩ | ⟨hne', hlt', hv₁⟩ := hget j v hj hv
      · rw [Function.update_self, Function.update_of_ne hne] at heq
        have h₁ := (halloc other).1
        have h₂ := h.below i u side hlt hu₁ hlive
        omega
      · rw [Function.update_of_ne hne, Function.update_of_ne hne'] at heq
        exact h.apart i j u v side other hlt hlt' hu₁ hv₁ hlive hlive' heq
  · obtain ⟨rfl, rfl⟩ | ⟨hne, hlt, hu₁⟩ := hget i u hi hu
    · obtain ⟨hlow, hhigh⟩ := haux k hk w hw
      refine ⟨hfloor.trans hlow, hhigh, fun j v side hj hv hlive => ?_⟩
      obtain ⟨rfl, rfl⟩ | ⟨hne', hlt', hv₁⟩ := hget j v hj hv
      · rw [Function.update_self]
        obtain ⟨a, ha⟩ := Array.getElem?_of_mem hk
        obtain ⟨-, w', hw', -, happ⟩ := hstored.auxiliary a k ha
        rw [hw] at hw'
        cases hw'
        exact happ side
      · rw [Function.update_of_ne hne']
        have hbelow := h.below j v side hlt' hv₁ hlive
        omega
    · obtain ⟨a, ha⟩ := Array.getElem?_of_mem hk
      obtain ⟨-, w', hw', -⟩ := (h.stored i u hlt hu₁).auxiliary a k ha
      rw [hg.window? hw'] at hw
      cases hw
      obtain ⟨habove, hsize, happ⟩ := h.auxiliary i u k _ hlt hu₁ hk hw'
      refine ⟨habove, hsize.trans_le hmem, fun j v side hj hv hlive => ?_⟩
      obtain ⟨rfl, rfl⟩ | ⟨hne', hlt', hv₁⟩ := hget j v hj hv
      · rw [Function.update_self]
        have hlow := (halloc side).1
        omega
      · rw [Function.update_of_ne hne']
        exact happ j v side hlt' hv₁ hlive

theorem Instantiating.next (h : Instantiating n auxiliary count m)
    (pos : ∀ (i : Nat) (t : Tensor), n.tensors[i]? = some t → 0 < t.sequence)
    (hcount : count < n.tensors.size) (hstep : instantiateTensor auxiliary count m = .ok ⟨⟩ m') :
    Instantiating n auxiliary (count + 1) m' := by
  obtain ⟨t, ht⟩ : ∃ t, n.tensors[count]? = some t := ⟨_, Array.getElem?_eq_getElem hcount⟩
  obtain ⟨_, hm, -, hsame⟩ := h.tensor count t ht
  obtain rfl := hsame le_rfl
  obtain ⟨t', c, hc, rfl⟩ := (instantiateTensor_ok_iff hm).mp hstep
  obtain ⟨hg, hst, alloc, hstored, halloc, haux⟩ := Tensor.instantiate_ok (pos count _ ht) hc
  replace hst : Tensor.SameButStorage _ t' := hst
  obtain ⟨allocation, hl⟩ := h.layout
  refine ⟨?_, h.grows.trans hg, by simp [h.size], fun i u hu => ?_, _,
    hl.next hg h.grows.size_memory hstored (fun side =>
      ⟨(halloc side).1, fun hlive => (halloc side).2 ((hst.lives side).mp hlive)⟩) haux⟩
  · rw [h.same]
  · obtain ⟨u', hu', hsu, hle⟩ := h.tensor i u hu
    by_cases hi : count = i
    · subst hi
      rw [ht] at hu
      cases hu
      exact ⟨t', by simp [Array.getElem?_modify, hm], hst, fun hle => absurd hle (by omega)⟩
    · exact ⟨u', by simp [Array.getElem?_modify, hi, hu'], hsu, fun hlt => hle (by omega)⟩

def auxiliaryCount (n : Network α) : Nat := (n.optimizer.map (·.auxiliaryCount)).getD 0

theorem instantiateAll_ok
    (pos : ∀ (i : Nat) (t : Tensor), n.tensors[i]? = some t → 0 < t.sequence)
    (h : instantiateAll n = .ok ⟨⟩ m) :
    Instantiating n n.auxiliaryCount n.tensors.size m := by
  rw [instantiateAll, Call.get_bind_ok_iff] at h
  exact Call.forM_range_induct (.start n _) (fun i s s' hi hs hstep => hs.next pos hi hstep) h

theorem instantiateAll_succeeds
    (sound : ∀ (i : Nat) (t : Tensor), n.tensors[i]? = some t → t.Sound)
    (room : ∀ (i : Nat) (t : Tensor), n.tensors[i]? = some t →
      n.backend.alignedSlot t.shape.bytes * t.slotCount ≤ sequenceLimit) :
    ∃ m, instantiateAll n = .ok ⟨⟩ m := by
  rw [instantiateAll]
  simp only [Call.get_bind_ok_iff]
  have hstep : ∀ i s, i < n.tensors.size → Instantiating n n.auxiliaryCount i s →
      ∃ s', instantiateTensor n.auxiliaryCount i s = .ok ⟨⟩ s' ∧
        Instantiating n n.auxiliaryCount (i + 1) s' := by
    intro i s hi hs
    obtain ⟨t, ht⟩ : ∃ t, n.tensors[i]? = some t := ⟨_, Array.getElem?_eq_getElem hi⟩
    obtain ⟨_, hm, -, hsame⟩ := hs.tensor i t ht
    obtain rfl := hsame le_rfl
    obtain ⟨t', c, hc⟩ := Tensor.instantiate_succeeds n.auxiliaryCount (sound i _ ht)
      (b := s.backend) (by rw [hs.grows.alignedSlot]; exact room i _ ht)
    have hok := (instantiateTensor_ok_iff hm).mpr ⟨t', c, hc, rfl⟩
    exact ⟨_, hok, hs.next (fun j u hu => (sound j u hu).sequence) hi hok⟩
  obtain ⟨m, hm, -⟩ := Call.forM_range_succeeds (Instantiating.start n n.auxiliaryCount) hstep
  exact ⟨m, hm⟩

end Network

end Backprop
