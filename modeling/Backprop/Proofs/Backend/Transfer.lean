import Mathlib
import Backprop.Tensor.Basic
import Backprop.Proofs.Backend.Allocation

/-! Transfers: which allocation a write or a zeroing reaches. All others stay as they are. -/

namespace Backprop

variable {α : Type}

namespace Backend

theorem window_ok_iff {b : Backend α} {h : BufferId} {offset length : Nat} {w : Window} :
    b.window h offset length = .ok w ↔ ∃ buffer, b.buffers[h.index]? = some buffer ∧
      (b.validation → offset + length ≤ buffer.bytes) ∧ (buffer.offset + offset) % 4 = 0 ∧
      length % 4 = 0 ∧ w = ⟨buffer.allocation, (buffer.offset + offset) / 4, length / 4⟩ ∧
      b.device.Holds w := by
  simp only [window, Except.bind_ok_iff, buffer_ok_iff]
  refine exists_congr fun buffer => and_congr_right fun _ => ?_
  by_cases hv : b.validation
  · by_cases hb : buffer.bytes < offset + length
    · simp [hv, hb, Except.bind_ok_iff, Except.throw_ok_iff, Nat.not_le.mpr hb]
    · simp [hv, hb, Nat.not_lt.mp hb, Device.window_ok_iff]
  · simp [hv, Device.window_ok_iff]

theorem write_ok_iff {b c : Backend α} {h : BufferId} {offset : Nat} {data : Array α} :
    write h offset data b = .ok ⟨⟩ c ↔ ∃ w, b.window h offset (4 * data.size) = .ok w ∧
      c = { b with device := b.device.store w data } := by
  rw [write, Call.get_bind_ok_iff]
  simp only [Call.ofExcept_bind_ok_iff, Call.set_ok_iff]

theorem zero_ok_iff [Zero α] {b c : Backend α} {h : BufferId} {offset length : Nat} :
    zero h offset length b = .ok ⟨⟩ c ↔ ∃ w, b.window h offset length = .ok w ∧
      c = { b with device := b.device.fillZero w } := by
  rw [zero, Call.get_bind_ok_iff]
  simp only [Call.ofExcept_bind_ok_iff, Call.set_ok_iff]

/-- Nothing but the contents of some of the allocations has changed. -/
structure Touches (b c : Backend α) (A : Nat → Prop) : Prop where
  same : b.SameButDevice c
  sizes : c.device.sizes = b.device.sizes
  memory : ∀ a, ¬A a → c.device.memory[a]? = b.device.memory[a]?

namespace Touches

variable {b c d : Backend α} {A A' : Nat → Prop}

theorem refl (b : Backend α) (A : Nat → Prop) : b.Touches b A := ⟨.refl b, rfl, fun _ _ => rfl⟩

theorem trans (h : b.Touches c A) (h' : c.Touches d A) : b.Touches d A :=
  ⟨h.same.trans h'.same, h'.sizes.trans h.sizes, fun a ha => (h'.memory a ha).trans (h.memory a ha)⟩

theorem mono (h : b.Touches c A) (hA : ∀ a, A a → A' a) : b.Touches c A' :=
  ⟨h.same, h.sizes, fun a ha => h.memory a fun ha' => ha (hA a ha')⟩

theorem buffers (h : b.Touches c A) : c.buffers = b.buffers := by rw [h.same]

theorem contents (h : b.Touches c A) {k : BufferId} {w : Window} (hw : b.window? k = some w)
    (ha : ¬A w.allocation) : c.contents k = b.contents k := by
  rw [Backend.contents, Backend.contents, window?_congr h.buffers, hw]
  simp only [Device.words, h.memory _ ha]

theorem store (b : Backend α) (w : Window) (data : Array α) :
    b.Touches { b with device := b.device.store w data } (· = w.allocation) := by
  refine ⟨rfl, Device.sizes_store _ _ _, fun a ha => ?_⟩
  simp only [Device.store, Array.getElem?_modify]
  rw [if_neg (Ne.symm ha)]

end Touches

theorem write_touches {b c : Backend α} {h : BufferId} {offset : Nat} {data : Array α}
    (hw : write h offset data b = .ok ⟨⟩ c) :
    b.Touches c fun a => ∃ v, b.window? h = some v ∧ a = v.allocation := by
  obtain ⟨w, hwin, rfl⟩ := write_ok_iff.mp hw
  obtain ⟨buffer, hb, -, -, -, rfl, -⟩ := window_ok_iff.mp hwin
  exact (Touches.store b _ data).mono fun a ha =>
    ⟨⟨buffer.allocation, buffer.offset / 4, buffer.bytes / 4⟩, by simp [window?, hb], ha⟩

section Zeroing

variable [Zero α]

/-- Nothing has changed but for some words that are zero now. -/
structure Wiped (b c : Backend α) : Prop where
  same : b.SameButDevice c
  sizes : c.device.sizes = b.device.sizes
  blank : ∀ a, b.Blank a → c.Blank a

theorem Wiped.refl (b : Backend α) : b.Wiped b := ⟨.refl b, rfl, fun _ h => h⟩

theorem Wiped.trans {b c d : Backend α} (h : b.Wiped c) (h' : c.Wiped d) : b.Wiped d :=
  ⟨h.same.trans h'.same, h'.sizes.trans h.sizes, fun a ha => h'.blank a (h.blank a ha)⟩

theorem fillZero_wiped (b : Backend α) (w : Window) :
    b.Wiped { b with device := b.device.fillZero w } := by
  refine ⟨rfl, Device.sizes_store _ _ _, fun a ha words hwords x hx => ?_⟩
  simp only [Device.fillZero, Device.store, Array.getElem?_modify] at hwords
  split at hwords
  · obtain ⟨old, hold, rfl⟩ := Option.map_eq_some_iff.mp hwords
    obtain ⟨i, hi⟩ := Array.getElem?_of_mem hx
    rw [Device.getElem?_overlay] at hi
    split at hi
    · exact (Array.mem_replicate.mp (Array.mem_of_getElem? hi)).2
    · exact ha old hold x (Array.mem_of_getElem? hi)
  · exact ha words hwords x hx

theorem zero_wiped {b c : Backend α} {h : BufferId} {offset length : Nat}
    (hz : zero h offset length b = .ok ⟨⟩ c) : b.Wiped c := by
  obtain ⟨w, -, rfl⟩ := zero_ok_iff.mp hz
  exact b.fillZero_wiped w

theorem zero_succeeds {b : Backend α} {h : BufferId} {whole : Buffer}
    (hb : b.buffers[h.index]? = some whole) (hr : b.Resolves h) :
    ∃ c, zero h 0 whole.bytes b = .ok ⟨⟩ c := by
  obtain ⟨buffer, hb', ho, hl, hw⟩ := hr
  rw [hb] at hb'
  cases hb'
  exact ⟨_, zero_ok_iff.mpr ⟨_, window_ok_iff.mpr ⟨whole, hb, fun _ => by simp, ho, hl, rfl, hw⟩,
    rfl⟩⟩

theorem Blank.mem_words {b : Backend α} {w : Window} (hb : b.Blank w.allocation) {x : α}
    (hx : x ∈ b.device.words w) : x = 0 := by
  unfold Device.words at hx
  split at hx
  · next words hwords =>
    obtain ⟨i, hi⟩ := Array.getElem?_of_mem hx
    rw [Array.getElem?_extract] at hi
    split at hi
    · exact hb words hwords x (Array.mem_of_getElem? hi)
    · cases hi
  · simp at hx

theorem Blank.contents {b : Backend α} {h : BufferId} {w : Window} (hr : b.Resolves h)
    (hw : b.window? h = some w) (hb : b.Blank w.allocation) :
    b.contents h = Array.replicate w.count 0 := by
  obtain ⟨v, hv, words, hwords, hle⟩ := hr.window?
  rw [hw] at hv
  cases hv
  rw [Backend.contents, hw]
  simp only [Device.words, hwords]
  refine Array.ext (by simp; omega) fun i h₁ h₂ => ?_
  rw [Array.getElem_replicate, Array.getElem_extract]
  exact hb words hwords _ (Array.getElem_mem _)

end Zeroing

end Backend

namespace Storage

variable [Zero α] {s : Storage} {b c : Backend α}

theorem zero_wiped (h : s.zero b = .ok ⟨⟩ c) : b.Wiped c := by
  unfold Storage.zero at h
  cases hs : s.base with
  | none =>
    simp only [hs] at h
    rw [(Call.pure_ok_iff.mp h).2]
    exact .refl _
  | some base =>
    simp only [hs, Call.bind_ok_iff, Call.get_ok_iff, Call.ofExcept_ok_iff] at h
    obtain ⟨_, _, ⟨rfl, rfl⟩, whole, _, ⟨-, rfl⟩, hz⟩ := h
    exact Backend.zero_wiped hz

theorem zero_succeeds (h : s = {} ∨ ∃ allocation elements count,
    s.Occupies b allocation elements count) : ∃ c, s.zero b = .ok ⟨⟩ c := by
  obtain rfl | ⟨allocation, elements, count, h⟩ := h
  · exact ⟨b, Call.pure_ok_iff.mpr ⟨rfl, rfl⟩⟩
  · obtain ⟨base, whole, hbase, hwhole, -, hr⟩ := h.base
    obtain ⟨c, hc⟩ := Backend.zero_succeeds hwhole hr
    refine ⟨c, ?_⟩
    simp only [Storage.zero, hbase, Call.bind_ok_iff, Call.get_ok_iff, Call.ofExcept_ok_iff,
      Backend.buffer_ok_iff]
    exact ⟨_, _, ⟨rfl, rfl⟩, whole, _, ⟨hwhole, rfl⟩, hc⟩

end Storage

end Backprop
