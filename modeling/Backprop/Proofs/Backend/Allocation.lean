import Mathlib
import Backprop.Tensor.Basic
import Backprop.Proofs.Backend.Execution

/-! Storage on a backend: a new allocation of zeros, divided into slots that lie apart. What
was there before stays as it was. -/

namespace Backprop

variable {α : Type}

theorem requireRoom_ok_iff {count width : Nat} {u : Unit} :
    requireRoom count width = .ok u ↔ count * width ≤ sequenceLimit := by
  unfold requireRoom
  split <;> simp_all

theorem ceilDiv_mul_of_dvd {n d : Nat} (hd : 0 < d) (h : d ∣ n) : ceilDiv n d * d = n := by
  obtain ⟨m, rfl⟩ := h
  rw [ceilDiv, Nat.add_sub_assoc hd, Nat.mul_add_div hd, Nat.div_eq_of_lt (by omega)]
  rw [Nat.add_zero, Nat.mul_comm]

theorem le_mul_ceilDiv {n d : Nat} (hd : 0 < d) : n ≤ d * ceilDiv n d := by
  have hdiv := Nat.div_add_mod (n + d - 1) d
  have hmod := Nat.mod_lt (n + d - 1) hd
  unfold ceilDiv
  omega

namespace Backend

theorem dvd_alignedSlot (b : Backend α) (bytes : Nat) : 4 ∣ b.alignedSlot bytes :=
  Dvd.dvd.mul_right b.device.four_dvd_alignment _

theorem le_alignedSlot (b : Backend α) (bytes : Nat) : bytes ≤ b.alignedSlot bytes :=
  le_mul_ceilDiv b.device.alignment_pos

section

variable [Zero α]

def Blank (b : Backend α) (allocation : Nat) : Prop :=
  ∀ words, b.device.memory[allocation]? = some words → ∀ x ∈ words, x = 0

/-- The backend with more buffers and more allocations, which hold zeros. -/
def Grows (b c : Backend α) : Prop :=
  ∃ (buffers : Array Buffer) (memory : Array (Array α)),
    (∀ words ∈ memory, ∀ x ∈ words, x = 0) ∧
    c = { b with
      buffers := b.buffers ++ buffers
      device := { b.device with memory := b.device.memory ++ memory } }

theorem Grows.refl (b : Backend α) : b.Grows b := ⟨#[], #[], by simp, by simp⟩

theorem Grows.trans {b c d : Backend α} (h : b.Grows c) (h' : c.Grows d) : b.Grows d := by
  obtain ⟨bs, ms, hz, rfl⟩ := h
  obtain ⟨bs', ms', hz', rfl⟩ := h'
  refine ⟨bs ++ bs', ms ++ ms', fun words hw => ?_, by simp [Array.append_assoc]⟩
  obtain hw | hw := Array.mem_append.mp hw
  · exact hz words hw
  · exact hz' words hw

theorem Grows.alignment {b c : Backend α} (h : b.Grows c) :
    c.device.alignment = b.device.alignment := by
  obtain ⟨bs, ms, -, rfl⟩ := h
  rfl

theorem Grows.alignedSlot {b c : Backend α} (h : b.Grows c) (bytes : Nat) :
    c.alignedSlot bytes = b.alignedSlot bytes := by
  rw [Backend.alignedSlot, Backend.alignedSlot, h.alignment]

theorem Grows.size_memory {b c : Backend α} (h : b.Grows c) :
    b.device.memory.size ≤ c.device.memory.size := by
  obtain ⟨bs, ms, -, rfl⟩ := h
  simp

theorem Grows.buffer {b c : Backend α} (h : b.Grows c) {i : Nat} {buffer : Buffer}
    (hb : b.buffers[i]? = some buffer) : c.buffers[i]? = some buffer := by
  obtain ⟨bs, ms, -, rfl⟩ := h
  rw [Array.getElem?_append_left (Array.getElem?_eq_some_iff.mp hb).1, hb]

theorem Grows.memory {b c : Backend α} (h : b.Grows c) {a : Nat} {words : Array α}
    (hb : b.device.memory[a]? = some words) : c.device.memory[a]? = some words := by
  obtain ⟨bs, ms, -, rfl⟩ := h
  rw [Array.getElem?_append_left (Array.getElem?_eq_some_iff.mp hb).1, hb]

theorem Grows.blank {b c : Backend α} (h : b.Grows c) {a : Nat} (ha : b.device.memory.size ≤ a) :
    c.Blank a := by
  obtain ⟨bs, ms, hz, rfl⟩ := h
  intro words hw
  rw [Array.getElem?_append_right ha] at hw
  exact hz words (Array.mem_of_getElem? hw)

theorem Grows.resolves {b c : Backend α} (h : b.Grows c) {k : BufferId} (hr : b.Resolves k) :
    c.Resolves k := by
  obtain ⟨buffer, hb, ho, hl, words, hw, hle⟩ := hr
  exact ⟨buffer, h.buffer hb, ho, hl, words, h.memory hw, hle⟩

theorem Grows.window? {b c : Backend α} (h : b.Grows c) {k : BufferId} {w : Window}
    (hw : b.window? k = some w) : c.window? k = some w := by
  rw [Backend.window?, Option.map_eq_some_iff] at hw ⊢
  obtain ⟨buffer, hb, hw⟩ := hw
  exact ⟨buffer, h.buffer hb, hw⟩

def baseBuffer (b : Backend α) (bytes : Nat) (access : Access) (count : Nat) : Buffer :=
  let slot := b.alignedSlot (max bytes 1)
  { allocation := b.device.memory.size, offset := 0, bytes := slot * max count 1, access,
    slot := some slot }

def withBase (b : Backend α) (bytes : Nat) (access : Access) (count : Nat) : Backend α :=
  { b with
    device := { b.device with
      memory := b.device.memory.push
        (Array.replicate (ceilDiv (b.alignedSlot (max bytes 1) * max count 1) 4) 0) }
    buffers := b.buffers.push (b.baseBuffer bytes access count) }

theorem withBase_grows (b : Backend α) (bytes : Nat) (access : Access) (count : Nat) :
    b.Grows (b.withBase bytes access count) := by
  refine ⟨#[b.baseBuffer bytes access count],
    #[Array.replicate (ceilDiv (b.alignedSlot (max bytes 1) * max count 1) 4) 0],
    fun words hw x hx => ?_, by simp [withBase]⟩
  rw [Array.mem_singleton.mp hw] at hx
  exact (Array.mem_replicate.mp hx).2

theorem create_ok_iff {b c : Backend α} {bytes count : Nat} {access : Access} {h : BufferId} :
    create bytes access count b = .ok h c ↔
      b.alignedSlot (max bytes 1) * max count 1 ≤ sequenceLimit ∧
        h = ⟨b.buffers.size⟩ ∧ c = b.withBase bytes access count := by
  have hdvd : 4 ∣ b.alignedSlot (max bytes 1) * max count 1 :=
    Dvd.dvd.mul_right (b.dvd_alignedSlot _) _
  rw [create, Call.get_bind_ok_iff]
  simp only [Call.bind_ok_iff, Call.ofExcept_ok_iff, Call.set_ok_iff, Call.pure_ok_iff,
    Device.allocate, Except.bind_ok_iff, Except.pure_ok_iff, requireRoom_ok_iff]
  rw [ceilDiv_mul_of_dvd (by decide) hdvd]
  constructor
  · rintro ⟨_, _, ⟨⟨_, hroom, rfl⟩, rfl⟩, _, _, rfl, rfl, rfl⟩
    exact ⟨hroom, rfl, rfl⟩
  · rintro ⟨hroom, rfl, rfl⟩
    exact ⟨_, _, ⟨⟨⟨⟩, hroom, rfl⟩, rfl⟩, ⟨⟩, _, rfl, rfl, rfl⟩

theorem withBase_stride (b : Backend α) (bytes : Nat) (access : Access) (count : Nat) :
    ∃ stride, b.alignedSlot (max bytes 1) = 4 * stride ∧ bytes ≤ 4 * stride ∧
      (b.withBase bytes access count).device.memory[b.device.memory.size]? =
        some (Array.replicate (stride * max count 1) 0) := by
  obtain ⟨stride, hstride⟩ := b.dvd_alignedSlot (max bytes 1)
  have hle : bytes ≤ b.alignedSlot (max bytes 1) :=
    (Nat.le_max_left bytes 1).trans (b.le_alignedSlot _)
  have hmul : 4 * stride * max count 1 = 4 * (stride * max count 1) := Nat.mul_assoc ..
  have hwords : ceilDiv (4 * stride * max count 1) 4 = stride * max count 1 := by
    have hh := ceilDiv_mul_of_dvd (n := 4 * stride * max count 1) (d := 4) (by decide)
      ⟨_, hmul⟩
    omega
  exact ⟨stride, hstride, hstride ▸ hle, by simp [withBase, hstride, hwords]⟩

theorem withBase_resolves (b : Backend α) (bytes : Nat) (access : Access) (count : Nat) :
    (b.withBase bytes access count).Resolves ⟨b.buffers.size⟩ ∧
      ∃ w, (b.withBase bytes access count).window? ⟨b.buffers.size⟩ = some w ∧
        bytes / 4 ≤ w.count ∧ w.allocation = b.device.memory.size := by
  obtain ⟨stride, hstride, hle, hmem⟩ := b.withBase_stride bytes access count
  have hmul : 4 * stride * max count 1 = 4 * (stride * max count 1) := Nat.mul_assoc ..
  have hcount : stride ≤ stride * max count 1 := Nat.le_mul_of_pos_right _ (by omega)
  have hbuffer : (b.withBase bytes access count).buffers[b.buffers.size]? =
      some (b.baseBuffer bytes access count) := by simp [withBase]
  refine ⟨⟨_, hbuffer, rfl, ?_, _, hmem, ?_⟩, ⟨b.device.memory.size, 0, stride * max count 1⟩,
    ?_, ?_, rfl⟩
  · simp only [baseBuffer, hstride, hmul, Nat.mul_mod_right]
  · simp only [baseBuffer, hstride, hmul, Array.size_replicate]
    omega
  · simp [window?, hbuffer, baseBuffer, hstride, hmul]
  · simp only
    omega

end

/-- Slot `index` of an allocation whose slots are `stride` bytes apart. -/
def slotBuffer (allocation stride bytes : Nat) (access : Access) (index : Nat) : Buffer :=
  { allocation, offset := stride * index, bytes, access, slot := none }

theorem createSub_ok {b : Backend α} {base : BufferId} {whole : Buffer} {slot bytes index : Nat}
    {access : Access} (hbase : b.buffers[base.index]? = some whole) (hslot : whole.slot = some slot)
    (hbytes : bytes ≤ slot) (hroom : slot * index + bytes ≤ whole.bytes) :
    createSub base bytes access index b = .ok ⟨b.buffers.size⟩
      { b with
        buffers := b.buffers.push (slotBuffer whole.allocation slot bytes access index) } := by
  rw [createSub, Call.get_bind_ok_iff]
  simp only [Call.bind_ok_iff, Call.ofExcept_ok_iff, buffer_ok_iff]
  refine ⟨whole, b, ⟨hbase, rfl⟩, ?_⟩
  have hfits : ¬(bytes > slot ∨ slot * index + bytes > whole.bytes) := by omega
  simp only [hslot, hfits, if_false]
  rfl

theorem mapM_createSub_ok {b : Backend α} {base : BufferId} {whole : Buffer}
    {slot bytes count : Nat} {access : Access} (hbase : b.buffers[base.index]? = some whole)
    (hslot : whole.slot = some slot) (hbytes : bytes ≤ slot) (hroom : slot * count ≤ whole.bytes) :
    (List.range count).mapM (createSub base bytes access) b =
      .ok ((List.range count).map fun j => ⟨b.buffers.size + j⟩)
        { b with buffers := b.buffers ++
          ((List.range count).map (slotBuffer whole.allocation slot bytes access)).toArray } := by
  induction count with
  | zero =>
    rw [List.range_zero, Call.mapM_nil_ok_iff]
    simp
  | succ count ih =>
    have hmul : slot * (count + 1) = slot * count + slot := Nat.mul_succ slot count
    have hlt : base.index < b.buffers.size := (Array.getElem?_eq_some_iff.mp hbase).1
    rw [List.range_succ, Call.mapM_append_ok_iff]
    refine ⟨_, _, _, ih (by omega), Call.mapM_cons_ok_iff.mpr ⟨_, _, [],
      createSub_ok (by rwa [Array.getElem?_append_left hlt]) hslot hbytes (by omega),
      Call.mapM_nil_ok_iff.mpr ⟨rfl, ?_⟩, rfl⟩, ?_⟩
    · simp
    · simp

end Backend

namespace Storage

variable [Zero α]

/-- The slots of a storage lie apart in one allocation, which its base covers. -/
structure Occupies (s : Storage) (b : Backend α) (allocation elements count : Nat) : Prop where
  base : ∃ base whole, s.base = some base ∧ b.buffers[base.index]? = some whole ∧
    whole.allocation = allocation ∧ b.Resolves base
  size : s.slots.size = count
  slots : ∃ stride, elements ≤ stride ∧ ∀ j h, s.slots[j]? = some h →
    b.Resolves h ∧ b.window? h = some ⟨allocation, stride * j, elements⟩

theorem Occupies.grows {s : Storage} {b c : Backend α} {allocation elements count : Nat}
    (h : s.Occupies b allocation elements count) (hg : b.Grows c) :
    s.Occupies c allocation elements count := by
  obtain ⟨base, whole, hbase, hwhole, ha, hr⟩ := h.base
  obtain ⟨stride, hstride, hslots⟩ := h.slots
  exact ⟨⟨base, whole, hbase, hg.buffer hwhole, ha, hg.resolves hr⟩, h.size, stride, hstride,
    fun j k hk => ⟨hg.resolves (hslots j k hk).1, hg.window? (hslots j k hk).2⟩⟩

/-- The storage made next on a backend. -/
def next (b : Backend α) (count : Nat) : Storage :=
  ⟨some ⟨b.buffers.size⟩, ((List.range count).map fun j => ⟨b.buffers.size + 1 + j⟩).toArray⟩

/-- The backend on which the next storage has been made. -/
def withNext (b : Backend α) (bytes : Nat) (access : Access) (count : Nat) : Backend α :=
  { b.withBase bytes access count with
    buffers := b.buffers.push (b.baseBuffer bytes access count) ++ ((List.range count).map
      (Backend.slotBuffer b.device.memory.size (b.alignedSlot (max bytes 1)) bytes access)).toArray }

theorem allocate_ok_iff {b c : Backend α} {bytes count : Nat} {access : Access} {s : Storage} :
    allocate bytes access count b = .ok s c ↔
      b.alignedSlot (max bytes 1) * max count 1 ≤ sequenceLimit ∧
        s = next b count ∧ c = withNext b bytes access count := by
  have hsub : (List.range count).mapM (Backend.createSub ⟨b.buffers.size⟩ bytes access)
      (b.withBase bytes access count) =
        .ok ((List.range count).map fun j => ⟨b.buffers.size + 1 + j⟩)
          (withNext b bytes access count) := by
    have hle : bytes ≤ b.alignedSlot (max bytes 1) :=
      (Nat.le_max_left bytes 1).trans (b.le_alignedSlot _)
    have hbase : (b.withBase bytes access count).buffers[b.buffers.size]? =
        some (b.baseBuffer bytes access count) := by
      simp [Backend.withBase]
    have hsize : (b.withBase bytes access count).buffers.size = b.buffers.size + 1 := by
      simp [Backend.withBase]
    rw [← hsize]
    exact Backend.mapM_createSub_ok hbase rfl hle (Nat.mul_le_mul_left _ (Nat.le_max_left count 1))
  simp only [allocate, Call.bind_ok_iff, Backend.create_ok_iff, Call.pure_ok_iff]
  constructor
  · rintro ⟨_, _, ⟨hroom, rfl, rfl⟩, slots, _, hslots, rfl, rfl⟩
    rw [hsub] at hslots
    cases hslots
    exact ⟨hroom, rfl, rfl⟩
  · rintro ⟨hroom, rfl, rfl⟩
    exact ⟨_, _, ⟨hroom, rfl, rfl⟩, _, _, hsub, rfl, rfl⟩

theorem withBase_grows_withNext (b : Backend α) (bytes : Nat) (access : Access) (count : Nat) :
    (b.withBase bytes access count).Grows (withNext b bytes access count) :=
  ⟨((List.range count).map (Backend.slotBuffer b.device.memory.size
    (b.alignedSlot (max bytes 1)) bytes access)).toArray, #[], by simp, by
      simp [withNext, Backend.withBase]⟩

theorem withNext_grows (b : Backend α) (bytes : Nat) (access : Access) (count : Nat) :
    b.Grows (withNext b bytes access count) :=
  (b.withBase_grows bytes access count).trans (withBase_grows_withNext b bytes access count)

@[simp] theorem size_memory_withNext (b : Backend α) (bytes : Nat) (access : Access)
    (count : Nat) :
    (withNext b bytes access count).device.memory.size = b.device.memory.size + 1 := by
  simp [withNext, Backend.withBase]

theorem next_slot {b : Backend α} (bytes : Nat) (access : Access) {count j : Nat} {h : BufferId}
    (hh : (next b count).slots[j]? = some h) :
    j < count ∧ (withNext b bytes access count).buffers[h.index]? = some
      (Backend.slotBuffer b.device.memory.size (b.alignedSlot (max bytes 1)) bytes access j) := by
  simp only [next, List.getElem?_toArray, List.getElem?_map, Option.map_eq_some_iff] at hh
  obtain ⟨i, hi, rfl⟩ := hh
  have hj : j < count := by simpa using (List.getElem?_eq_some_iff.mp hi).1
  obtain rfl : j = i := by simpa [hj] using hi
  have hright : (b.buffers.push (b.baseBuffer bytes access count)).size ≤
      b.buffers.size + 1 + j := by simp
  refine ⟨hj, ?_⟩
  rw [withNext, Array.getElem?_append_right hright]
  simp [hj]

theorem next_occupies (b : Backend α) (elements : Nat) (access : Access) {count : Nat}
    (hcount : 0 < count) :
    (next b count).Occupies (withNext b (4 * elements) access count) b.device.memory.size elements
      count := by
  obtain ⟨stride, hstride, hle, hmem⟩ := b.withBase_stride (4 * elements) access count
  rw [show max count 1 = count by omega] at hmem
  have hgrows := withBase_grows_withNext b (4 * elements) access count
  have hbase : (withNext b (4 * elements) access count).buffers[b.buffers.size]? =
      some (b.baseBuffer (4 * elements) access count) := by
    simp [withNext]
  refine ⟨⟨⟨b.buffers.size⟩, _, rfl, hbase, rfl,
    hgrows.resolves (b.withBase_resolves (4 * elements) access count).1⟩, by simp [next],
    stride, by omega, fun j h hh => ?_⟩
  obtain ⟨hj, hslot⟩ := next_slot (4 * elements) access hh
  rw [hstride] at hslot
  have hoffset : 4 * stride * j / 4 = stride * j := by
    rw [Nat.mul_assoc, Nat.mul_div_cancel_left _ (by decide)]
  have hin : stride * j + elements ≤ stride * count := by
    have hmul : stride * (j + 1) ≤ stride * count := Nat.mul_le_mul_left _ hj
    rw [Nat.mul_succ] at hmul
    omega
  refine ⟨⟨_, hslot, ?_, ?_, _, hgrows.memory hmem, ?_⟩, ?_⟩
  · simp only [Backend.slotBuffer, Nat.mul_assoc, Nat.mul_mod_right]
  · simp only [Backend.slotBuffer, Nat.mul_mod_right]
  · simpa [Backend.slotBuffer, hoffset] using hin
  · simp [Backend.window?, hslot, Backend.slotBuffer, hoffset]

end Storage

end Backprop
