import Mathlib
import Backprop.Proofs.Network.Compiled

/-! The parts of a compiled network's storage: a slot for each side and timestep of a tensor, and
the auxiliary buffers of a parameter. Parts start at aligned bytes, and no two share a byte. -/

namespace Backprop

variable {α : Type}

/-- A slot of one side of a tensor, or an auxiliary buffer of it. -/
inductive Part where
  | slot (side : Side) (index : Nat)
  | auxiliary (index : Nat)
deriving DecidableEq

namespace Part

def region : Part → Nat
  | slot .forward _ => 0
  | slot .backward _ => 1
  | auxiliary i => 2 + i

def position : Part → Nat
  | slot _ j => j
  | auxiliary _ => 0

theorem eq_of_region {p q : Part} (hr : p.region = q.region) (hp : p.position = q.position) :
    p = q := by
  cases p with
  | slot side j =>
    cases q with
    | slot side' j' => cases side <;> cases side' <;> simp_all [region, position]
    | auxiliary i => cases side <;> simp only [region] at hr <;> omega
  | auxiliary i =>
    cases q with
    | slot side j => cases side <;> simp only [region] at hr <;> omega
    | auxiliary i' =>
      simp only [region] at hr
      rw [show i = i' by omega]

end Part

namespace Tensor

def part? (t : Tensor) : Part → Option BufferId
  | .slot side j => (t.storage side).slots[j]?
  | .auxiliary i => t.auxiliary[i]?

def base? (t : Tensor) : Part → Option BufferId
  | .slot side _ => (t.storage side).base
  | .auxiliary i => t.auxiliary[i]?

/-- Slots that a side has: one for each timestep, one more for the state before the first, a
single one for weights and for scratch, and none for gradients of scratch. -/
def slotsOn (t : Tensor) (side : Side) : Nat :=
  match t.kind with
  | .input | .intermediate => t.sequence
  | .recurrent => t.sequence + 1
  | .parameter => 1
  | .scratch => if side = .forward then 1 else 0

def partBytes (t : Tensor) (b : Backend α) : Part → Nat
  | .slot .. => t.shape.bytes
  | .auxiliary _ => b.alignedSlot t.shape.bytes

end Tensor

namespace Backend

/-- A buffer that covers a range of bytes of an allocation, which a base buffer covers whole. -/
structure PartAt (b : Backend α) (base h : BufferId) (allocation offset bytes : Nat) : Prop where
  whole : ∃ whole words, b.buffers[base.index]? = some whole ∧ whole.allocation = allocation ∧
    whole.offset = 0 ∧ b.device.memory[allocation]? = some words ∧ whole.bytes = 4 * words.size ∧
    offset + bytes ≤ whole.bytes
  buffer : ∃ x, b.buffers[h.index]? = some x ∧ x.allocation = allocation ∧ x.offset = offset ∧
    x.bytes = bytes

end Backend

/-- The storage of a tensor, in allocations of its own that come one after the other. Each of them
is divided into parts as large as an aligned slot. -/
structure Tensor.Divides (t : Tensor) (b : Backend α) (first auxiliary : Nat) : Prop where
  slots : ∀ side, (t.storage side).slots.size = t.slotsOn side
  auxiliary : t.auxiliary.size = if t.kind = .parameter then auxiliary else 0
  part : ∀ p h, t.part? p = some h → ∃ base, t.base? p = some base ∧
    b.PartAt base h (first + p.region) (b.alignedSlot t.shape.bytes * p.position) (t.partBytes b p)

section

variable [Zero α] {b c : Backend α} {first auxiliary : Nat}

theorem Backend.PartAt.grows {base h : BufferId} {allocation offset bytes : Nat}
    (hp : b.PartAt base h allocation offset bytes) (hg : b.Grows c) :
    c.PartAt base h allocation offset bytes := by
  obtain ⟨whole, words, hwhole, ha, hzero, hwords, hrest⟩ := hp.whole
  obtain ⟨x, hx, hrange⟩ := hp.buffer
  exact ⟨⟨whole, words, hg.buffer hwhole, ha, hzero, hg.memory hwords, hrest⟩, x, hg.buffer hx,
    hrange⟩

theorem Storage.next_partAt (bytes : Nat) (access : Access) {count j : Nat} {h : BufferId}
    (hh : (Storage.next b count).slots[j]? = some h) :
    (Storage.withNext b bytes access count).PartAt ⟨b.buffers.size⟩ h b.device.memory.size
      (b.alignedSlot (max bytes 1) * j) bytes := by
  obtain ⟨hj, hbuffer⟩ := Storage.next_slot bytes access hh
  obtain ⟨stride, hstride, -, hmem⟩ := b.withBase_stride bytes access count
  have hle : bytes ≤ b.alignedSlot (max bytes 1) :=
    (Nat.le_max_left bytes 1).trans (b.le_alignedSlot _)
  have hmul : b.alignedSlot (max bytes 1) * (j + 1) ≤ b.alignedSlot (max bytes 1) * max count 1 :=
    Nat.mul_le_mul_left _ (by omega)
  refine ⟨⟨b.baseBuffer bytes access count, _, by simp [Storage.withNext], rfl, rfl, hmem, ?_, ?_⟩,
    _, hbuffer, rfl, rfl, rfl⟩
  · simp only [Backend.baseBuffer, hstride, Array.size_replicate, Nat.mul_assoc]
  · simp only [Backend.baseBuffer]
    rw [Nat.mul_succ] at hmul
    omega

theorem Backend.mapM_create_partAt {bytes : Nat} {access : Access} {l : List Nat}
    {hs : List BufferId} (h : (l.mapM fun _ => Backend.create bytes access 1) b = .ok hs c) {i : Nat}
    {k : BufferId} (hk : hs[i]? = some k) :
    c.PartAt k k (b.device.memory.size + i) 0 (b.alignedSlot (max bytes 1)) := by
  induction l generalizing b hs i with
  | nil =>
    obtain ⟨rfl, -⟩ := Call.mapM_nil_ok_iff.mp h
    simp at hk
  | cons n l ih =>
    obtain ⟨_, m, ks, hcreate, hrest, rfl⟩ := Call.mapM_cons_ok_iff.mp h
    obtain ⟨-, rfl, rfl⟩ := Backend.create_ok_iff.mp hcreate
    cases i with
    | zero =>
      obtain rfl : ⟨b.buffers.size⟩ = k := by simpa using hk
      obtain ⟨stride, hstride, -, hmem⟩ := b.withBase_stride bytes access 1
      have hbuffer : (b.withBase bytes access 1).buffers[b.buffers.size]? =
          some (b.baseBuffer bytes access 1) := by simp [Backend.withBase]
      have hpart : (b.withBase bytes access 1).PartAt ⟨b.buffers.size⟩ ⟨b.buffers.size⟩
          b.device.memory.size 0 (b.alignedSlot (max bytes 1)) := by
        refine ⟨⟨_, _, hbuffer, rfl, rfl, hmem, ?_, ?_⟩, _, hbuffer, rfl, rfl, ?_⟩
        all_goals simp [Backend.baseBuffer, hstride]
      exact hpart.grows (Tensor.mapM_create_ok hrest).1
    | succ i =>
      have hsize : (b.withBase bytes access 1).device.memory.size = b.device.memory.size + 1 := by
        simp [Backend.withBase]
      have hh := ih hrest (i := i) (by simpa using hk)
      rw [(b.withBase_grows bytes access 1).alignedSlot, hsize] at hh
      rwa [show b.device.memory.size + (i + 1) = b.device.memory.size + 1 + i by omega]

namespace Tensor

variable {t t' : Tensor}

theorem Divides.grows (h : t.Divides b first auxiliary) (hg : b.Grows c) :
    t.Divides c first auxiliary where
  slots := h.slots
  auxiliary := h.auxiliary
  part p k hk := by
    obtain ⟨base, hbase, hp⟩ := h.part p k hk
    refine ⟨base, hbase, ?_⟩
    have hbytes : t.partBytes c p = t.partBytes b p := by
      cases p with
      | slot side j => rfl
      | auxiliary i => exact hg.alignedSlot _
    rw [hg.alignedSlot, hbytes]
    exact hp.grows hg

theorem instantiate_divides (hs : t.Sound) (h : t.instantiate auxiliary b = .ok t' c) :
    t'.Divides c b.device.memory.size auxiliary := by
  have hcount := slotCount_pos hs.sequence
  have hmax : max t.shape.bytes 1 = t.shape.bytes := by
    have hpos := hs.elements
    unfold Shape.bytes
    omega
  obtain ⟨-, _, b₁, hf, backward, b₂, hb, extra, he, rfl⟩ := instantiate_ok_iff.mp h
  obtain ⟨-, rfl, rfl⟩ := Storage.allocate_ok_iff.mp hf
  have hgf := Storage.withNext_grows b t.shape.bytes t.kind.forwardAccess t.slotCount
  -- the second side, where there is one, comes next
  have hback : (Storage.withNext b t.shape.bytes t.kind.forwardAccess t.slotCount).Grows b₂ ∧
      (t.kind.hasBackward = false → backward = {}) ∧
      (t.kind.hasBackward = true → b₂.device.memory.size = b.device.memory.size + 2 ∧
        backward.slots.size = t.slotCount ∧ ∀ j k, backward.slots[j]? = some k →
          ∃ base, backward.base = some base ∧ b₂.PartAt base k (b.device.memory.size + 1)
            (b.alignedSlot t.shape.bytes * j) t.shape.bytes) := by
    by_cases hk : t.kind.hasBackward = true
    · rw [if_pos hk] at hb
      obtain ⟨-, rfl, rfl⟩ := Storage.allocate_ok_iff.mp hb
      refine ⟨Storage.withNext_grows .., by simp [hk], fun _ => ⟨by simp, by simp [Storage.next],
        fun j k hjk => ⟨_, rfl, ?_⟩⟩⟩
      have hpart := Storage.next_partAt t.shape.bytes .readWrite hjk
      rwa [Storage.size_memory_withNext, hgf.alignedSlot, hmax] at hpart
    · rw [if_neg hk] at hb
      obtain ⟨rfl, rfl⟩ := Call.pure_ok_iff.mp hb
      exact ⟨.refl _, fun _ => rfl, fun hk' => absurd hk' hk⟩
  obtain ⟨hgb, hdead, hback⟩ := hback
  have hextra : b₂.Grows c ∧ extra.length = (if t.kind = .parameter then auxiliary else 0) ∧
      ∀ i k, extra[i]? = some k → t.kind = .parameter ∧
        c.PartAt k k (b₂.device.memory.size + i) 0 (b.alignedSlot t.shape.bytes) := by
    by_cases hp : t.kind = .parameter
    · rw [if_pos hp] at he
      obtain ⟨hg, hlen, -⟩ := mapM_create_ok he
      refine ⟨hg, by simpa [hp] using hlen, fun i k hk => ⟨hp, ?_⟩⟩
      have hpart := Backend.mapM_create_partAt he hk
      rwa [(hgf.trans hgb).alignedSlot, hmax] at hpart
    · rw [if_neg hp] at he
      obtain ⟨rfl, rfl⟩ := Call.pure_ok_iff.mp he
      exact ⟨.refl _, by simp [hp], by simp⟩
  obtain ⟨hge, hlen, haux⟩ := hextra
  have hslot : c.alignedSlot t.shape.bytes = b.alignedSlot t.shape.bytes :=
    ((hgf.trans hgb).trans hge).alignedSlot _
  refine ⟨fun side => ?_, by simpa using hlen, fun p k hk => ?_⟩
  · have hforward : (Storage.next b t.slotCount).slots.size = t.slotCount := by simp [Storage.next]
    cases side with
    | forward =>
      refine hforward.trans ?_
      cases hkind : t.kind <;> simp [slotCount, TensorKind.slotCount, slotsOn, hkind]
    | backward =>
      change backward.slots.size = _
      by_cases hk : t.kind.hasBackward = true
      · rw [(hback hk).2.1]
        cases hkind : t.kind <;>
          simp_all [slotCount, TensorKind.slotCount, slotsOn, TensorKind.hasBackward]
      · rw [hdead (by simpa using hk)]
        cases hkind : t.kind <;> simp_all [slotsOn, TensorKind.hasBackward]
  · simp only [hslot]
    cases p with
    | slot side j =>
      cases side with
      | forward =>
        have hpart := Storage.next_partAt t.shape.bytes t.kind.forwardAccess hk
        rw [hmax] at hpart
        exact ⟨_, rfl, hpart.grows (hgb.trans hge)⟩
      | backward =>
        by_cases hback' : t.kind.hasBackward = true
        · obtain ⟨base, hbase, hpart⟩ := (hback hback').2.2 j k hk
          exact ⟨base, hbase, hpart.grows hge⟩
        · have hempty := hdead (by simpa using hback')
          subst hempty
          simp [part?, storage] at hk
    | auxiliary i =>
      have hk' : extra[i]? = some k := by simpa [part?] using hk
      obtain ⟨hp, hpart⟩ := haux i k hk'
      have hsize := (hback (by rw [hp]; rfl)).1
      refine ⟨k, by simpa [base?] using hk', ?_⟩
      simp only [partBytes, hslot, Part.region, Part.position, Nat.mul_zero]
      rwa [hsize, Nat.add_assoc] at hpart

end Tensor

end

/-- No byte belongs to both buffers. -/
def Buffer.Disjoint (x y : Buffer) : Prop :=
  x.allocation = y.allocation → x.offset + x.bytes ≤ y.offset ∨ y.offset + y.bytes ≤ x.offset

namespace Network

def part? (m : Network α) (i : Nat) (p : Part) : Option Buffer :=
  m.tensors[i]?.bind fun t => (t.part? p).bind fun h => m.backend.buffers[h.index]?

/-- The storage of a network: the parts of all tensors, with `auxiliary` buffers for each
parameter. -/
structure Divided (m : Network α) (alignment auxiliary : Nat) : Prop where
  slots : ∀ (i : Nat) (t : Tensor), m.tensors[i]? = some t → ∀ side, (t.storage side).slots.size = t.slotsOn side
  auxiliary : ∀ (i : Nat) (t : Tensor), m.tensors[i]? = some t →
    t.auxiliary.size = if t.kind = .parameter then auxiliary else 0
  /-- Every part starts at an aligned byte of an allocation, which a base buffer covers, and lies
  inside of it. -/
  placed : ∀ (i : Nat) (t : Tensor) (p : Part) (h : BufferId), m.tensors[i]? = some t →
    t.part? p = some h → ∃ x base whole words,
    m.part? i p = some x ∧ alignment ∣ x.offset ∧ t.base? p = some base ∧
    m.backend.buffers[base.index]? = some whole ∧ whole.allocation = x.allocation ∧
    whole.offset = 0 ∧ x.offset + x.bytes ≤ whole.bytes ∧
    m.backend.device.memory[x.allocation]? = some words ∧ whole.bytes = 4 * words.size
  /-- A slot can be used for the elements of its tensor, and for no more. -/
  bytes : ∀ (i : Nat) (t : Tensor) (side : Side) (j : Nat) (x : Buffer), m.tensors[i]? = some t → m.part? i (.slot side j) = some x →
    x.bytes = t.shape.bytes
  disjoint : ∀ (i j : Nat) (p q : Part) (x y : Buffer), m.part? i p = some x → m.part? j q = some y → (i, p) ≠ (j, q) →
    x.Disjoint y

section

variable [Zero α] {b c : Backend α} {auxiliary count : Nat} {ts : Array Tensor}

/-- The first tensors are stored, no two of them in one allocation. -/
structure Parted (b : Backend α) (auxiliary : Nat) (ts : Array Tensor) (count : Nat) : Prop where
  divides : ∀ (i : Nat) (t : Tensor), i < count → ts[i]? = some t → ∃ first, t.Divides b first auxiliary
  apart : ∀ (i j : Nat) (t u : Tensor) (p q : Part) (h k : BufferId) (x y : Buffer), i < j →
    j < count → ts[i]? = some t → ts[j]? = some u →
    t.part? p = some h → u.part? q = some k → b.buffers[h.index]? = some x →
    b.buffers[k.index]? = some y → x.allocation ≠ y.allocation

theorem Parted.next {t : Tensor} (h : Parted b auxiliary ts count) (hg : b.Grows c)
    (ht : t.Divides c b.device.memory.size auxiliary) :
    Parted c auxiliary (ts.modify count fun _ => t) (count + 1) := by
  have hget : ∀ (i : Nat) (u : Tensor), i < count + 1 → (ts.modify count fun _ => t)[i]? = some u →
      (i = count ∧ u = t) ∨ (i < count ∧ ts[i]? = some u) := by
    intro i u hi hu
    rw [Array.getElem?_modify] at hu
    split at hu
    · next he =>
      obtain ⟨_, -, rfl⟩ := Option.map_eq_some_iff.mp hu
      exact .inl ⟨he.symm, rfl⟩
    · exact .inr ⟨by omega, hu⟩
  have hold : ∀ i u p k, i < count → ts[i]? = some u → u.part? p = some k →
      ∃ x, b.buffers[k.index]? = some x ∧ x.allocation < b.device.memory.size := by
    intro i u p k hi hu hk
    obtain ⟨first, hdiv⟩ := h.divides i u hi hu
    obtain ⟨base, -, hpart⟩ := hdiv.part p k hk
    obtain ⟨whole, words, -, -, -, hwords, -⟩ := hpart.whole
    obtain ⟨x, hx, ha, -⟩ := hpart.buffer
    exact ⟨x, hx, ha ▸ (Array.getElem?_eq_some_iff.mp hwords).1⟩
  refine ⟨fun i u hi hu => ?_, fun i j u v p q k l x y hij hj hu hv hk hl hx hy => ?_⟩
  · obtain ⟨rfl, rfl⟩ | ⟨hlt, hu⟩ := hget i u hi hu
    · exact ⟨_, ht⟩
    · obtain ⟨first, hdiv⟩ := h.divides i u hlt hu
      exact ⟨first, hdiv.grows hg⟩
  · have hi : i < count := by omega
    obtain ⟨hi', -⟩ | ⟨-, hu⟩ := hget i u (by omega) hu
    · omega
    obtain ⟨x', hx', hlow⟩ := hold i u p k hi hu hk
    rw [hg.buffer hx', Option.some.injEq] at hx
    subst hx
    obtain ⟨rfl, rfl⟩ | ⟨hlt, hv⟩ := hget j v hj hv
    · obtain ⟨base, -, hpart⟩ := ht.part q l hl
      obtain ⟨y', hy', ha, -⟩ := hpart.buffer
      rw [hy', Option.some.injEq] at hy
      subst hy
      omega
    · obtain ⟨y', hy', -⟩ := hold j v q l hlt hv hl
      rw [hg.buffer hy', Option.some.injEq] at hy
      subst hy
      exact h.apart i j u v p q k l x' y' hij hlt hu hv hk hl hx' hy'

theorem instantiateAll_parted {n m : Network α}
    (sound : ∀ (i : Nat) (t : Tensor), n.tensors[i]? = some t → t.Sound)
    (h : instantiateAll n = .ok ⟨⟩ m) :
    Parted m.backend n.auxiliaryCount m.tensors n.tensors.size := by
  rw [instantiateAll, Call.get_bind_ok_iff] at h
  refine (Call.forM_range_induct (P := fun count m => Instantiating n n.auxiliaryCount count m ∧
    Parted m.backend n.auxiliaryCount m.tensors count) ⟨.start n _, by simp, by simp⟩ ?_ h).2
  rintro i s s' hi ⟨hs, hparted⟩ hstep
  refine ⟨hs.next (fun j u hu => (sound j u hu).sequence) hi hstep, ?_⟩
  obtain ⟨t, ht⟩ : ∃ t, n.tensors[i]? = some t := ⟨_, Array.getElem?_eq_getElem hi⟩
  obtain ⟨_, hm, -, hsame⟩ := hs.tensor i t ht
  obtain rfl := hsame le_rfl
  obtain ⟨t', c, hc, rfl⟩ := (instantiateTensor_ok_iff hm).mp hstep
  have hgrows := (Tensor.instantiate_ok (sound i _ ht).sequence hc).1
  exact hparted.next hgrows (Tensor.instantiate_divides (sound i _ ht) hc)

omit [Zero α] in
/-- Parts are disjoint: those of one tensor have different slots or allocations. -/
theorem Parted.divided {m : Network α} (h : Parted m.backend auxiliary m.tensors m.tensors.size) :
    m.Divided m.backend.device.alignment auxiliary := by
  have hdiv : ∀ (i : Nat) (t : Tensor), m.tensors[i]? = some t →
      ∃ first, t.Divides m.backend first auxiliary :=
    fun i t ht => h.divides i t (Array.getElem?_eq_some_iff.mp ht).1 ht
  have hpart : ∀ i p x, m.part? i p = some x → ∃ t k, m.tensors[i]? = some t ∧
      t.part? p = some k ∧ m.backend.buffers[k.index]? = some x := by
    intro i p x hx
    obtain ⟨t, ht, hx⟩ := Option.bind_eq_some_iff.mp hx
    obtain ⟨k, hk, hx⟩ := Option.bind_eq_some_iff.mp hx
    exact ⟨t, k, ht, hk, hx⟩
  refine ⟨fun i t ht => ?_, fun i t ht => ?_, fun i t p k ht hk => ?_,
    fun i t side j x ht hx => ?_, fun i j p q x y hx hy hne ha => ?_⟩
  · obtain ⟨first, hd⟩ := hdiv i t ht
    exact hd.slots
  · obtain ⟨first, hd⟩ := hdiv i t ht
    exact hd.auxiliary
  · obtain ⟨first, hd⟩ := hdiv i t ht
    obtain ⟨base, hbase, hat⟩ := hd.part p k hk
    obtain ⟨whole, words, hwhole, ha, hzero, hwords, hfull, hin⟩ := hat.whole
    obtain ⟨x, hx, hax, hoffset, hbytes⟩ := hat.buffer
    refine ⟨x, base, whole, words, ?_, ?_, hbase, hwhole, ha.trans hax.symm, hzero, ?_, ?_, hfull⟩
    · simp only [part?, ht, hk, Option.bind_some, hx]
    · rw [hoffset]
      exact Dvd.dvd.mul_right (Dvd.intro _ rfl) _
    · rwa [hoffset, hbytes]
    · rwa [hax]
  · obtain ⟨t', k, ht', hk, hx⟩ := hpart i _ x hx
    rw [ht] at ht'
    cases ht'
    obtain ⟨first, hd⟩ := hdiv i t ht
    obtain ⟨base, -, hat⟩ := hd.part _ k hk
    obtain ⟨x', hx', -, -, hbytes⟩ := hat.buffer
    rw [hx, Option.some.injEq] at hx'
    rw [hx', hbytes]
    rfl
  · obtain ⟨t, k, ht, hk, hxk⟩ := hpart i p x hx
    obtain ⟨u, l, hu, hl, hyl⟩ := hpart j q y hy
    obtain hlt | rfl | hlt := Nat.lt_trichotomy i j
    · exact absurd ha (h.apart i j t u p q k l x y hlt (Array.getElem?_eq_some_iff.mp hu).1 ht hu
        hk hl hxk hyl)
    · rw [ht] at hu
      cases hu
      obtain ⟨first, hd⟩ := hdiv i t ht
      have hslot : t.shape.bytes ≤ m.backend.alignedSlot t.shape.bytes :=
        m.backend.le_alignedSlot _
      have hfits : ∀ (r : Part) (z : Buffer), z.bytes = t.partBytes m.backend r →
          z.bytes ≤ m.backend.alignedSlot t.shape.bytes := by
        intro r z hz
        cases r with
        | slot side s => exact hz.trans_le hslot
        | auxiliary s => exact hz.le
      obtain ⟨_, -, hp⟩ := hd.part p k hk
      obtain ⟨x', hx', hax, hox, hbx⟩ := hp.buffer
      rw [hxk, Option.some.injEq] at hx'
      subst hx'
      obtain ⟨_, -, hq⟩ := hd.part q l hl
      obtain ⟨y', hy', hay, hoy, hby⟩ := hq.buffer
      rw [hyl, Option.some.injEq] at hy'
      subst hy'
      have hregion : p.region = q.region := by omega
      have hpos : p.position ≠ q.position := fun heq =>
        hne (by rw [Part.eq_of_region hregion heq])
      have hxle := hfits p x hbx
      have hyle := hfits q y hby
      obtain hpos | hpos := Nat.lt_or_gt_of_ne hpos
      · have hmul := Nat.mul_le_mul_left (m.backend.alignedSlot t.shape.bytes) hpos
        rw [Nat.mul_succ] at hmul
        exact .inl (by omega)
      · have hmul := Nat.mul_le_mul_left (m.backend.alignedSlot t.shape.bytes) hpos
        rw [Nat.mul_succ] at hmul
        exact .inr (by omega)
    · exact absurd ha.symm (h.apart j i u t q p l k y x hlt (Array.getElem?_eq_some_iff.mp ht).1 hu
        ht hl hk hyl hxk)

omit [Zero α] in
theorem Divided.congr {m m' : Network α} {alignment : Nat} (h : m.Divided alignment auxiliary)
    (ht : m'.tensors = m.tensors) (hb : m'.backend.buffers = m.backend.buffers)
    (hs : m'.backend.device.sizes = m.backend.device.sizes) : m'.Divided alignment auxiliary := by
  have hpart : m'.part? = m.part? := by
    funext i p
    rw [part?, part?, ht, hb]
  refine ⟨by rw [ht]; exact h.slots, by rw [ht]; exact h.auxiliary, fun i t p k htk hk => ?_,
    by rw [ht, hpart]; exact h.bytes, by rw [hpart]; exact h.disjoint⟩
  obtain ⟨x, base, whole, words, hx, hdvd, hbase, hwhole, ha, hzero, hin, hwords, hfull⟩ :=
    h.placed i t p k (ht ▸ htk) hk
  have hsize : (m'.backend.device.memory[x.allocation]?).map (·.size) = some words.size := by
    have hh := congrArg (fun sizes => sizes[x.allocation]?) hs
    simpa [Device.sizes, hwords] using hh
  obtain ⟨words', hwords', hsize⟩ := Option.map_eq_some_iff.mp hsize
  exact ⟨x, base, whole, words', hpart ▸ hx, hdvd, hbase, hb ▸ hwhole, ha, hzero, hin, hwords',
    hsize ▸ hfull⟩

end

variable [Scalar α] {b : Backend α} {config : NetworkConfig} {n m : Network α} {batch : Nat}

/-- Storage is made once, for the tensors that planning leaves: what comes later changes values at
most. -/
theorem compile_planned (hn : Outline b n) (idle : b.Idle) (h : compile batch n = .ok ⟨⟩ m) :
    ∃ m₁ m₂ m₃, applyBatch (max batch 1) n = .ok ⟨⟩ m₁ ∧ planScratch m₁ = .ok ⟨⟩ m₂ ∧
      Planned n m₂ (max batch 1) ∧ instantiateAll m₂ = .ok ⟨⟩ m₃ ∧
      m.tensors = m₃.tensors ∧ m.backend.buffers = m₃.backend.buffers ∧
      m.backend.device.sizes = m₃.backend.device.sizes := by
  obtain ⟨m₁, m₂, m₃, m₄, m₅, m₆, m₇, h₁, h₂, hplan, h₃, -, hun, hm₅, hrec, h₆, h₇, rfl⟩ :=
    compile_stages hn idle h
  obtain ⟨hm₆, hwiped⟩ := clearAll_ok h₆
  obtain ⟨hm₇, htouch⟩ := drawInitials_ok (A := fun _ => True)
    (fun _ _ _ _ _ _ _ _ => trivial) h₇
  refine ⟨m₁, m₂, m₃, h₁, h₂, hplan, h₃, ?_, ?_, ?_⟩
  · simp only
    rw [hm₇, hm₆, hm₅, hun.same]
  · simp only
    rw [htouch.buffers, hwiped.same, hrec.buffers, hun.recorded.buffers]
  · simp only
    rw [htouch.sizes, hwiped.sizes, hrec.device, hun.recorded.device]

theorem compile_storage (hn : Outline b n) (idle : b.Idle) (h : compile batch n = .ok ⟨⟩ m) :
    ∃ m₂ m₃, Planned n m₂ (max batch 1) ∧ instantiateAll m₂ = .ok ⟨⟩ m₃ ∧
      m.tensors = m₃.tensors ∧ m.backend.buffers = m₃.backend.buffers ∧
      m.backend.device.sizes = m₃.backend.device.sizes := by
  obtain ⟨-, m₂, m₃, -, -, hstorage⟩ := compile_planned hn idle h
  exact ⟨m₂, m₃, hstorage⟩

/-- Compilation divides the memory of the device among the parts of the tensors. -/
theorem compile_divided (hn : Outline b n) (idle : b.Idle) (h : compile batch n = .ok ⟨⟩ m) :
    m.Divided b.device.alignment n.auxiliaryCount := by
  obtain ⟨m₂, m₃, hplan, h₃, hts, hbuffers, hsizes⟩ := compile_storage hn idle h
  obtain ⟨staging, ts, nodes, scratch, hm₂⟩ := hplan.same
  have hsound : ∀ (i : Nat) (t : Tensor), m₂.tensors[i]? = some t → t.Sound :=
    fun i t => hplan.sound hn
  have hinst := instantiateAll_ok (fun i t ht => (hsound i t ht).sequence) h₃
  have haux : m₂.auxiliaryCount = n.auxiliaryCount := by rw [hm₂]; rfl
  have halign : m₃.backend.device.alignment = b.device.alignment := by
    rw [hinst.grows.alignment, hm₂, hn.backend]
  have hparted := instantiateAll_parted hsound h₃
  rw [← hinst.size, haux] at hparted
  rw [← halign]
  exact hparted.divided.congr hts hbuffers hsizes

/-- Compilation divides the memory of a device of any alignment among the parts of the tensors,
each as large as its tensor has become for the batch. -/
theorem Assembled.compile_divides (idle : b.Idle) (hn : Assembled (Network.new b config) n)
    (h : compile batch n = .ok ⟨⟩ m) :
    m.Divided b.device.alignment n.auxiliaryCount ∧
      ∀ (i : Nat) (t : Tensor), n.tensors[i]? = some t → ∃ t', m.tensors[i]? = some t' ∧
        t'.kind = t.kind ∧ t'.sequence = t.sequence ∧
        t'.shape = if ⟨i⟩ ∉ n.reducedOutputs ∧ t.kind.followsBatch then
          t.shape.withRows (max batch 1) else t.shape := by
  have hout := hn.outline
  have idle' : Backend.Idle { b with validation := config.validate } :=
    ⟨idle.dispatches, idle.sound⟩
  obtain ⟨m₂, m₃, hplan, h₃, hts, -, -⟩ := compile_storage hout idle' h
  have hinst := instantiateAll_ok (fun i t ht => (hplan.sound hout ht).sequence) h₃
  have hdivided := compile_divided hout idle' h
  refine ⟨hdivided, fun i t ht => ?_⟩
  obtain ⟨t', ht', hsame, -⟩ := hinst.tensor i _ (hplan.tensor i t ht)
  refine ⟨t', by rw [hts, ht'], ?_, ?_, ?_⟩
  · rw [hsame, batchTensor_eq]
  · rw [hsame, batchTensor_eq]
  · rw [hsame]
    unfold batchTensor Tensor.withBatch
    split
    · next hr => simp [hr]
    · next hr =>
      split
      · next hf => simp [hr, hf]
      · next hf => simp [hf]

/-- A state of two steps that meets a parameter with moments, on a device that aligns to 12 bytes. -/
def partedNetwork : Network Binary32 :=
  (Network.new { Backend.host with device := { alignment := 12 } } {}).draft
    [.createState ⟨2, 1, 1, 1⟩ 2, .createParameter ⟨1, 2, 1, 1⟩ 1,
      .addOperator .matMul [⟨0⟩, ⟨1⟩] 0, .setOptimizer (.adamAt Optimizer.defaultAlpha)]

set_option maxRecDepth 100000 in
theorem partedNetwork_divides : ∃ m, compile 3 partedNetwork = .ok ⟨⟩ m ∧ m.Divided 12 2 := by
  have hm : compile 3 partedNetwork = .ok ⟨⟩ (Call.after (compile 3) partedNetwork) :=
    Call.ok_of_isOk (by decide +kernel)
  have hsound : (Backend.host : Backend Binary32).Sound := Backend.host_idle.sound
  have hidle : Backend.Idle
      { (Backend.host : Backend Binary32) with device := { alignment := 12 } } := ⟨rfl, hsound⟩
  exact ⟨_, hm, (Assembled.compile_divides hidle (Assembled.start.draft _) hm).1⟩

end Network

end Backprop
