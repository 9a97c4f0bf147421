import Mathlib
import Backprop.Proofs.Backend.Bytes

/-! Calls that make storage or move bytes, and a ledger of those that succeeded. It says where
each handle comes from and which byte was last put at each place of each base buffer. -/

namespace Backprop

open Binary32

/-- A transfer between the host and a buffer. -/
inductive Transfer where
  | write (h : BufferId) (offset : Nat) (bytes : Bytes)
  | read (h : BufferId) (offset length : Nat)
  | zero (h : BufferId) (offset length : Nat)

namespace Transfer

def handle : Transfer → BufferId
  | .write h _ _ | .read h _ _ | .zero h _ _ => h

def offset : Transfer → Nat
  | .write _ offset _ | .read _ offset _ | .zero _ offset _ => offset

def length : Transfer → Nat
  | .write _ _ bytes => bytes.length
  | .read _ _ length | .zero _ _ length => length

def stored : Transfer → Bytes
  | .write _ _ bytes => bytes
  | .read _ _ _ => []
  | .zero _ _ length => List.replicate length 0

def perform : Transfer → Backend.Call Binary32 Bytes
  | .write h offset bytes => do
    Backend.writeBytes h offset bytes
    return []
  | .read h offset length => do
    return bytesOfList (← Backend.read h offset length).toList
  | .zero h offset length => do
    Backend.zero h offset length
    return []

def effect (t : Transfer) (d : Device Binary32) (w : Window) : Device Binary32 :=
  match t with
  | .write _ _ bytes => d.store w (listOfBytes bytes).toArray
  | .read _ _ _ => d
  | .zero _ _ _ => d.fillZero w

def answer (t : Transfer) (d : Device Binary32) (w : Window) : Bytes :=
  match t with
  | .read _ _ _ => bytesOfList (d.words w).toList
  | .write _ _ _ | .zero _ _ _ => []

variable {b c : Backend Binary32} {t : Transfer}

theorem perform_eq (t : Transfer) (b : Backend Binary32) :
    t.perform b = match b.window t.handle t.offset t.length with
      | .ok w => .ok (t.answer b.device w) { b with device := t.effect b.device w }
      | .error e => .error e b := by
  cases t with
  | write h offset data =>
    simp only [perform, Backend.writeBytes, Backend.write, bind_assoc, Call.get_bind,
      Call.ofExcept_bind, Call.discard_eq, handle, Transfer.offset, length]
    cases hw : b.window h offset data.length with
    | error e => rfl
    | ok w =>
      obtain ⟨-, -, -, -, hlength, -⟩ := Backend.window_ok_iff.mp hw
      have hsize : 4 * (listOfBytes data).toArray.size = data.length := by
        rw [List.size_toArray, length_listOfBytes]
        omega
      simp only [pure_bind, Call.get_bind, Call.ofExcept_bind, hsize, hw]
      rfl
  | read h offset length =>
    simp only [perform, Backend.read, bind_assoc, Call.get_bind, Call.ofExcept_bind, handle,
      Transfer.offset, Transfer.length]
    cases b.window h offset length <;> rfl
  | zero h offset length =>
    simp only [perform, Backend.zero, bind_assoc, Call.get_bind, Call.ofExcept_bind, handle,
      Transfer.offset, Transfer.length]
    cases b.window h offset length <;> rfl

theorem perform_ok_iff {bytes : Bytes} :
    t.perform b = .ok bytes c ↔ ∃ w, b.window t.handle t.offset t.length = .ok w ∧
      bytes = t.answer b.device w ∧ c = { b with device := t.effect b.device w } := by
  rw [perform_eq]
  cases b.window t.handle t.offset t.length with
  | error e => simp
  | ok w => simp [eq_comm]

theorem atomic_perform (t : Transfer) : Call.Atomic t.perform := by
  intro b c e h
  rw [perform_eq] at h
  split at h
  · cases h
  · cases h
    rfl

theorem sizes_effect (t : Transfer) (d : Device Binary32) (w : Window) :
    (t.effect d w).sizes = d.sizes := by
  cases t <;> simp [effect, Device.fillZero]

theorem length_stored (t : Transfer) : t.stored.length ≤ t.length := by
  cases t <;> simp [stored, length]

theorem byte?_effect {d : Device Binary32} {w : Window} (h : d.Holds w)
    (hl : t.length = 4 * w.count) (a p : Nat) :
    (t.effect d w).byte? a p =
      if a = w.allocation ∧ 4 * w.start ≤ p ∧ p < 4 * w.start + t.stored.length then
        t.stored[p - 4 * w.start]?
      else d.byte? a p := by
  cases t with
  | write k offset data =>
    have hl : data.length = 4 * w.count := hl
    have hs : (listOfBytes data).toArray.size = w.count := by
      rw [List.size_toArray, length_listOfBytes]
      omega
    rw [effect, Device.byte?_store h hs, bytesOfList_listOfBytes ⟨_, hl⟩]
    simp only [stored, hl, Nat.mul_add]
  | read k offset length => simp [effect, stored]
  | zero k offset length =>
    have hl : length = 4 * w.count := hl
    rw [effect, Device.fillZero, Device.byte?_store h (by simp), Array.toList_replicate,
      bytesOfList_replicate_zero]
    simp only [stored, hl, List.length_replicate, Nat.mul_add]

end Transfer

/-- A call that makes storage or moves bytes. -/
inductive StorageCall where
  | create (bytes : Nat) (access : Access) (count : Nat)
  | createSub (base : BufferId) (bytes : Nat) (access : Access) (index : Nat)
  | transfer (t : Transfer)

/-- Where a handle comes from: the base buffer it lies in, and which slot of it it is, if any. -/
structure Origin where
  base : BufferId
  slot : Option Nat

/-- Origins that share no memory: other bases, or other slots of one base. -/
def Origin.Separate (o o' : Origin) : Prop :=
  o.base ≠ o'.base ∨ ∃ i j, o.slot = some i ∧ o'.slot = some j ∧ i ≠ j

/-- What the calls have made so far: where each issued handle comes from, and the byte last put
at each place of each base buffer. -/
structure Ledger where
  origin : BufferId → Option Origin := fun _ => none
  image : BufferId → Nat → UInt8 := fun _ _ => 0

namespace Ledger

def issue (l : Ledger) (h : BufferId) (o : Origin) : Ledger :=
  { l with origin := Function.update l.origin h (some o) }

def overwrite (image : Nat → UInt8) (start : Nat) (bytes : Bytes) (p : Nat) : UInt8 :=
  if h : start ≤ p ∧ p - start < bytes.length then bytes[p - start] else image p

def enter (l : Ledger) (b : Backend Binary32) (t : Transfer) : Ledger :=
  match l.origin t.handle, b.buffers[t.handle.index]? with
  | some o, some buffer => { l with
      image := Function.update l.image o.base
        (overwrite (l.image o.base) (buffer.offset + t.offset) t.stored) }
  | _, _ => l

/-- Performs a call, and enters it in the ledger where it succeeds. -/
def record (s : Backend Binary32 × Ledger) : StorageCall → Backend Binary32 × Ledger
  | .create bytes access count =>
    match Backend.create bytes access count s.1 with
    | .ok h b => (b, s.2.issue h ⟨h, none⟩)
    | .error _ b => (b, s.2)
  | .createSub base bytes access index =>
    match Backend.createSub base bytes access index s.1 with
    | .ok h b => (b, s.2.issue h ⟨base, some index⟩)
    | .error _ b => (b, s.2)
  | .transfer t =>
    match t.perform s.1 with
    | .ok _ b => (b, s.2.enter s.1 t)
    | .error _ b => (b, s.2)

def journal (b : Backend Binary32) (calls : List StorageCall) : Backend Binary32 × Ledger :=
  calls.foldl record (b, {})

/-- A buffer lies in a base buffer that covers an allocation of its own, whose bytes are those of
the ledger; a slot keeps to its own part of it. -/
structure Seat (l : Ledger) (b : Backend Binary32) (h : BufferId) (buffer : Buffer) (o : Origin)
    (whole : Buffer) (slot : Nat) : Prop where
  origin : l.origin h = some o
  base : b.buffers[o.base.index]? = some whole
  slots : whole.slot = some slot
  aligned : 4 ∣ slot
  allocation : buffer.allocation = whole.allocation
  start : buffer.offset = slot * o.slot.getD 0
  inside : buffer.offset + buffer.bytes ≤ whole.bytes
  part : ∀ j, o.slot = some j → buffer.bytes ≤ slot
  covers : ∃ n, b.device.sizes[whole.allocation]? = some n ∧ whole.bytes = 4 * n
  image : ∀ p < whole.bytes, b.device.byte? whole.allocation p = some (l.image o.base p)

/-- Each buffer has been issued and has its seat, and no two bases share an allocation. -/
structure Reflects (l : Ledger) (b : Backend Binary32) : Prop where
  validation : b.validation = true
  fresh : ∀ h : BufferId, b.buffers[h.index]? = none → l.origin h = none ∧ l.image h = fun _ => 0
  seats : ∀ (h : BufferId) (buffer : Buffer), b.buffers[h.index]? = some buffer → ∃ o whole slot,
    l.Seat b h buffer o whole slot ∧ (buffer.slot.isSome → o = ⟨h, none⟩)
  own : ∀ (h k : BufferId) (whole whole' : Buffer), b.buffers[h.index]? = some whole →
    b.buffers[k.index]? = some whole' → whole.slot.isSome → whole'.slot.isSome →
    whole.allocation = whole'.allocation → h = k

variable {l : Ledger} {b c : Backend Binary32}

/-! ### New storage -/

theorem reflects_start (d : Device Binary32) (registry : Registry) :
    ({} : Ledger).Reflects { device := d, registry } :=
  ⟨rfl, fun _ _ => ⟨rfl, rfl⟩, fun h buffer hb => by simp at hb,
    fun h k whole whole' hw => by simp at hw⟩

theorem Seat.grows {h : BufferId} {buffer : Buffer} {o : Origin} {whole : Buffer} {slot : Nat}
    {l' : Ledger} (hs : l.Seat b h buffer o whole slot) (hg : b.Grows c)
    (origin : l'.origin h = l.origin h) (image : l'.image = l.image) :
    l'.Seat c h buffer o whole slot := by
  obtain ⟨n, hn, hbytes⟩ := hs.covers
  have hmem : ∀ a, a < b.device.memory.size → c.device.memory[a]? = b.device.memory[a]? := by
    intro a ha
    rw [hg.memory (Array.getElem?_eq_getElem ha), Array.getElem?_eq_getElem ha]
  have ha : whole.allocation < b.device.memory.size := by
    have hlt := (Array.getElem?_eq_some_iff.mp hn).1
    rwa [Device.sizes, Array.size_map] at hlt
  refine ⟨origin.trans hs.origin, hg.buffer hs.base, hs.slots, hs.aligned, hs.allocation, hs.start,
    hs.inside, hs.part, ⟨n, ?_, hbytes⟩, fun p hp => ?_⟩
  · rw [← hn, Device.sizes, Device.sizes, Array.getElem?_map, Array.getElem?_map, hmem _ ha]
  · rw [image, ← hs.image p hp, Device.byte?, Device.byte?, Device.word?, Device.word?, hmem _ ha]

theorem Seat.allocation_lt {h : BufferId} {buffer : Buffer} {o : Origin} {whole : Buffer}
    {slot : Nat} (hs : l.Seat b h buffer o whole slot) :
    whole.allocation < b.device.memory.size := by
  obtain ⟨n, hn, -⟩ := hs.covers
  have hlt := (Array.getElem?_eq_some_iff.mp hn).1
  rwa [Device.sizes, Array.size_map] at hlt

theorem Reflects.issue (hl : l.Reflects b) (hg : b.Grows c) {buffer whole : Buffer} {o : Origin}
    {slot : Nat} (hc : c.buffers = b.buffers.push buffer)
    (hs : (l.issue ⟨b.buffers.size⟩ o).Seat c ⟨b.buffers.size⟩ buffer o whole slot)
    (hself : buffer.slot.isSome →
      o = ⟨⟨b.buffers.size⟩, none⟩ ∧ b.device.memory.size ≤ buffer.allocation) :
    (l.issue ⟨b.buffers.size⟩ o).Reflects c := by
  have hat : ∀ h : BufferId, ∀ found, c.buffers[h.index]? = some found →
      (h = ⟨b.buffers.size⟩ ∧ found = buffer) ∨ b.buffers[h.index]? = some found := by
    intro h found hf
    rw [hc, Array.getElem?_push] at hf
    split at hf
    · next he => exact .inl ⟨congrArg BufferId.mk he, (Option.some.inj hf).symm⟩
    · exact .inr hf
  have hlow : ∀ (h : BufferId) found, b.buffers[h.index]? = some found →
      found.slot.isSome → found.allocation < b.device.memory.size := by
    intro h found hf hslot
    obtain ⟨o', whole', slot', hseat, ho⟩ := hl.seats h found hf
    exact hseat.allocation ▸ hseat.allocation_lt
  refine ⟨?_, fun h hnone => ?_, fun h found hf => ?_,
    fun h k found found' hf hf' hslot hslot' ha => ?_⟩
  · obtain ⟨_, _, -, rfl⟩ := hg
    exact hl.validation
  · have hout : b.buffers.size + 1 ≤ h.index := by
      simpa [hc] using hnone
    have hne : h ≠ ⟨b.buffers.size⟩ := by
      rintro rfl
      simp at hout
    obtain ⟨horigin, himage⟩ := hl.fresh h (Array.getElem?_eq_none (by omega))
    exact ⟨(Function.update_of_ne hne _ _).trans horigin, himage⟩
  · obtain ⟨rfl, rfl⟩ | hf := hat h found hf
    · exact ⟨o, whole, slot, hs, fun hslot => (hself hslot).1⟩
    · have hne : h ≠ ⟨b.buffers.size⟩ := by
        rintro rfl
        simp at hf
      obtain ⟨o', whole', slot', hseat, ho⟩ := hl.seats h found hf
      exact ⟨o', whole', slot', hseat.grows hg (Function.update_of_ne hne _ _) rfl, ho⟩
  · obtain ⟨rfl, rfl⟩ | hf := hat h found hf <;> obtain ⟨rfl, rfl⟩ | hf' := hat k found' hf'
    · rfl
    · have hhigh := (hself hslot).2
      have hlt := hlow k found' hf' hslot'
      omega
    · have hhigh := (hself hslot').2
      have hlt := hlow h found hf hslot
      omega
    · exact hl.own h k found found' hf hf' hslot hslot' ha

theorem Reflects.create (hl : l.Reflects b) {bytes count : Nat} {access : Access} {h : BufferId}
    (hc : Backend.create bytes access count b = .ok h c) :
    (l.issue h ⟨h, none⟩).Reflects c := by
  obtain ⟨-, rfl, rfl⟩ := Backend.create_ok_iff.mp hc
  obtain ⟨stride, hstride, -, hmem⟩ := b.withBase_stride bytes access count
  obtain ⟨-, himage⟩ := hl.fresh ⟨b.buffers.size⟩ (by simp)
  have hbytes : (b.baseBuffer bytes access count).bytes = 4 * (stride * max count 1) := by
    rw [Backend.baseBuffer, hstride, Nat.mul_assoc]
  refine hl.issue (b.withBase_grows bytes access count) rfl
    (?_ : Ledger.Seat _ _ _ (b.baseBuffer bytes access count) _
      (b.baseBuffer bytes access count) (4 * stride)) fun _ => ⟨rfl, le_rfl⟩
  refine ⟨Function.update_self .., by simp [Backend.withBase], congrArg some hstride, ⟨stride, rfl⟩,
    rfl, rfl, (Nat.zero_add _).le, by rintro _ ⟨⟩,
    ⟨stride * max count 1, ?_, hbytes⟩, fun p hp => ?_⟩
  · have hh := congrArg (Option.map Array.size) hmem
    rwa [← Array.getElem?_map, Option.map_some, Array.size_replicate] at hh
  · have hword : p / 4 < stride * max count 1 := by omega
    change Device.byte? _ b.device.memory.size p = some (l.image _ p)
    rw [himage, Device.byte?, Device.word?, hmem, Option.bind_some, Array.getElem?_replicate,
      if_pos hword, Option.bind_some]
    have hlow := Nat.mod_lt p (by decide : 0 < 4)
    generalize p % 4 = r at hlow
    interval_cases r <;> rfl

theorem createSub_ok_iff {base h : BufferId} {bytes index : Nat} {access : Access} :
    Backend.createSub base bytes access index b = .ok h c ↔
      ∃ whole slot, b.buffers[base.index]? = some whole ∧ whole.slot = some slot ∧ bytes ≤ slot ∧
        slot * index + bytes ≤ whole.bytes ∧ h = ⟨b.buffers.size⟩ ∧ c = { b with
          buffers := b.buffers.push
            (Backend.slotBuffer whole.allocation slot bytes access index) } := by
  constructor
  · intro hc
    rw [Backend.createSub, Call.get_bind_ok_iff, Call.ofExcept_bind_ok_iff] at hc
    obtain ⟨whole, hbase, hc⟩ := hc
    cases hslot : whole.slot with
    | none =>
      simp only [hslot] at hc
      exact (Call.throw_ok_iff.mp hc).elim
    | some slot =>
      simp only [hslot] at hc
      rw [Call.throw_ite_ok_iff] at hc
      simp only [Call.bind_ok_iff, Call.set_ok_iff, Call.pure_ok_iff] at hc
      obtain ⟨hfits, _, _, rfl, rfl, rfl⟩ := hc
      exact ⟨whole, slot, Backend.buffer_ok_iff.mp hbase, hslot, by omega, by omega, rfl, rfl⟩
  · rintro ⟨whole, slot, hbase, hslot, hbytes, hroom, rfl, rfl⟩
    exact Backend.createSub_ok hbase hslot hbytes hroom

theorem Reflects.createSub (hl : l.Reflects b) {base h : BufferId} {bytes index : Nat}
    {access : Access} (hc : Backend.createSub base bytes access index b = .ok h c) :
    (l.issue h ⟨base, some index⟩).Reflects c := by
  obtain ⟨whole, slot, hbase, hslot, hbytes, hroom, rfl, rfl⟩ := createSub_ok_iff.mp hc
  obtain ⟨o, whole', slot', hseat, ho⟩ := hl.seats base whole hbase
  obtain rfl := ho (by simp [hslot])
  obtain rfl : whole' = whole := Option.some.inj (hseat.base.symm.trans hbase)
  obtain rfl : slot' = slot := Option.some.inj (hseat.slots.symm.trans hslot)
  have hne : base ≠ ⟨b.buffers.size⟩ := by
    rintro rfl
    simp at hbase
  have hg : b.Grows { b with
      buffers := b.buffers.push (Backend.slotBuffer whole'.allocation slot' bytes access index) } :=
    ⟨#[Backend.slotBuffer whole'.allocation slot' bytes access index], #[], by simp, by simp⟩
  have hgrown : (l.issue ⟨b.buffers.size⟩ ⟨base, some index⟩).Seat _ base whole' _ whole' slot' :=
    hseat.grows hg (Function.update_of_ne hne _ _) rfl
  refine hl.issue hg rfl (?_ : Ledger.Seat _ _ _ _ _ whole' slot') (by rintro ⟨⟩)
  exact ⟨Function.update_self .., hgrown.base, hslot, hseat.aligned, rfl, rfl, hroom,
    fun _ _ => hbytes, hgrown.covers, hgrown.image⟩

/-! ### Transfers -/

section

variable {h : BufferId} {buffer whole : Buffer} {o : Origin} {slot offset length : Nat} {w : Window}

theorem Seat.window_ok_iff (hs : l.Seat b h buffer o whole slot) (hv : b.validation = true)
    (hb : b.buffers[h.index]? = some buffer) :
    b.window h offset length = .ok w ↔ offset + length ≤ buffer.bytes ∧ 4 ∣ offset ∧ 4 ∣ length ∧
      w = ⟨buffer.allocation, (buffer.offset + offset) / 4, length / 4⟩ := by
  have hdvd : 4 ∣ buffer.offset := hs.start ▸ hs.aligned.mul_right _
  have hinside := hs.inside
  obtain ⟨n, hn, hbytes⟩ := hs.covers
  rw [Device.sizes, Array.getElem?_map, Option.map_eq_some_iff] at hn
  obtain ⟨words, hwords, rfl⟩ := hn
  rw [Backend.window_ok_iff]
  constructor
  · rintro ⟨buffer', hb', hle, ho, hlen, rfl, -⟩
    obtain rfl := Option.some.inj (hb.symm.trans hb')
    exact ⟨hle hv, by omega, by omega, rfl⟩
  · rintro ⟨hle, ho, hlen, rfl⟩
    refine ⟨buffer, hb, fun _ => hle, by omega, by omega, rfl, words, ?_, ?_⟩
    · rw [← hwords, ← hs.allocation]
    · simp only
      omega

variable {t : Transfer} {bytes : Bytes}

theorem Seat.byte?_perform (hs : l.Seat b t.handle buffer o whole slot)
    (hv : b.validation = true) (hb : b.buffers[t.handle.index]? = some buffer)
    (ht : t.perform b = .ok bytes c) (a p : Nat) :
    c.device.byte? a p =
      if a = buffer.allocation ∧ buffer.offset + t.offset ≤ p ∧
          p < buffer.offset + t.offset + t.stored.length then
        t.stored[p - (buffer.offset + t.offset)]?
      else b.device.byte? a p := by
  obtain ⟨w, hw, -, rfl⟩ := Transfer.perform_ok_iff.mp ht
  have hholds : b.device.Holds w := by
    obtain ⟨-, -, -, -, -, -, hholds⟩ := Backend.window_ok_iff.mp hw
    exact hholds
  obtain ⟨-, ho, hlen, rfl⟩ := (hs.window_ok_iff hv hb).mp hw
  have hdvd : 4 ∣ buffer.offset + t.offset := dvd_add (hs.start ▸ hs.aligned.mul_right _) ho
  have heffect := Transfer.byte?_effect hholds (Nat.mul_div_cancel' hlen).symm a p
  simpa only [Nat.mul_div_cancel' hdvd] using heffect

theorem overwrite_of_not {image : Nat → UInt8} {start p : Nat}
    (hp : ¬(start ≤ p ∧ p < start + bytes.length)) : overwrite image start bytes p = image p :=
  dif_neg fun hin => hp (by omega)

theorem some_overwrite {image : Nat → UInt8} {start p : Nat}
    (hp : start ≤ p ∧ p < start + bytes.length) :
    some (overwrite image start bytes p) = bytes[p - start]? := by
  rw [overwrite, dif_pos (by omega), List.getElem?_eq_getElem]

theorem origin_enter (l : Ledger) (b : Backend Binary32) (t : Transfer) :
    (l.enter b t).origin = l.origin := by
  unfold enter
  split <;> rfl

theorem Seat.image_enter (hs : l.Seat b t.handle buffer o whole slot)
    (hb : b.buffers[t.handle.index]? = some buffer) (base : BufferId) :
    (l.enter b t).image base = if base = o.base then
      overwrite (l.image base) (buffer.offset + t.offset) t.stored else l.image base := by
  simp only [enter, hs.origin, hb, Function.update_apply]
  split
  · next he => rw [he]
  · rfl

theorem Reflects.transfer (hl : l.Reflects b) (ht : t.perform b = .ok bytes c) :
    (l.enter b t).Reflects c := by
  have hdone := ht
  obtain ⟨w, hw, -, rfl⟩ := Transfer.perform_ok_iff.mp ht
  obtain ⟨buffer, hb, -⟩ := Backend.window_ok_iff.mp hw
  obtain ⟨o, whole, slot, hs, -⟩ := hl.seats _ _ hb
  refine ⟨hl.validation, fun k hnone => ?_, fun k found hf => ?_, hl.own⟩
  · obtain ⟨horigin, himage⟩ := hl.fresh k hnone
    refine ⟨(congrFun (l.origin_enter b t) k).trans horigin, (hs.image_enter hb k).trans ?_⟩
    rw [if_neg ?_, himage]
    rintro rfl
    exact absurd hs.base (by simp [show b.buffers[o.base.index]? = none from hnone])
  · obtain ⟨o', whole', slot', hs', ho'⟩ := hl.seats k found hf
    have horigin := (congrFun (l.origin_enter b t) k).trans hs'.origin
    refine ⟨o', whole', slot', ⟨horigin, hs'.base, hs'.slots, hs'.aligned, hs'.allocation,
      hs'.start, hs'.inside, hs'.part, ?_, fun p hp => ?_⟩, ho'⟩
    · obtain ⟨n, hn, hbytes⟩ := hs'.covers
      exact ⟨n, (congrArg (·[whole'.allocation]?) (t.sizes_effect b.device w)).trans hn, hbytes⟩
    · rw [hs.byte?_perform hl.validation hb hdone, hs.image_enter hb]
      have hold := hs'.image p hp
      by_cases he : o'.base = o.base
      · obtain rfl : whole' = whole := Option.some.inj (hs'.base.symm.trans (he ▸ hs.base))
        rw [if_pos he]
        by_cases hin : buffer.offset + t.offset ≤ p ∧ p < buffer.offset + t.offset + t.stored.length
        · rw [if_pos ⟨hs.allocation.symm, hin⟩, some_overwrite hin]
        · rw [if_neg fun hh => hin hh.2, overwrite_of_not hin, hold]
      · have ha : whole'.allocation ≠ buffer.allocation := fun ha =>
          he (hl.own _ _ _ _ hs'.base hs.base (by simp [hs'.slots]) (by simp [hs.slots])
            (ha.trans hs.allocation))
        rw [if_neg fun hh => ha hh.1, if_neg he, hold]

theorem Seat.read_ok_iff (hs : l.Seat b h buffer o whole slot) (hv : b.validation = true)
    (hb : b.buffers[h.index]? = some buffer) :
    (Transfer.read h offset length).perform b = .ok bytes c ↔
      (offset + length ≤ buffer.bytes ∧ 4 ∣ offset ∧ 4 ∣ length) ∧ c = b ∧
        bytes = (List.range length).map fun p => l.image o.base (buffer.offset + offset + p) := by
  have hdvd : 4 ∣ buffer.offset := hs.start ▸ hs.aligned.mul_right _
  have hinside := hs.inside
  have hanswer : ∀ w, b.window h offset length = .ok w →
      bytesOfList (b.device.words w).toList =
        (List.range length).map fun p => l.image o.base (buffer.offset + offset + p) := by
    intro w hw
    have hholds : b.device.Holds w := by
      obtain ⟨-, -, -, -, -, -, hholds⟩ := Backend.window_ok_iff.mp hw
      exact hholds
    have hsize := Device.size_words hholds
    obtain ⟨hle, ho, hlen, rfl⟩ := (hs.window_ok_iff hv hb).mp hw
    simp only at hsize
    refine List.ext_getElem? fun p => ?_
    by_cases hp : p < length
    · rw [Device.getElem?_bytes_words _ _ _ (by simp only; omega), List.getElem?_map,
        List.getElem?_range hp, Option.map_some, ← hs.image _ (by omega), hs.allocation]
      simp only
      rw [Nat.mul_div_cancel' (dvd_add hdvd ho)]
    · rw [List.getElem?_eq_none, List.getElem?_eq_none]
      · simpa using hp
      · rw [length_bytesOfList, Array.length_toList, hsize]
        omega
  rw [Transfer.perform_ok_iff]
  constructor
  · rintro ⟨w, hw, rfl, rfl⟩
    obtain ⟨hle, ho, hlen, -⟩ := (hs.window_ok_iff hv hb).mp hw
    exact ⟨⟨hle, ho, hlen⟩, rfl, hanswer w hw⟩
  · rintro ⟨⟨hle, ho, hlen⟩, rfl, rfl⟩
    have hw := (hs.window_ok_iff hv hb).mpr ⟨hle, ho, hlen, rfl⟩
    exact ⟨_, hw, (hanswer _ hw).symm, rfl⟩

end

/-! ### Runs -/

theorem atomic_create (bytes : Nat) (access : Access) (count : Nat) :
    Call.Atomic (Backend.create bytes access count : Backend.Call Binary32 BufferId) := by
  refine Call.Atomic.bind (fun _ => Call.keeps_get) fun _ => ?_
  refine Call.Atomic.bind (fun _ => Call.keeps_ofExcept _) fun _ b c e h => ?_
  simp only [Call.bind_error_iff, Call.set_error_iff, Call.pure_error_iff, false_or, and_false,
    exists_false] at h

theorem atomic_createSub (base : BufferId) (bytes : Nat) (access : Access) (index : Nat) :
    Call.Atomic (Backend.createSub base bytes access index : Backend.Call Binary32 BufferId) := by
  refine Call.Atomic.bind (fun _ => Call.keeps_get) fun _ => ?_
  refine Call.Atomic.bind (fun _ => Call.keeps_ofExcept _) fun whole b c e h => ?_
  cases hslot : whole.slot with
  | none =>
    simp only [hslot] at h
    exact (Call.throw_error_iff.mp h).2.symm
  | some slot =>
    simp only [hslot] at h
    obtain ⟨-, -, rfl⟩ | ⟨-, h⟩ := Call.throw_ite_error_iff.mp h
    · rfl
    · simp only [Call.bind_error_iff, Call.set_error_iff, Call.pure_error_iff, false_or, and_false,
        exists_false] at h

/-- Each call that is performed is reflected by the ledger. -/
theorem Reflects.record {s : Backend Binary32 × Ledger} (hs : s.2.Reflects s.1)
    (call : StorageCall) : (Ledger.record s call).2.Reflects (Ledger.record s call).1 := by
  cases call with
  | create bytes access count =>
    simp only [Ledger.record]
    split
    · next hc => exact hs.create hc
    · next hc => rwa [atomic_create _ _ _ _ _ _ hc]
  | createSub base bytes access index =>
    simp only [Ledger.record]
    split
    · next hc => exact hs.createSub hc
    · next hc => rwa [atomic_createSub _ _ _ _ _ _ _ hc]
  | transfer t =>
    simp only [Ledger.record]
    split
    · next hc => exact hs.transfer hc
    · next hc => rwa [t.atomic_perform _ _ _ hc]

theorem reflects_journal (d : Device Binary32) (registry : Registry) (calls : List StorageCall) :
    (journal { device := d, registry } calls).2.Reflects
      (journal { device := d, registry } calls).1 := by
  unfold journal
  generalize hs : (({ device := d, registry }, {}) : Backend Binary32 × Ledger) = s
  have hstart : s.2.Reflects s.1 := hs ▸ reflects_start d registry
  clear hs
  induction calls generalizing s with
  | nil => exact hstart
  | cons call calls ih => exact ih _ (hstart.record call)

def Admits (l : Ledger) (b : Backend Binary32) (t : Transfer) : Prop :=
  (l.origin t.handle).isSome ∧ ∃ buffer, b.buffers[t.handle.index]? = some buffer ∧
    t.offset + t.length ≤ buffer.bytes ∧ 4 ∣ t.offset ∧ 4 ∣ t.length

/-- What a ledger says of a backend. -/
structure Describes (l : Ledger) (b : Backend Binary32) : Prop where
  /-- A transfer succeeds exactly where the ledger admits it. -/
  admits : ∀ t : Transfer, (∃ bytes c, t.perform b = .ok bytes c) ↔ l.Admits b t
  /-- A read answers the bytes last put at their places, and changes nothing. -/
  answers : ∀ h offset length bytes c, (Transfer.read h offset length).perform b = .ok bytes c →
    c = b ∧ ∃ o buffer, l.origin h = some o ∧ b.buffers[h.index]? = some buffer ∧
      bytes = (List.range length).map fun p => l.image o.base (buffer.offset + offset + p)
  /-- A write or a zeroing replaces the bytes of its range, and nothing else. -/
  changes : ∀ (t : Transfer) bytes c, t.perform b = .ok bytes c →
    ∃ buffer, b.buffers[t.handle.index]? = some buffer ∧
      c = { b with device := { b.device with memory := c.device.memory } } ∧
      c.device.sizes = b.device.sizes ∧ ∀ a p, c.device.byte? a p =
        if a = buffer.allocation ∧ buffer.offset + t.offset ≤ p ∧
            p < buffer.offset + t.offset + t.stored.length then
          t.stored[p - (buffer.offset + t.offset)]?
        else b.device.byte? a p
  /-- Reads through a handle are the same before and after a transfer of separate origin. -/
  separate : ∀ (t : Transfer) k o o', l.origin t.handle = some o → l.origin k = some o' →
    o.Separate o' → ∀ bytes c, t.perform b = .ok bytes c → ∀ offset length found,
      (Transfer.read k offset length).perform c = .ok found c ↔
        (Transfer.read k offset length).perform b = .ok found b
  /-- A call that fails changes nothing. -/
  atomic : (∀ bytes access count e c, Backend.create bytes access count b = .error e c → c = b) ∧
    (∀ base bytes access index e c,
      Backend.createSub base bytes access index b = .error e c → c = b) ∧
    ∀ (t : Transfer) e c, t.perform b = .error e c → c = b

theorem Reflects.issued (hl : l.Reflects b) {h : BufferId} {o : Origin}
    (ho : l.origin h = some o) : ∃ buffer whole slot, b.buffers[h.index]? = some buffer ∧
      l.Seat b h buffer o whole slot := by
  cases hb : b.buffers[h.index]? with
  | none =>
    rw [(hl.fresh h hb).1] at ho
    cases ho
  | some buffer =>
    obtain ⟨o', whole, slot, hs, -⟩ := hl.seats h buffer hb
    obtain rfl : o' = o := Option.some.inj (hs.origin.symm.trans ho)
    exact ⟨buffer, whole, slot, rfl, hs⟩

theorem Seat.image_enter_separate {t : Transfer} {k : BufferId} {o o' : Origin}
    {buffer buffer' whole whole' : Buffer} {slot slot' p : Nat}
    (hs : l.Seat b t.handle buffer o whole slot) (hs' : l.Seat b k buffer' o' whole' slot')
    (hb : b.buffers[t.handle.index]? = some buffer)
    (hsep : o.Separate o') (ht : t.offset + t.stored.length ≤ buffer.bytes)
    (hp : p < buffer'.bytes) :
    (l.enter b t).image o'.base (buffer'.offset + p) = l.image o'.base (buffer'.offset + p) := by
  rw [hs.image_enter hb]
  split
  · next he =>
    obtain hne | ⟨i, j, hi, hj, hij⟩ := hsep
    · exact absurd he.symm hne
    · refine overwrite_of_not ?_
      obtain rfl : whole' = whole := Option.some.inj (hs'.base.symm.trans (he ▸ hs.base))
      obtain rfl : slot' = slot := Option.some.inj (hs'.slots.symm.trans hs.slots)
      have hpart := hs.part i hi
      have hpart' := hs'.part j hj
      have hstart := hs.start
      have hstart' := hs'.start
      rw [hi, Option.getD_some] at hstart
      rw [hj, Option.getD_some] at hstart'
      obtain hlt | hlt := Nat.lt_or_gt_of_ne hij
      · have hmul : slot' * (i + 1) ≤ slot' * j := Nat.mul_le_mul_left _ hlt
        rw [Nat.mul_succ] at hmul
        omega
      · have hmul : slot' * (j + 1) ≤ slot' * i := Nat.mul_le_mul_left _ hlt
        rw [Nat.mul_succ] at hmul
        omega
  · rfl

theorem Reflects.describes (hl : l.Reflects b) : l.Describes b := by
  refine ⟨fun t => ?_, fun h offset length bytes c hread => ?_, fun t bytes c ht => ?_,
    fun t k o o' ho ho' hsep bytes c ht offset length found => ?_,
    fun bytes access count e c => atomic_create bytes access count b c e,
    fun base bytes access index e c => atomic_createSub base bytes access index b c e,
    fun t e c => t.atomic_perform b c e⟩
  · constructor
    · rintro ⟨bytes, c, ht⟩
      obtain ⟨w, hw, -⟩ := Transfer.perform_ok_iff.mp ht
      obtain ⟨buffer, hb, -⟩ := Backend.window_ok_iff.mp hw
      obtain ⟨o, whole, slot, hs, -⟩ := hl.seats _ _ hb
      obtain ⟨hle, hoffset, hlength, -⟩ := (hs.window_ok_iff hl.validation hb).mp hw
      exact ⟨by simp [hs.origin], buffer, hb, hle, hoffset, hlength⟩
    · rintro ⟨-, buffer, hb, hle, hoffset, hlength⟩
      obtain ⟨o, whole, slot, hs, -⟩ := hl.seats _ _ hb
      exact ⟨_, _, Transfer.perform_ok_iff.mpr
        ⟨_, (hs.window_ok_iff hl.validation hb).mpr ⟨hle, hoffset, hlength, rfl⟩, rfl, rfl⟩⟩
  · obtain ⟨w, hw, -⟩ := Transfer.perform_ok_iff.mp hread
    obtain ⟨buffer, hb, -⟩ := Backend.window_ok_iff.mp hw
    obtain ⟨o, whole, slot, hs, -⟩ := hl.seats _ _ hb
    obtain ⟨-, rfl, hbytes⟩ := (hs.read_ok_iff hl.validation hb).mp hread
    exact ⟨rfl, o, buffer, hs.origin, hb, hbytes⟩
  · obtain ⟨w, hw, -, hc⟩ := Transfer.perform_ok_iff.mp ht
    obtain ⟨buffer, hb, -⟩ := Backend.window_ok_iff.mp hw
    obtain ⟨o, whole, slot, hs, -⟩ := hl.seats _ _ hb
    refine ⟨buffer, hb, ?_, ?_, hs.byte?_perform hl.validation hb ht⟩
    · subst hc
      cases t <;> rfl
    · rw [hc]
      exact t.sizes_effect b.device w
  · obtain ⟨w, hw, -, hc⟩ := Transfer.perform_ok_iff.mp ht
    obtain ⟨buffer, whole, slot, hb, hs⟩ := hl.issued ho
    obtain ⟨buffer', whole', slot', hb', hs'⟩ := hl.issued ho'
    have hl' := hl.transfer ht
    obtain ⟨buffer'', whole'', slot'', hb'', hs''⟩ :=
      hl'.issued ((congrFun (l.origin_enter b t) k).trans ho')
    obtain rfl : buffer'' = buffer' := by
      rw [hc] at hb''
      exact Option.some.inj (hb''.symm.trans hb')
    have hle : t.offset + t.stored.length ≤ buffer.bytes := by
      have hh := ((hs.window_ok_iff hl.validation hb).mp hw).1
      have hstored := t.length_stored
      omega
    rw [hs''.read_ok_iff hl'.validation hb'', hs'.read_ok_iff hl.validation hb']
    refine and_congr_right fun hin => ?_
    simp only [true_and]
    have himage : ∀ p < length, (l.enter b t).image o'.base (buffer''.offset + offset + p) =
        l.image o'.base (buffer''.offset + offset + p) := by
      intro p hp
      rw [Nat.add_assoc]
      exact hs.image_enter_separate hs' hb hsep hle (by omega)
    rw [List.map_congr_left fun p hp => himage p (List.mem_range.mp hp)]

/-- Whatever storage calls a backend has seen, the ledger of those that succeeded describes it. -/
theorem journal_describes (d : Device Binary32) (registry : Registry)
    (calls : List StorageCall) :
    (journal { device := d, registry } calls).2.Describes
      (journal { device := d, registry } calls).1 :=
  (reflects_journal d registry calls).describes

end Ledger

end Backprop
