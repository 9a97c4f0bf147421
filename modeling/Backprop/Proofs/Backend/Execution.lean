import Mathlib
import Backprop.Backend.Basic
import Backprop.Proofs.Device

/-! Running dispatches, seen through the buffers they bind: a kernel takes the contents of
its buffers, and what it answers becomes the contents of those it writes. -/

namespace Backprop

variable {α β : Type}

namespace Backend

def window? (b : Backend α) (h : BufferId) : Option Window :=
  b.buffers[h.index]?.map fun buffer => ⟨buffer.allocation, buffer.offset / 4, buffer.bytes / 4⟩

def contents (b : Backend α) (h : BufferId) : Array α :=
  match b.window? h with
  | some w => b.device.words w
  | none => #[]

/-- The buffer is a range of whole words inside its allocation. -/
def Resolves (b : Backend α) (h : BufferId) : Prop :=
  ∃ buffer, b.buffers[h.index]? = some buffer ∧ buffer.offset % 4 = 0 ∧ buffer.bytes % 4 = 0 ∧
    b.device.Holds ⟨buffer.allocation, buffer.offset / 4, buffer.bytes / 4⟩

/-- No word belongs to both buffers. -/
def Apart (b : Backend α) (h k : BufferId) : Prop :=
  ∀ w v, b.window? h = some w → b.window? k = some v → w.Apart v

/-- The backend after `data` has been stored in a buffer. -/
def put (b : Backend α) (h : BufferId) (data : Array α) : Backend α :=
  match b.window? h with
  | some w => { b with device := b.device.store w data }
  | none => b

def operand (b : Backend α) : KernelArg α → Operand α
  | .buffer h => .words (b.contents h)
  | .scalar s => .scalar s
  | .blob bytes => .blob bytes

def putBack (args : List (KernelArg α)) (b : Backend α) (change : Nat × Array α) : Backend α :=
  match args[change.1]? with
  | some (.buffer h) => b.put h change.2
  | _ => b

theorem Resolves.window? {b : Backend α} {h : BufferId} (hr : b.Resolves h) :
    ∃ w, b.window? h = some w ∧ b.device.Holds w := by
  obtain ⟨buffer, hb, -, -, hw⟩ := hr
  exact ⟨_, by simp [Backend.window?, hb], hw⟩

@[simp] theorem buffers_put (b : Backend α) (h : BufferId) (data : Array α) :
    (b.put h data).buffers = b.buffers := by
  unfold put
  split <;> rfl

@[simp] theorem sizes_put (b : Backend α) (h : BufferId) (data : Array α) :
    (b.put h data).device.sizes = b.device.sizes := by
  unfold put
  split <;> simp

/-- Two backends that differ in their device at most. -/
def SameButDevice (b c : Backend α) : Prop := c = { b with device := c.device }

theorem SameButDevice.refl (b : Backend α) : b.SameButDevice b := rfl

theorem SameButDevice.trans {b c e : Backend α} (h : b.SameButDevice c) (h' : c.SameButDevice e) :
    b.SameButDevice e := by
  unfold SameButDevice at *
  rw [h', h]

theorem put_same (b : Backend α) (h : BufferId) (data : Array α) :
    b.SameButDevice (b.put h data) := by
  unfold put
  split <;> rfl

theorem window?_congr {b c : Backend α} (hb : c.buffers = b.buffers) (h : BufferId) :
    c.window? h = b.window? h := by
  rw [window?, window?, hb]

theorem Apart.congr {b c : Backend α} {h k : BufferId} (ha : b.Apart h k)
    (hb : c.buffers = b.buffers) : c.Apart h k := by
  intro w v hw hv
  exact ha w v (by rwa [window?_congr hb] at hw) (by rwa [window?_congr hb] at hv)

theorem Apart.symm {b : Backend α} {h k : BufferId} (ha : b.Apart h k) : b.Apart k h :=
  fun w v hw hv => (ha v w hv hw).symm

theorem Resolves.congr {b c : Backend α} {h : BufferId} (hr : b.Resolves h)
    (hb : c.buffers = b.buffers) (hs : c.device.sizes = b.device.sizes) : c.Resolves h := by
  obtain ⟨buffer, hbuf, ho, hl, hw⟩ := hr
  exact ⟨buffer, by rw [hb, hbuf], ho, hl, hw.of_sizes_eq hs⟩

theorem contents_put_self {b : Backend α} {h : BufferId} {data : Array α} (hr : b.Resolves h)
    (hs : data.size = (b.contents h).size) : (b.put h data).contents h = data := by
  obtain ⟨w, hw, hholds⟩ := hr.window?
  have hsize : data.size = w.count := by
    rw [hs, contents, hw]
    exact Device.size_words hholds
  rw [contents, window?_congr (buffers_put b h data), hw, put, hw]
  exact Device.words_store_self hholds hsize

theorem contents_put_apart {b : Backend α} {h k : BufferId} {data : Array α} (hr : b.Resolves h)
    (ha : b.Apart h k) (hs : data.size = (b.contents h).size) :
    (b.put h data).contents k = b.contents k := by
  obtain ⟨w, hw, hholds⟩ := hr.window?
  have hsize : data.size ≤ w.count := by
    rw [hs, contents, hw]
    exact (Device.size_words hholds).le
  rw [contents, window?_congr (buffers_put b h data), contents]
  cases hv : b.window? k with
  | none => rfl
  | some v =>
    rw [put, hw]
    exact Device.words_store_apart (ha w v hw hv) hsize

theorem size_contents_congr {b c : Backend α} {h : BufferId} (hr : b.Resolves h)
    (hb : c.buffers = b.buffers) (hs : c.device.sizes = b.device.sizes) :
    (c.contents h).size = (b.contents h).size := by
  obtain ⟨w, hw, hholds⟩ := hr.window?
  rw [contents, window?_congr hb, contents, hw]
  exact (Device.size_words (hholds.of_sizes_eq hs)).trans (Device.size_words hholds).symm

theorem putBack_same (args : List (KernelArg α)) (b : Backend α) (c : Nat × Array α) :
    b.SameButDevice (putBack args b c) := by
  unfold putBack
  split
  · exact put_same b _ _
  · exact .refl b

theorem foldl_putBack_same (args : List (KernelArg α)) (b : Backend α) (ws : Writes α) :
    b.SameButDevice (ws.foldl (putBack args) b) := by
  induction ws generalizing b with
  | nil => exact .refl b
  | cons c ws ih => exact (putBack_same args b c).trans (ih _)

theorem sizes_foldl_putBack (args : List (KernelArg α)) (b : Backend α) (ws : Writes α) :
    (ws.foldl (putBack args) b).device.sizes = b.device.sizes := by
  induction ws generalizing b with
  | nil => rfl
  | cons c ws ih =>
    rw [List.foldl_cons, ih]
    unfold putBack
    split <;> simp

theorem buffer_ok_iff {b : Backend α} {h : BufferId} {buffer : Buffer} :
    b.buffer h = .ok buffer ↔ b.buffers[h.index]? = some buffer := by
  unfold Backend.buffer
  cases b.buffers[h.index]? <;> simp

def bound (b : Backend α) : KernelArg α → Operand α × Option Window
  | .buffer h => (.words (b.contents h), b.window? h)
  | .scalar s => (.scalar s, none)
  | .blob bytes => (.blob bytes, none)

theorem bound_fst (b : Backend α) (arg : KernelArg α) : (b.bound arg).1 = b.operand arg := by
  cases arg <;> rfl

theorem gather_bind_ok_iff {b : Backend α} {arg : KernelArg α} {x : Operand α × Option Window} :
    (∃ binding, b.bind arg = .ok binding ∧ b.device.gather binding = .ok x) ↔
      (∀ h, arg = .buffer h → b.Resolves h) ∧ x = b.bound arg := by
  cases arg with
  | buffer h =>
    simp only [bind, Except.bind_ok_iff, Except.pure_ok_iff, buffer_ok_iff, KernelArg.buffer.injEq,
      forall_eq']
    constructor
    · rintro ⟨binding, ⟨buffer, hb, rfl⟩, hx⟩
      simp only [Device.gather, Except.bind_ok_iff, Except.pure_ok_iff, Device.window_ok_iff] at hx
      obtain ⟨w, ⟨ho, hl, rfl, hw⟩, rfl⟩ := hx
      exact ⟨⟨buffer, hb, ho, hl, hw⟩, by simp [bound, contents, window?, hb]⟩
    · rintro ⟨⟨buffer, hb, ho, hl, hw⟩, rfl⟩
      refine ⟨_, ⟨buffer, hb, rfl⟩, ?_⟩
      simp only [Device.gather, Except.bind_ok_iff, Except.pure_ok_iff, Device.window_ok_iff]
      exact ⟨_, ⟨ho, hl, rfl, hw⟩, by simp [bound, contents, window?, hb]⟩
  | scalar s => simp [bind, Device.gather, bound, eq_comm]
  | blob bytes => simp [bind, Device.gather, bound, eq_comm]

theorem gather_args_ok_iff {b : Backend α} {args : List (KernelArg α)}
    {gathered : List (Operand α × Option Window)} :
    (∃ bindings, args.mapM b.bind = .ok bindings ∧ bindings.mapM b.device.gather = .ok gathered) ↔
      (∀ h, .buffer h ∈ args → b.Resolves h) ∧ gathered = args.map b.bound := by
  simp only [Except.mapM_ok_iff]
  induction args generalizing gathered with
  | nil => simp [List.forall₂_nil_left_iff]
  | cons arg args ih =>
    constructor
    · rintro ⟨bindings, hbind, hgather⟩
      obtain ⟨binding, rest, h₁, h₂, rfl⟩ := List.forall₂_cons_left_iff.mp hbind
      obtain ⟨x, xs, h₃, h₄, rfl⟩ := List.forall₂_cons_left_iff.mp hgather
      obtain ⟨hr, rfl⟩ := gather_bind_ok_iff.mp ⟨binding, h₁, h₃⟩
      obtain ⟨hrs, rfl⟩ := ih.mp ⟨rest, h₂, h₄⟩
      refine ⟨fun h hh => ?_, rfl⟩
      obtain he | he := List.mem_cons.mp hh
      · exact hr h he.symm
      · exact hrs h he
    · rintro ⟨hr, rfl⟩
      obtain ⟨binding, h₁, h₃⟩ := gather_bind_ok_iff.mpr
        ⟨fun h he => hr h (he ▸ List.mem_cons_self), rfl⟩
      obtain ⟨rest, h₂, h₄⟩ := ih.mpr ⟨fun h hh => hr h (List.mem_cons_of_mem _ hh), rfl⟩
      exact ⟨binding :: rest, .cons h₁ h₂, .cons h₃ h₄⟩

theorem putBack_windows (b : Backend α) (args : List (KernelArg α)) (dev : Device α)
    (c : Nat × Array α) :
    Device.putBack ((args.map b.bound).map (·.2)) dev c =
      (putBack args { b with device := dev } c).device := by
  simp only [Device.putBack, putBack, List.getElem?_map, Option.map_map]
  cases args[c.1]? with
  | none => rfl
  | some arg =>
    cases arg with
    | buffer h =>
      simp only [Option.map_some, Function.comp_apply, bound, put]
      rw [window?_congr (b := b) (c := { b with device := dev }) rfl]
      cases b.window? h <;> rfl
    | scalar s => rfl
    | blob bytes => rfl

theorem foldl_putBack_windows (b : Backend α) (args : List (KernelArg α)) (dev : Device α)
    (ws : Writes α) :
    ws.foldl (Device.putBack ((args.map b.bound).map (·.2))) dev =
      (ws.foldl (putBack args) { b with device := dev }).device := by
  induction ws generalizing dev with
  | nil => rfl
  | cons c ws ih =>
    rw [List.foldl_cons, ih, List.foldl_cons, putBack_windows]
    have hs := putBack_same args { b with device := dev } c
    rw [SameButDevice] at hs
    rw [← hs]

/-- A dispatch succeeds exactly where its kernel is compiled, its buffers resolve, and the
kernel takes the contents of its buffers. -/
theorem execute_ok_iff [Scalar α] {b : Backend α} {d : Dispatch α} {dev : Device α} :
    b.execute d = .ok dev ↔
      ∃ compiled ws, b.kernels[d.kernel.index]? = some compiled ∧
        (∀ h, .buffer h ∈ d.args → b.Resolves h) ∧
        compiled.kernel.run ⟨d.args.map b.operand, d.launch⟩ = .ok ws ∧
        dev = (ws.foldl (putBack d.args) b).device := by
  unfold execute
  cases hk : b.kernels[d.kernel.index]? with
  | none => simp [Except.throw_ok_iff]
  | some compiled =>
    simp only [Except.bind_ok_iff, Except.mapError_ok_iff, Device.launch, Except.pure_ok_iff]
    constructor
    · rintro ⟨bindings, hbind, gathered, hgather, ws, hrun, rfl⟩
      obtain ⟨hr, rfl⟩ := gather_args_ok_iff.mp ⟨bindings, hbind, hgather⟩
      refine ⟨compiled, ws, rfl, hr, ?_, foldl_putBack_windows b d.args b.device ws⟩
      simpa only [List.map_map, Function.comp_def, bound_fst] using hrun
    · rintro ⟨_, ws, ⟨⟩, hr, hrun, rfl⟩
      obtain ⟨bindings, hbind, hgather⟩ := gather_args_ok_iff.mpr ⟨hr, rfl⟩
      refine ⟨bindings, hbind, _, hgather, ws, ?_, foldl_putBack_windows b d.args b.device ws⟩
      simpa only [List.map_map, Function.comp_def, bound_fst] using hrun

end Backend

end Backprop
