import Mathlib
import Backprop.Proofs.Backend.Run
import Backprop.Proofs.Network.Compiled
import Backprop.Proofs.Operator.Emission

/-! The places of a compiled network: one for each slot of each side of a tensor, and no two
share a word. The requests of an operator as requests on places. -/

namespace Backprop

variable {α : Type}

/-- A slot of one side of a tensor. -/
structure Place where
  tensor : Nat
  side : Side
  slot : Nat
deriving DecidableEq

def Tensor.chosen (t : Tensor) : SlotChoice → Nat
  | .current => t.currentSlot
  | .shifted steps => t.shiftedSlot steps
  | .timestep i => i

/-- Backends that differ in the values they hold at most. -/
structure Backend.SameLayout (b c : Backend α) : Prop where
  same : b.SameButDevice c
  sizes : c.device.sizes = b.device.sizes

namespace Backend.SameLayout

variable {b c d : Backend α}

theorem refl (b : Backend α) : b.SameLayout b := ⟨.refl b, rfl⟩

theorem trans (h : b.SameLayout c) (h' : c.SameLayout d) : b.SameLayout d :=
  ⟨h.same.trans h'.same, h'.sizes.trans h.sizes⟩

theorem buffers (h : b.SameLayout c) : c.buffers = b.buffers := by rw [h.same]

theorem resolves (h : b.SameLayout c) {k : BufferId} (hr : b.Resolves k) : c.Resolves k :=
  hr.congr h.buffers h.sizes

theorem apart (h : b.SameLayout c) {k l : BufferId} (ha : b.Apart k l) : c.Apart k l :=
  ha.congr h.buffers

theorem put (h : b.SameLayout c) (k : BufferId) (data : Array α) : b.SameLayout (c.put k data) :=
  h.trans ⟨put_same c k data, sizes_put c k data⟩

end Backend.SameLayout

namespace Network

def handle? (m : Network α) (p : Place) : Option BufferId :=
  m.tensors[p.tensor]?.bind fun t => (t.storage p.side).slots[p.slot]?

def handle (m : Network α) (p : Place) : BufferId := (m.handle? p).getD default

def Has (m : Network α) (p : Place) : Prop :=
  ∃ t, m.tensors[p.tensor]? = some t ∧ t.Lives p.side ∧ p.slot < t.slotCount

section

variable [Zero α] {m : Network α} {auxiliary : Nat} {allocation : Nat → Side → Nat} {p q : Place}

theorem Arranged.side (h : Arranged m auxiliary allocation) {i : Nat} {t : Tensor} {side : Side}
    (ht : m.tensors[i]? = some t) (hl : t.Lives side) :
    (t.storage side).base.isSome = true ∧ ∃ stride, t.shape.elements ≤ stride ∧ ∀ j < t.slotCount,
      (t.storage side).slots[j]? = some (m.handle ⟨i, side, j⟩) ∧
        m.backend.Resolves (m.handle ⟨i, side, j⟩) ∧
        m.backend.window? (m.handle ⟨i, side, j⟩) =
          some ⟨allocation i side, stride * j, t.shape.elements⟩ := by
  obtain ⟨floor, hlay⟩ := h.layout
  have hocc := (hlay.stored i t (Array.getElem?_eq_some_iff.mp ht).1 ht).occupies side hl
  obtain ⟨base, whole, hbase, -⟩ := hocc.base
  obtain ⟨stride, hstride, hslots⟩ := hocc.slots
  refine ⟨by rw [hbase, Option.isSome_some], stride, hstride, fun j hj => ?_⟩
  obtain ⟨k, hk⟩ : ∃ k, (t.storage side).slots[j]? = some k :=
    ⟨_, Array.getElem?_eq_getElem (by rw [hocc.size]; exact hj)⟩
  have hh : m.handle ⟨i, side, j⟩ = k := by
    rw [handle, handle?, ht, Option.bind_some, hk, Option.getD_some]
  rw [hh]
  exact ⟨hk, hslots j k hk⟩

theorem Arranged.has_of_handle? (h : Arranged m auxiliary allocation) {k : BufferId}
    (hk : m.handle? p = some k) : m.Has p ∧ m.handle p = k := by
  refine ⟨?_, by rw [handle, hk, Option.getD_some]⟩
  rw [Network.handle?, Option.bind_eq_some_iff] at hk
  obtain ⟨t, ht, hk⟩ := hk
  obtain ⟨floor, hlay⟩ := h.layout
  have hst := hlay.stored _ t (Array.getElem?_eq_some_iff.mp ht).1 ht
  have hl : t.Lives p.side := by
    intro hside
    by_contra hno
    rw [hside, Tensor.storage, hst.dead (by simpa using hno)] at hk
    cases hk
  exact ⟨t, ht, hl, (hst.occupies _ hl).size ▸ (Array.getElem?_eq_some_iff.mp hk).1⟩

theorem Arranged.resolves (h : Arranged m auxiliary allocation) (hp : m.Has p) :
    m.backend.Resolves (m.handle p) := by
  obtain ⟨t, ht, hl, hlt⟩ := hp
  obtain ⟨-, stride, -, hslots⟩ := h.side ht hl
  exact (hslots _ hlt).2.1

theorem Arranged.size_contents (h : Arranged m auxiliary allocation) {c : Backend α}
    (hc : m.backend.SameLayout c) {t : Tensor} (ht : m.tensors[p.tensor]? = some t)
    (hl : t.Lives p.side) (hlt : p.slot < t.slotCount) :
    (c.contents (m.handle p)).size = t.shape.elements := by
  obtain ⟨-, stride, -, hslots⟩ := h.side ht hl
  obtain ⟨-, hr, hw⟩ := hslots _ hlt
  rw [Backend.size_contents_congr hr hc.buffers hc.sizes, Backend.contents, hw]
  obtain ⟨w, hw', hholds⟩ := hr.window?
  rw [hw] at hw'
  cases hw'
  exact Device.size_words hholds

/-- No two places share a word. -/
theorem Arranged.apart (h : Arranged m auxiliary allocation) (hp : m.Has p) (hq : m.Has q)
    (hne : p ≠ q) : m.backend.Apart (m.handle p) (m.handle q) := by
  obtain ⟨i, side, j⟩ := p
  obtain ⟨i', side', j'⟩ := q
  obtain ⟨t, ht, hl, hlt⟩ := hp
  obtain ⟨u, hu, hl', hlt'⟩ := hq
  obtain ⟨-, stride, hstride, hslots⟩ := h.side ht hl
  obtain ⟨-, stride', -, hslots'⟩ := h.side hu hl'
  intro w v hw hv
  by_cases hsame : i = i' ∧ side = side'
  · obtain ⟨rfl, rfl⟩ := hsame
    simp only at ht hu
    rw [ht] at hu
    cases hu
    rw [(hslots _ hlt).2.2] at hw
    rw [(hslots _ hlt').2.2] at hv
    cases hw
    cases hv
    right
    have hj : j ≠ j' := fun he => hne (by rw [he])
    obtain hj | hj := Nat.lt_or_gt_of_ne hj
    · left
      have hmul := Nat.mul_le_mul_left stride hj
      rw [Nat.mul_succ] at hmul
      simp only
      omega
    · right
      have hmul := Nat.mul_le_mul_left stride hj
      rw [Nat.mul_succ] at hmul
      simp only
      omega
  · left
    rw [(hslots _ hlt).2.2] at hw
    rw [(hslots' _ hlt').2.2] at hv
    cases hw
    cases hv
    intro heq
    obtain ⟨floor, hlay⟩ := h.layout
    exact hsame (hlay.apart i i' t u side side' (Array.getElem?_eq_some_iff.mp ht).1
      (Array.getElem?_eq_some_iff.mp hu).1 ht hu hl hl' heq)

theorem Arranged.handle_inj (h : Arranged m auxiliary allocation)
    (pos : ∀ (i : Nat) (t : Tensor), m.tensors[i]? = some t → 0 < t.shape.elements)
    (hp : m.Has p) (hq : m.Has q) (heq : m.handle p = m.handle q) : p = q := by
  by_contra hne
  obtain ⟨t, ht, hl, hlt⟩ := hp
  obtain ⟨-, stride, -, hslots⟩ := h.side ht hl
  have hw := (hslots _ hlt).2.2
  have happ := h.apart ⟨t, ht, hl, hlt⟩ hq hne _ _ hw (heq ▸ hw)
  have hpos := pos _ t ht
  unfold Window.Apart at happ
  simp only at happ
  omega

end

/-! ### Buffers at an unroll step -/

theorem chosen_lt {t : Tensor} (hs : 0 < t.sequence) (op : Operator α) (step : Nat) :
    (t.atStep step).chosen op.place < t.slotCount ∧
      (t.atStep step).chosen .current < t.slotCount := by
  have hpos := Tensor.slotCount_pos hs
  have hcurrent : (t.atStep step).chosen .current < t.slotCount :=
    Tensor.currentSlot_lt (t := t.atStep step) (Nat.mod_lt _ hs)
  have hshift : ∀ k, (t.atStep step).chosen (.shifted k) < t.slotCount := by
    intro k
    have hlt := Int.emod_lt_of_pos (((t.atStep step).currentSlot : Int) + k)
      (Int.natCast_pos.mpr hpos)
    have hge := Int.emod_nonneg (((t.atStep step).currentSlot : Int) + k)
      (Int.natCast_pos.mpr hpos).ne'
    change (((t.atStep step).currentSlot + k) % (t.slotCount : Int)).toNat < t.slotCount
    omega
  refine ⟨?_, hcurrent⟩
  cases op with
  | add k => exact hshift k
  | copy k => exact hshift k
  | copyInit => exact hpos
  | _ => exact hcurrent

section

variable [Zero α] {m : Network α} {auxiliary : Nat} {allocation : Nat → Side → Nat}

theorem Arranged.forwardBuffer (h : Arranged m auxiliary allocation) {i : Nat} {t : Tensor}
    (ht : m.tensors[i]? = some t) {choice : SlotChoice} {step : Nat}
    (hlt : (t.atStep step).chosen choice < t.slotCount)
    (hk : ∀ j, choice = .timestep j → t.kind ≠ .parameter) :
    (t.atStep step).forwardBuffer choice =
      .ok (m.handle ⟨i, .forward, (t.atStep step).chosen choice⟩) := by
  obtain ⟨hbase, stride, -, hslots⟩ := h.side ht t.lives_forward
  have hslot : (t.atStep step).slot .forward ((t.atStep step).chosen choice) =
      .ok (m.handle ⟨i, .forward, (t.atStep step).chosen choice⟩) :=
    Tensor.slot_ok_iff.mpr ⟨hbase, (hslots _ hlt).1⟩
  cases choice with
  | current => exact hslot
  | shifted k => exact hslot
  | timestep j =>
    have hne : (t.atStep step).kind ≠ .parameter := hk j rfl
    rw [Tensor.forwardBuffer]
    simp only [hne, if_false]
    exact hslot

theorem Arranged.backwardBuffer (h : Arranged m auxiliary allocation) {i : Nat} {t : Tensor}
    (ht : m.tensors[i]? = some t) {choice : SlotChoice} {step : Nat}
    (hlt : (t.atStep step).chosen choice < t.slotCount) (hk : t.kind ≠ .scratch) :
    (t.atStep step).backwardBuffer choice =
      .ok (m.handle ⟨i, .backward, (t.atStep step).chosen choice⟩) := by
  have hback : t.kind.hasBackward = true := by
    cases hkind : t.kind <;> simp_all [TensorKind.hasBackward]
  obtain ⟨hbase, stride, -, hslots⟩ := h.side ht (show t.Lives .backward from fun _ => hback)
  have hslot : (t.atStep step).slot .backward ((t.atStep step).chosen choice) =
      .ok (m.handle ⟨i, .backward, (t.atStep step).chosen choice⟩) :=
    Tensor.slot_ok_iff.mpr ⟨hbase, (hslots _ hlt).1⟩
  have hback' : (t.atStep step).kind.hasBackward = true := hback
  unfold Tensor.backwardBuffer
  rw [if_pos hback']
  cases choice <;> exact hslot

end

/-- The slot of a tensor that a choice means at an unroll step. -/
def slotOf (m : Network α) (i : Nat) (choice : SlotChoice) (step : Nat) : Nat :=
  match m.tensors[i]? with
  | some t => (t.atStep step).chosen choice
  | none => 0

def shapeOf (m : Network α) (x : TensorId) : Shape :=
  match m.tensors[x.index]? with
  | some t => t.shape
  | none => default

def current (m : Network α) (side : Side) (x : TensorId) (step : Nat) : Place :=
  ⟨x.index, side, m.slotOf x.index .current step⟩

def target (m : Network α) (side : Side) (node : Node α) (step : Nat) : Place :=
  ⟨node.output.index, side, m.slotOf node.output.index node.op.place step⟩

def scratchPlace (node : Node α) : Place := ⟨(node.scratch.head?.getD default).index, .forward, 0⟩

end Network

def Node.first (node : Node α) : TensorId := node.inputs.head?.getD default

def Node.last (node : Node α) : TensorId := (node.inputs[1]?.or node.inputs[0]?).getD default

section

variable {node : Node α}

theorem Node.first_mem (arity : node.inputs.length = node.op.arity) : node.first ∈ node.inputs := by
  obtain ⟨x, xs, hx⟩ : ∃ x xs, node.inputs = x :: xs := by
    cases hin : node.inputs with
    | nil => cases hop : node.op <;> simp [hin, hop, Operator.arity] at arity
    | cons x xs => exact ⟨x, xs, rfl⟩
  rw [Node.first, hx]
  exact List.mem_cons_self

theorem Node.last_mem (arity : node.inputs.length = node.op.arity) : node.last ∈ node.inputs := by
  have hfirst := Node.first_mem arity
  rw [Node.first, List.head?_eq_getElem?] at hfirst
  rw [Node.last]
  cases hx : node.inputs[1]? with
  | none => exact hfirst
  | some x => exact List.mem_of_getElem? hx

end

namespace Network

def wires (m : Network α) (node : Node α) (step : Nat) : Wires where
  a := m.handle (m.current .forward node.first step)
  gradA := m.handle (m.current .backward node.first step)
  b := m.handle (m.current .forward node.last step)
  gradB := m.handle (m.current .backward node.last step)
  out := m.handle (m.target .forward node step)
  gradOut := m.handle (m.target .backward node step)
  tmp := m.handle (scratchPlace node)

def Active (m : Network α) (node : Node α) (step : Nat) : Prop :=
  ∃ t, m.tensors[node.output.index]? = some t ∧ node.timeOffset ≤ step ∧ step < t.sequence

def requestsOf (m : Network α) (node : Node α) (step : Nat) : Emission α :=
  node.op.requestsAt (m.shapeOf node.first) (m.shapeOf node.last) (m.shapeOf node.output) step
    (m.wires node step)

end Network

end Backprop
