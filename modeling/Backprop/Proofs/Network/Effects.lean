import Mathlib
import Backprop.Proofs.Network.Parts
import Backprop.Proofs.Network.ScratchSharing

/-! What each phase of a compiled network may change: which buffers a pass writes, and what
clearing zeroes. -/

namespace Backprop

variable {α : Type}

namespace Tensor

variable {t : Tensor}

theorem forwardBuffer_part {c : Nat} {choice : SlotChoice} {h : BufferId}
    (hh : Tensor.forwardBuffer { t with cursor := c } choice = .ok h) :
    (∃ j, t.part? (.slot .forward j) = some h) ∨ ∃ j, choice = .timestep j ∧
      t.kind = .parameter ∧ t.part? (.auxiliary j) = some h := by
  have hslot : ∀ j, t.slot .forward j = .ok h → ∃ j, t.part? (.slot .forward j) = some h :=
    fun j hj => ⟨j, (slot_ok_iff.mp hj).2⟩
  cases choice with
  | current => exact .inl (hslot _ hh)
  | shifted steps => exact .inl (hslot _ hh)
  | timestep j =>
    rw [forwardBuffer] at hh
    split at hh
    · next hk =>
      split at hh
      · next found =>
        cases hh
        exact .inr ⟨j, rfl, hk, found⟩
      · cases hh
    · exact .inl (hslot j hh)

theorem backwardBuffer_part {c : Nat} {choice : SlotChoice} {h : BufferId}
    (hh : Tensor.backwardBuffer { t with cursor := c } choice = .ok h) :
    ∃ j, t.part? (.slot .backward j) = some h := by
  have hslot : ∀ j, t.slot .backward j = .ok h → ∃ j, t.part? (.slot .backward j) = some h :=
    fun j hj => ⟨j, (slot_ok_iff.mp hj).2⟩
  unfold backwardBuffer at hh
  split at hh
  · cases choice <;> exact hslot _ hh
  · cases hh

/-- The sides that are zeroed between batches. -/
def clearedSides (t : Tensor) : List Side :=
  match t.kind with
  | .scratch => []
  | .recurrent => [.forward, .backward]
  | _ => [.backward]

theorem mem_clearedSides {side : Side} : side ∈ t.clearedSides ↔
    side = .backward ∧ t.kind ≠ .scratch ∨ side = .forward ∧ t.kind = .recurrent := by
  unfold clearedSides
  cases t.kind <;> simp [or_comm]

theorem clear_eq [Zero α] (t : Tensor) :
    (t.clear : Backend.Call α Unit) = t.clearedSides.forM fun side => (t.storage side).zero := by
  unfold clear clearedSides
  cases t.kind <;> simp [storage]

end Tensor

theorem Optimizer.requests_written {o : Optimizer α} {t : Tensor} {rs : List (Request α)}
    (hrs : o.requests t = .ok rs) {r : Request α} (hr : r ∈ rs) {h : BufferId}
    (hh : h ∈ r.written) :
    (∃ j, t.part? (.slot .forward j) = some h) ∨ ∃ j, t.part? (.auxiliary j) = some h := by
  have hpart : ∀ choice k, t.forwardBuffer choice = .ok k →
      (∃ j, t.part? (.slot .forward j) = some k) ∨ ∃ j, t.part? (.auxiliary j) = some k := by
    intro choice k hk
    obtain hk | ⟨j, -, -, hk⟩ := Tensor.forwardBuffer_part (c := t.cursor) hk
    · exact .inl hk
    · exact .inr ⟨j, hk⟩
  cases o with
  | gradientDescent alpha =>
    simp only [Optimizer.requests, Except.bind_ok_iff, Except.pure_ok_iff] at hrs
    obtain ⟨gradient, -, weight, hw, rfl⟩ := hrs
    obtain rfl := List.mem_singleton.mp hr
    obtain rfl : h = weight := List.mem_singleton.mp hh
    exact hpart _ _ hw
  | adam alpha beta₁ beta₂ epsilon =>
    simp only [Optimizer.requests, Except.bind_ok_iff, Except.pure_ok_iff] at hrs
    obtain ⟨gradient, -, first, hf, second, hs, weight, hw, rfl⟩ := hrs
    obtain rfl := List.mem_singleton.mp hr
    have hmem : h ∈ [first, second, weight] := hh
    simp only [List.mem_cons, List.not_mem_nil, or_false] at hmem
    obtain rfl | rfl | rfl := hmem
    · exact hpart _ _ hf
    · exact hpart _ _ hs
    · exact hpart _ _ hw

namespace Network

variable {m k : Network α}

def IsSlot (m : Network α) (i : Nat) (side : Side) (h : BufferId) : Prop :=
  ∃ t j, m.tensors[i]? = some t ∧ t.part? (.slot side j) = some h

def IsAuxiliary (m : Network α) (i j : Nat) (h : BufferId) : Prop :=
  ∃ t, m.tensors[i]? = some t ∧ t.kind = .parameter ∧ t.part? (.auxiliary j) = some h

/-- The buffers that a pass may change: outputs of operators, gradients of their operands, and what
an update moves. Of the first auxiliary buffer of a parameter that is seeded nothing is said. -/
def Reach (m : Network α) : Pass → BufferId → Prop
  | .forward, h => ∃ node ∈ m.nodes, m.IsSlot node.output.index .forward h ∨
      node.op.place = .timestep 0 ∧ m.IsAuxiliary node.output.index 0 h
  | .backward, h => (∃ node ∈ m.nodes, ∃ x ∈ node.inputs, m.IsSlot x.index .backward h) ∨
      ∃ i, (∃ t, m.tensors[i]? = some t ∧ t.kind = .scratch) ∧ m.IsSlot i .forward h
  | .update, h => ∃ i, (∃ t, m.tensors[i]? = some t ∧ t.kind = .parameter) ∧
      (m.IsSlot i .forward h ∨ ∃ j, m.IsAuxiliary i j h)

/-- The buffers of the storage that clearing zeroes: gradients of all but scratch, and the history
of recurrent states. -/
def Cleared (m : Network α) (h : BufferId) : Prop :=
  ∃ i t side, m.tensors[i]? = some t ∧
    (side = .backward ∧ t.kind ≠ .scratch ∨ side = .forward ∧ t.kind = .recurrent) ∧
    ((t.storage side).base = some h ∨ m.IsSlot i side h)

section

variable [Zero α] {auxiliary : Nat} {allocation : Nat → Side → Nat} {p : Place}

theorem Arranged.isSlot (ha : Arranged m auxiliary allocation) (hp : m.Has p) :
    m.IsSlot p.tensor p.side (m.handle p) := by
  obtain ⟨t, ht, hl, hlt⟩ := hp
  obtain ⟨-, stride, -, hslots⟩ := ha.side ht hl
  exact ⟨t, p.slot, ht, (hslots _ hlt).1⟩

theorem Arranged.slot_allocation (ha : Arranged m auxiliary allocation) {i : Nat} {side : Side}
    {h : BufferId} (hs : m.IsSlot i side h) {w : Window} (hw : m.backend.window? h = some w) :
    w.allocation = allocation i side := by
  obtain ⟨t, j, ht, hpart⟩ := hs
  have hhandle : m.handle? ⟨i, side, j⟩ = some h := by
    rw [Network.handle?, ht]
    exact hpart
  obtain ⟨⟨u, hu, hl, hlt⟩, rfl⟩ := ha.has_of_handle? hhandle
  obtain ⟨-, stride, -, hslots⟩ := ha.side hu hl
  rw [(hslots j hlt).2.2] at hw
  cases hw
  rfl

theorem Arranged.part_apart (ha : Arranged m auxiliary allocation) {i j : Nat} {t u : Tensor}
    {q : Part} {side : Side} {h : BufferId} {w : Window} (ht : m.tensors[i]? = some t)
    (hpart : t.part? q = some h) (hw : m.backend.window? h = some w) (hu : m.tensors[j]? = some u)
    (hl : u.Lives side) (hne : ∀ s, q = .slot side s → i ≠ j) :
    w.allocation ≠ allocation j side := by
  obtain ⟨floor, hlayout⟩ := ha.layout
  have hi := (Array.getElem?_eq_some_iff.mp ht).1
  have hj := (Array.getElem?_eq_some_iff.mp hu).1
  cases q with
  | auxiliary s =>
    obtain ⟨-, -, happ⟩ := hlayout.auxiliary i t h w hi ht (Array.mem_of_getElem? hpart) hw
    exact happ j u side hj hu hl
  | slot other s =>
    rw [ha.slot_allocation ⟨t, s, ht, hpart⟩ hw]
    have hhandle : m.handle? ⟨i, other, s⟩ = some h := by
      rw [Network.handle?, ht]
      exact hpart
    obtain ⟨⟨t', ht', hlive, -⟩, -⟩ := ha.has_of_handle? hhandle
    intro heq
    obtain ⟨rfl, rfl⟩ := hlayout.apart i j t' u other side hi hj ht' hu hlive hl heq
    exact hne s rfl rfl

end

theorem Divided.apart {alignment auxiliary : Nat} (hd : m.Divided alignment auxiliary)
    {i i' : Nat} {t u : Tensor} {p q : Part} {h l : BufferId} (ht : m.tensors[i]? = some t)
    (hh : t.part? p = some h) (hu : m.tensors[i']? = some u) (hl : u.part? q = some l)
    (hne : (i, p) ≠ (i', q)) : m.backend.Apart h l := by
  intro w v hw hv
  simp only [Backend.window?, Option.map_eq_some_iff] at hw hv
  obtain ⟨x, hx, rfl⟩ := hw
  obtain ⟨y, hy, rfl⟩ := hv
  have hx' : m.part? i p = some x := by simp only [part?, ht, hh, Option.bind_some, hx]
  have hy' : m.part? i' q = some y := by simp only [part?, hu, hl, Option.bind_some, hy]
  have hdisjoint := hd.disjoint i i' p q x y hx' hy' hne
  unfold Buffer.Disjoint at hdisjoint
  unfold Window.Apart
  simp only
  omega

theorem Divided.spans {alignment auxiliary : Nat} (hd : m.Divided alignment auxiliary) {i j : Nat}
    {t : Tensor} {side : Side} {h : BufferId} (ht : m.tensors[i]? = some t)
    (hh : t.part? (.slot side j) = some h) : ∃ base a, (t.storage side).base = some base ∧
      m.backend.Spans base a ∧ ∀ w, m.backend.window? h = some w → w.allocation = a := by
  obtain ⟨x, base, whole, words, hx, -, hbase, hwhole, ha, hzero, -, hwords, hfull⟩ :=
    hd.placed i t _ h ht hh
  refine ⟨base, x.allocation, hbase, ⟨whole, words, hwhole, ha, hzero, hwords, hfull⟩,
    fun w hw => ?_⟩
  simp only [part?, ht, hh, Option.bind_some] at hx
  simp only [Backend.window?, hx, Option.map_some, Option.some.injEq] at hw
  rw [← hw]

variable [Scalar α] {b : Backend α} {n : Network α} {batch : Nat} {pass : Pass}

/-! ### Passes -/

section

variable (hn : Outline b n) (h : Compiled n m batch)

include hn h

theorem Compiled.emits_written {step i : Nat} (hs : step < m.maxSequence) {r : Request α}
    (hr : r ∈ (m.atStep step).emits pass step i) {l : BufferId} (hl : l ∈ r.written) :
    m.Reach pass l := by
  obtain ⟨allocation, ha⟩ := h.arranged
  have sequence : ∀ (i : Nat) (t : Tensor), m.tensors[i]? = some t → 0 < t.sequence :=
    fun _ _ => h.expanded.sequence_pos hn
  have hnodes : (m.atStep step).nodes = m.nodes := rfl
  rw [Network.emits, hnodes] at hr
  cases hi : m.nodes[i]? with
  | none => simp [hi] at hr
  | some node =>
    obtain ⟨e, he⟩ := h.emits step hs i node hi
    simp only [hi, he] at hr
    have hj := h.expanded.joined hn hi
    have hmem : node ∈ m.nodes := Array.mem_of_getElem? hi
    obtain rfl | ⟨o, x, y, s, tile, out, ho, hout, rfl, hscratch⟩ :=
      ha.emission_wires sequence hj he
    · cases pass <;> cases hr
    unfold Operator.requestsAt at hr
    split at hr
    · cases pass <;> cases hr
    cases pass with
    | forward =>
      obtain rfl := List.mem_singleton.mp hr
      rw [(Operator.forwardRequest_footprint ..).1, List.mem_singleton] at hl
      subst hl
      obtain ⟨j, hpart⟩ | ⟨j, hplace, hk, hpart⟩ := Tensor.forwardBuffer_part hout
      · exact ⟨node, hmem, .inl ⟨o, j, ho, hpart⟩⟩
      · have hj : j = 0 := by
          cases hop : node.op <;> simp_all [Operator.place]
        subst hj
        exact ⟨node, hmem, .inr ⟨hplace, o, ho, hk, hpart⟩⟩
    | backward =>
      have hgradient : ∀ x ∈ node.inputs,
          m.IsSlot x.index .backward (m.handle (m.current .backward x step)) :=
        fun x hx => ha.isSlot (hj.has_current sequence hx .backward step)
      obtain rfl | rfl | ⟨hneeds, rfl⟩ := Operator.backwardRequests_written hr l hl
      · exact .inl ⟨node, hmem, _, Node.first_mem hj.arity, hgradient _ (Node.first_mem hj.arity)⟩
      · exact .inl ⟨node, hmem, _, Node.last_mem hj.arity, hgradient _ (Node.last_mem hj.arity)⟩
      · obtain ⟨x, xs, hx⟩ : ∃ x xs, node.scratch = x :: xs := by
          cases hs : node.scratch with
          | nil => exact absurd hs (hscratch hneeds)
          | cons x xs => exact ⟨x, xs, rfl⟩
        obtain ⟨t, ht, hk⟩ := hj.scratch x (hx ▸ List.mem_cons_self)
        refine .inr ⟨x.index, ⟨t, ht, hk⟩, ?_⟩
        have hplace : scratchPlace node = ⟨x.index, .forward, 0⟩ := by
          simp only [scratchPlace, hx, List.head?_cons, Option.getD_some]
        simp only [wires, hplace]
        exact ha.isSlot (p := ⟨x.index, .forward, 0⟩)
          ⟨t, ht, t.lives_forward, Tensor.slotCount_pos (sequence _ t ht)⟩
    | update => cases hr

omit [Scalar α] hn h in
theorem updates_written {r : Request α} (hr : r ∈ m.updates) {l : BufferId}
    (hl : l ∈ r.written) : m.Reach .update l := by
  unfold updates at hr
  cases ho : m.optimizer with
  | none => simp [ho] at hr
  | some o =>
    simp only [ho, List.mem_flatMap, List.mem_filter, beq_iff_eq, Array.mem_toList_iff] at hr
    obtain ⟨t, ⟨ht, hk⟩, hr⟩ := hr
    obtain ⟨i, hi⟩ := Array.getElem?_of_mem ht
    unfold updatesOf at hr
    cases hrs : o.requests t with
    | error e => simp [hrs] at hr
    | ok rs =>
      simp only [hrs] at hr
      refine ⟨i, ⟨t, hi, hk⟩, ?_⟩
      obtain ⟨j, hpart⟩ | ⟨j, hpart⟩ := Optimizer.requests_written hrs hr hl
      · exact .inl ⟨t, j, hi, hpart⟩
      · exact .inr ⟨j, t, hi, hk, hpart⟩

/-- The dispatches of a pass write what it may change, whenever it is played. -/
theorem Compiled.written (hk : m.Used k) {d : Dispatch α} (hd : d ∈ k.backend.dispatches.get pass)
    {l : BufferId} (hl : k.backend.Writes d l) : m.Reach pass l := by
  obtain ⟨p, hp⟩ := List.getElem?_of_mem (Array.mem_toList_iff.mpr hd)
  obtain ⟨d₀, hd₀, hcount⟩ := forall₂_getElem? (hk.counted pass).flip hp
  obtain ⟨r, hr, himp⟩ := forall₂_getElem? (h.lists pass).flip hd₀
  have hmem : l ∈ r.written :=
    himp.writes (hl.of_counted hk.later.kernels hcount)
  obtain hin | hin := List.mem_append.mp (List.mem_of_getElem? hr)
  · obtain ⟨step, hs, hin⟩ := List.mem_flatMap.mp hin
    obtain ⟨i, -, hin⟩ := List.mem_flatMap.mp hin
    exact h.emits_written hn (List.mem_range.mp hs) hin hmem
  · split at hin
    · next hpass =>
      subst hpass
      exact updates_written hin hmem
    · cases hin

end

/-- All that has changed is words of some buffers, and what dispatches count. -/
structure Confined (k k' : Network α) (H : BufferId → Prop) : Prop where
  used : k.Used k'
  alters : k.backend.Alters k'.backend H

/-- A pass changes what it may, also when it fails; only updates count. -/
theorem Compiled.run_confined (hn : Outline b n) (h : Compiled n m batch) (hk : m.Used k)
    (pass : Pass) : k.Confined (Call.after (run pass) k) (m.Reach pass) ∧
      ∀ other, (pass = .update → other ≠ .update) →
        (Call.after (run pass) k).backend.dispatches.get other =
          k.backend.dispatches.get other := by
  have hstage : k.stage = .compiled := by
    rw [hk.same]
    exact h.stage
  have hplayed : k.backend.Played pass (Call.after (Backend.run pass) k.backend) (m.Reach pass) :=
    Backend.run_played fun d hd l hl => h.written hn hk hd hl
  have hbackend : (Call.after (run pass) k).backend =
      Call.after (Backend.run pass) k.backend := by
    unfold Call.after
    rw [run_eq hstage]
    cases Backend.run pass k.backend <;> rfl
  refine ⟨⟨(Used.refl k).run hstage pass, hbackend ▸ hplayed.alters⟩, fun other hother => ?_⟩
  rw [hbackend]
  by_cases hne : other = pass
  · subst hne
    -- operators submit dispatches that count nothing
    have hupdate : other ≠ .update := fun he => hother he he
    refine Array.toList_inj.mp (List.forall₂_eq_eq_eq ▸ List.forall₂_iff_get.mpr
      ⟨hplayed.counted.length_eq.symm, fun i h₁ h₂ => ?_⟩)
    have hcount := (List.forall₂_iff_get.mp hplayed.counted).2 i h₂ h₁
    obtain ⟨d₀, hd₀, hcount₀⟩ :=
      forall₂_getElem? (hk.counted other).flip (List.getElem?_eq_getElem h₂)
    obtain ⟨r, hr, himp⟩ := forall₂_getElem? (h.lists other).flip hd₀
    rw [if_neg hupdate, List.append_nil] at hr
    have hplain : d₀.increment = none :=
      himp.increment.trans (h.scheduled_increment hn r (List.mem_of_getElem? hr))
    have hsame := Dispatch.Counted.eq_of_plain hcount₀ hplain
    exact Dispatch.Counted.eq_of_plain hcount ((congrArg (·.increment) hsame).trans hplain)
  · exact hplayed.others other hne

/-! ### Clearing -/

omit [Scalar α] in
theorem Divided.cleared_spans {alignment auxiliary : Nat} (hd : m.Divided alignment auxiliary)
    {i : Nat} {t : Tensor} {side : Side} (ht : m.tensors[i]? = some t) (hs : 0 < t.sequence)
    (hside : side ∈ t.clearedSides) : ∃ base a, (t.storage side).base = some base ∧
      m.backend.Spans base a ∧ ∀ j l, t.part? (.slot side j) = some l →
        ∀ w, m.backend.window? l = some w → w.allocation = a := by
  have hpos : 0 < (t.storage side).slots.size := by
    rw [hd.slots i t ht side, Tensor.slotsOn]
    cases hkind : t.kind <;> simp_all [Tensor.mem_clearedSides]
  have hfirst : t.part? (.slot side 0) = some (t.storage side).slots[0] :=
    Array.getElem?_eq_getElem hpos
  obtain ⟨base, a, hbase, hspans, -⟩ := hd.spans ht hfirst
  refine ⟨base, a, hbase, hspans, fun j l hl w hw => ?_⟩
  obtain ⟨base', a', hbase', hspans', hw'⟩ := hd.spans ht hl
  rw [hbase, Option.some.injEq] at hbase'
  subst hbase'
  rw [hw' w hw, hspans.unique hspans']

def Emptied (m : Network α) (t : Tensor) (c : Backend α) : Prop :=
  ∀ side ∈ t.clearedSides, ∀ base a, (t.storage side).base = some base → m.backend.Spans base a →
    c.Blank a

theorem Emptied.mono {t : Tensor} {c d : Backend α} (h : m.Emptied t c)
    (hw : c.Wiped d) : m.Emptied t d :=
  fun side hside base a hb hs => hw.blank a (h side hside base a hb hs)

theorem Divided.clear_tensor {alignment auxiliary : Nat} (hd : m.Divided alignment auxiliary)
    {t : Tensor} (ht : t ∈ m.tensors) (hs : 0 < t.sequence) {c : Backend α}
    (buffers : c.buffers = m.backend.buffers) (sizes : c.device.sizes = m.backend.device.sizes) :
    ∃ d, t.clear c = .ok ⟨⟩ d ∧ c.Clears d m.Cleared ∧ m.Emptied t d := by
  obtain ⟨i, hi⟩ := Array.getElem?_of_mem ht
  rw [Tensor.clear_eq]
  refine Call.forM_completes (R := (Backend.Clears · · m.Cleared)) (D := fun side d =>
      ∀ base a, (t.storage side).base = some base → m.backend.Spans base a → d.Blank a)
    (fun _ => .refl _ _) (fun _ _ _ => .trans)
    (fun side c d hcd hD base a hb hs => hcd.wiped.blank a (hD base a hb hs))
    fun side hside c₁ hc₁ => ?_
  obtain ⟨base, a, hb, hspans, -⟩ := hd.cleared_spans hi hs hside
  have hspans₁ : c₁.Spans base a := hspans.congr (hc₁.alters.buffers.trans buffers)
    (hc₁.alters.sizes.trans sizes)
  obtain ⟨c₂, hzero, hclears, hblank⟩ := Storage.zeroed hb hspans₁
  refine ⟨c₂, hzero, ⟨hclears.alters.mono ?_, hclears.wiped⟩, fun base' a' hb' hs' => ?_⟩
  · rintro l rfl
    exact ⟨i, t, side, hi, Tensor.mem_clearedSides.mp hside, .inl hb⟩
  · rw [hb, Option.some.injEq] at hb'
    subst hb'
    exact hspans.unique hs' ▸ hblank

theorem Divided.zero_of_emptied {alignment auxiliary : Nat} (hd : m.Divided alignment auxiliary)
    (sequence : ∀ (i : Nat) (t : Tensor), m.tensors[i]? = some t → 0 < t.sequence) {c : Backend α}
    (buffers : c.buffers = m.backend.buffers) (hD : ∀ t ∈ m.tensors, m.Emptied t c)
    {l : BufferId} (hl : m.Cleared l) : ∀ x ∈ c.contents l, x = 0 := by
  obtain ⟨i, t, side, ht, hside, hl⟩ := hl
  have hmem := Tensor.mem_clearedSides.mpr hside
  obtain ⟨base, a, hb, hspans, hslots⟩ := hd.cleared_spans ht (sequence i t ht) hmem
  have hblank : c.Blank a := hD t (Array.mem_of_getElem? ht) side hmem base a hb hspans
  have hallocation : ∀ w, m.backend.window? l = some w → w.allocation = a := by
    obtain hl | ⟨u, j, hu, hl⟩ := hl
    · rw [hb, Option.some.injEq] at hl
      subst hl
      exact fun w => hspans.allocation
    · rw [ht, Option.some.injEq] at hu
      subst hu
      exact hslots j l hl
  intro x hx
  unfold Backend.contents at hx
  cases hw : c.window? l with
  | none => simp [hw] at hx
  | some w =>
    simp only [hw] at hx
    rw [Backend.window?_congr buffers] at hw
    exact Backend.Blank.mem_words (hallocation w hw ▸ hblank) hx

/-- Clearing succeeds whatever memory holds; it zeroes all of its storage and changes nothing
else. -/
theorem Compiled.clear_confined (hn : Outline b n) (h : Compiled n m batch)
    {alignment auxiliary : Nat} (hd : m.Divided alignment auxiliary) (hk : m.Used k) :
    ∃ k', clearBuffers k = .ok ⟨⟩ k' ∧ k.Confined k' m.Cleared ∧
      k'.backend.dispatches = k.backend.dispatches ∧
      ∀ l, m.Cleared l → ∀ x ∈ k'.backend.contents l, x = 0 := by
  have hts : k.tensors = m.tensors := by rw [hk.same]
  have hstage : k.stage = .compiled := by
    rw [hk.same]
    exact h.stage
  have sequence : ∀ (i : Nat) (t : Tensor), m.tensors[i]? = some t → 0 < t.sequence :=
    fun _ _ => h.expanded.sequence_pos hn
  obtain ⟨k', hforM, ⟨hsame, hclears⟩, hD⟩ := Call.forM_completes (s := k)
    (f := fun t : Tensor => onBackend t.clear)
    (R := fun k k' : Network α => k' = { k with backend := k'.backend } ∧
      k.backend.Clears k'.backend m.Cleared)
    (D := fun t k' => m.Emptied t k'.backend) (l := k.tensors.toList)
    (fun k => ⟨rfl, .refl _ _⟩)
    (fun k₁ k₂ k₃ h₁ h₂ => ⟨by rw [h₂.1, h₁.1], h₁.2.trans h₂.2⟩)
    (fun t k₁ k₂ hR hD => hD.mono hR.2.wiped)
    (fun t ht k₁ hk₁ => by
      rw [hts, Array.mem_toList_iff] at ht
      obtain ⟨i, hi⟩ := Array.getElem?_of_mem ht
      obtain ⟨d, hclear, hRd, hDd⟩ := hd.clear_tensor ht (sequence i t hi)
        (hk₁.2.alters.buffers.trans hk.later.buffers) (hk₁.2.alters.sizes.trans hk.later.sizes)
      exact ⟨_, onBackend_ok_iff.mpr ⟨d, hclear, rfl⟩, ⟨rfl, hRd⟩, hDd⟩)
  have hdevice := hclears.wiped.same
  have hdispatches : k'.backend.dispatches = k.backend.dispatches := by rw [hdevice]
  have hused : k.Used k' := by
    refine ⟨by rw [hsame], ⟨by rw [hdevice], hclears.alters.sizes⟩, fun pass => ?_⟩
    rw [hdispatches]
    exact List.forall₂_same.mpr fun d _ => .refl d
  refine ⟨k', ?_, ⟨hused, hclears.alters⟩, hdispatches, fun l hl => ?_⟩
  · simp only [clearBuffers, Call.bind_ok_iff, requireCompiled_ok_iff, Call.get_ok_iff]
    exact ⟨⟨⟩, k, ⟨hstage, rfl⟩, k, k, ⟨rfl, rfl⟩, hforM⟩
  · refine hd.zero_of_emptied sequence (hclears.alters.buffers.trans hk.later.buffers)
      (fun t ht => hD t ?_) hl
    rwa [hts, Array.mem_toList_iff]

end Network

end Backprop
