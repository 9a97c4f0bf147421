import Mathlib
import Backprop.Proofs.Network.Building
import Backprop.Proofs.Network.Graph
import Backprop.Proofs.Operator.Footprint

/-! The order in which a compiled network works: in the forward pass every slot is written
before it is read, and in the backward pass every gradient is complete before it is passed on. -/

namespace Backprop

variable {α : Type}

namespace Backend

/-- The dispatches of a pass in the order in which it plays them. -/
def played (b : Backend α) (pass : Pass) : List (Dispatch α) :=
  (playOrder pass (b.dispatches.get pass).size).filterMap ((b.dispatches.get pass)[·]?)

theorem played_eq (b : Backend α) (pass : Pass) :
    b.played pass = inPlayOrder pass (b.dispatches.get pass).toList :=
  filterMap_playOrder pass _

/-- All that writes the buffer in a pass comes before all that reads it. -/
def WrittenFirst (b : Backend α) (pass : Pass) (h : BufferId) : Prop :=
  ∀ (p q : Nat) (d e : Dispatch α), (b.played pass)[p]? = some d → (b.played pass)[q]? = some e →
    b.Writes d h → b.Reads e h → p < q

end Backend

/-- A list made step by step and operator by operator, with the step and the operator of
every entry. -/
def labelled {β : Type} (f : Nat → Nat → List β) (steps count : Nat) : List ((Nat × Nat) × β) :=
  (List.range steps).flatMap fun s => (List.range count).flatMap fun i => (f s i).map ((s, i), ·)

theorem map_snd_labelled {β : Type} (f : Nat → Nat → List β) (steps count : Nat) :
    (labelled f steps count).map (·.2) =
      (List.range steps).flatMap fun s => (List.range count).flatMap (f s) := by
  simp only [labelled, List.map_flatMap, List.map_map, Function.comp_def, List.map_id']

theorem pairwise_labelled {β : Type} (f : Nat → Nat → List β) (steps count : Nat) :
    (labelled f steps count).Pairwise fun x y =>
      x.1.1 < y.1.1 ∨ x.1.1 = y.1.1 ∧ x.1.2 ≤ y.1.2 := by
  unfold labelled
  rw [List.pairwise_flatMap]
  refine ⟨fun s _ => ?_, List.pairwise_lt_range.imp fun {s s'} hlt => ?_⟩
  · rw [List.pairwise_flatMap]
    refine ⟨fun i _ => ?_, List.pairwise_lt_range.imp fun {i i'} hlt => ?_⟩
    · rw [List.pairwise_map]
      exact List.pairwise_of_forall fun _ _ => .inr ⟨rfl, le_rfl⟩
    · intro x hx y hy
      obtain ⟨_, _, rfl⟩ := List.mem_map.mp hx
      obtain ⟨_, _, rfl⟩ := List.mem_map.mp hy
      exact .inr ⟨rfl, hlt.le⟩
  · intro x hx y hy
    obtain ⟨_, _, hx⟩ := List.mem_flatMap.mp hx
    obtain ⟨_, _, rfl⟩ := List.mem_map.mp hx
    obtain ⟨_, _, hy⟩ := List.mem_flatMap.mp hy
    obtain ⟨_, _, rfl⟩ := List.mem_map.mp hy
    exact .inl hlt

theorem lt_of_labels {β : Type} {f : Nat → Nat → List β} {steps count p q : Nat} {x y : β}
    (hp : ((List.range steps).flatMap fun s => (List.range count).flatMap (f s))[p]? = some x)
    (hq : ((List.range steps).flatMap fun s => (List.range count).flatMap (f s))[q]? = some y)
    (hlt : ∀ s i s' i', s < steps → s' < steps → x ∈ f s i → y ∈ f s' i' →
      s < s' ∨ s = s' ∧ i < i') : p < q := by
  rw [← map_snd_labelled, List.getElem?_map, Option.map_eq_some_iff] at hp hq
  obtain ⟨⟨⟨s, i⟩, x⟩, hp, rfl⟩ := hp
  obtain ⟨⟨⟨s', i'⟩, y⟩, hq, rfl⟩ := hq
  have hmem : ∀ {s i : Nat} {x : β}, ((s, i), x) ∈ labelled f steps count →
      s < steps ∧ x ∈ f s i := by
    intro s i x hx
    obtain ⟨_, hs, hx⟩ := List.mem_flatMap.mp hx
    obtain ⟨_, -, hx⟩ := List.mem_flatMap.mp hx
    obtain ⟨_, hx, he⟩ := List.mem_map.mp hx
    cases he
    exact ⟨List.mem_range.mp hs, hx⟩
  obtain ⟨hs, hx⟩ := hmem (List.mem_of_getElem? hp)
  obtain ⟨hs', hy⟩ := hmem (List.mem_of_getElem? hq)
  have hlab := hlt s i s' i' hs hs' hx hy
  by_contra hle
  obtain hqp | hqp := Nat.lt_or_eq_of_le (Nat.le_of_not_lt hle)
  · obtain ⟨hp', hp⟩ := List.getElem?_eq_some_iff.mp hp
    obtain ⟨hq', hq⟩ := List.getElem?_eq_some_iff.mp hq
    have hord := List.pairwise_iff_getElem.mp (pairwise_labelled f steps count) q p hq' hp' hqp
    rw [hp, hq] at hord
    simp only at hord
    omega
  · rw [hqp, hp] at hq
    cases hq
    omega

theorem TensorId.eq_of_index {x y : TensorId} (h : x.index = y.index) : x = y := by
  obtain ⟨i⟩ := x
  obtain ⟨j⟩ := y
  cases h
  rfl

namespace Network

/-- Operators that own their output do not reach into another timestep. -/
def StaysInStep (m : Network α) : Prop :=
  ∀ (i : Nat) (node : Node α) (t : Tensor), m.nodes[i]? = some node →
    m.tensors[node.output.index]? = some t → t.kind = .intermediate → InStep node.op

theorem currentSlot_atStep {t : Tensor} (hk : t.kind ≠ .parameter) (hk' : t.kind ≠ .scratch)
    (step : Nat) : (t.atStep step).chosen .current = step % t.sequence := by
  cases hkind : t.kind with
  | parameter => exact absurd hkind hk
  | scratch => exact absurd hkind hk'
  | _ =>
    have hstep : (t.atStep step).kind = _ := hkind
    rw [Tensor.chosen, Tensor.currentSlot, hstep]
    rfl

/-- The slot that an operator writes where it runs, and the slots it may be read from. -/
theorem slot_of_intermediate {t : Tensor} {op : Operator α} {step : Nat}
    (hk : t.kind = .intermediate) (hop : InStep op) (hlt : step < t.sequence)
    (hinit : op.place = .timestep 0 → step = 0) : (t.atStep step).chosen op.place = step := by
  have hcur : (t.atStep step).chosen .current = step := by
    rw [currentSlot_atStep (by simp [hk]) (by simp [hk]), Nat.mod_eq_of_lt hlt]
  have hshift : (t.atStep step).chosen (.shifted 0) = step := by
    have hcur' : (t.atStep step).currentSlot = step := hcur
    have hcount : (t.atStep step).slotCount = t.sequence := by
      change t.kind.slotCount t.sequence = _
      rw [hk]
      rfl
    change (((t.atStep step).currentSlot + 0) % ((t.atStep step).slotCount : Int)).toNat = step
    rw [hcur', hcount, Int.add_zero, Int.emod_eq_of_lt (by omega) (by omega)]
    rfl
  cases op with
  | add k =>
    obtain rfl := hop k (.inl rfl)
    exact hshift
  | copy k =>
    obtain rfl := hop k (.inr rfl)
    exact hshift
  | copyInit => exact (hinit rfl).symm
  | _ => exact hcur

theorem slot_of_recurrent {t : Tensor} {op : Operator α} {step : Nat}
    (hk : t.kind = .recurrent) (hop : op = .copy 1) (hlt : step < t.sequence) :
    (t.atStep step).chosen op.place = step + 1 := by
  subst hop
  have hcur : (t.atStep step).currentSlot = step :=
    (currentSlot_atStep (by simp [hk]) (by simp [hk]) step).trans (Nat.mod_eq_of_lt hlt)
  have hcount : (t.atStep step).slotCount = t.sequence + 1 := by
    change t.kind.slotCount t.sequence = _
    rw [hk]
    rfl
  change (((t.atStep step).currentSlot + 1) % ((t.atStep step).slotCount : Int)).toNat = step + 1
  rw [hcur, hcount, Int.emod_eq_of_lt (by omega) (by omega)]
  omega

variable [Zero α] {m : Network α}

theorem Lowered.writer_first (h : Lowered m) (hstep : m.StaysInStep) {i j s s' : Nat}
    {a c : Node α} (ha : m.nodes[i]? = some a) (hc : m.nodes[j]? = some c) (hactive : m.Active a s)
    (hinit : a.op.place = .timestep 0 → s = 0) {x : TensorId} (hx : x ∈ c.inputs)
    (htensor : x.index = a.output.index)
    (hslot : m.slotOf x.index .current s' = m.slotOf a.output.index a.op.place s) :
    s < s' ∨ s = s' ∧ i < j := by
  obtain ⟨t, ht, -, hlt⟩ := hactive
  obtain ⟨t', ht', hkind⟩ := (h.fitted i a ha).output
  rw [ht] at ht'
  cases ht'
  have hne : t.kind ≠ .parameter ∧ t.kind ≠ .scratch := by
    obtain hk | ⟨hk, -⟩ := hkind <;> simp [hk]
  simp only [slotOf, htensor, ht] at hslot
  rw [currentSlot_atStep hne.1 hne.2] at hslot
  have hmod := Nat.mod_le s' t.sequence
  have hxa : x = a.output := TensorId.eq_of_index htensor
  obtain hk | ⟨hk, -, -, hop | hop⟩ := hkind
  · rw [slot_of_intermediate hk (hstep i a t ha ht hk) hlt hinit] at hslot
    obtain hs | rfl := Nat.lt_or_eq_of_le (show s ≤ s' by omega)
    · exact .inl hs
    · refine .inr ⟨rfl, ?_⟩
      by_contra hle
      have hlater := (h.later j i c a t hc ha (Nat.le_of_not_lt hle) ht hk).1 x hx
      omega
  · rw [slot_of_recurrent hk hop hlt] at hslot
    exact .inl (by omega)
  · obtain rfl := hinit (by rw [hop]; rfl)
    obtain hs | rfl := Nat.eq_zero_or_pos s' |>.symm
    · exact .inl hs
    · refine .inr ⟨rfl, ?_⟩
      by_contra hle
      exact h.first j i c a hc ha (Nat.le_of_not_lt hle) hop (hxa ▸ hx)

/-- A list implements the requests of a pass, one by one. -/
theorem Lowered.request_of_dispatch (h : Lowered m) {pass : Pass} (hpass : pass ≠ .update) {p : Nat}
    {d : Dispatch α} (hd : (m.backend.dispatches.get pass).toList[p]? = some d) :
    ∃ r, (m.scheduled pass)[p]? = some r ∧ m.backend.Implements r d := by
  have hl := h.lists pass
  rw [if_neg hpass, List.append_nil] at hl
  exact forall₂_getElem? hl.flip hd

theorem Lowered.scheduled_lt (h : Lowered m) {pass : Pass} {p q : Nat} {r r' : Request α}
    (hp : (m.scheduled pass)[p]? = some r) (hq : (m.scheduled pass)[q]? = some r')
    (hlt : ∀ (s i s' i' : Nat) (a c : Node α), m.nodes[i]? = some a → m.nodes[i']? = some c → m.Active a s →
      r ∈ (m.requestsOf a s).get pass → r' ∈ (m.requestsOf c s').get pass →
      s < s' ∨ s = s' ∧ i < i') : p < q := by
  refine lt_of_labels hp hq fun s i s' i' hs hs' hr hr' => ?_
  obtain ⟨a, ha, hactive, hr⟩ := h.mem_emits hs hr
  obtain ⟨c, hc, -, hr'⟩ := h.mem_emits hs' hr'
  exact hlt s i s' i' a c ha hc hactive hr hr'

omit [Zero α] in
theorem mem_requestsOf {node : Node α} {step : Nat} {pass : Pass} {r : Request α}
    (hr : r ∈ (m.requestsOf node step).get pass) :
    (node.op.place = .timestep 0 → step = 0) ∧
      (pass = .forward → r.written = [m.handle (m.target .forward node step)] ∧
        r.read = node.op.operands (m.wires node step)) ∧
      (pass = .backward →
        (∀ k ∈ r.written, k = m.handle (m.current .backward node.first step) ∨
          k = m.handle (m.current .backward node.last step) ∨ k = m.handle (scratchPlace node)) ∧
        ∀ k ∈ r.read, k = m.handle (m.current .forward node.first step) ∨
          k = m.handle (m.current .forward node.last step) ∨
          k = m.handle (m.target .forward node step) ∨ k = m.handle (scratchPlace node) ∨
          k = m.handle (m.target .backward node step)) := by
  unfold requestsOf Operator.requestsAt at hr
  split at hr
  · cases pass <;> cases hr
  · next hne =>
    refine ⟨fun hp => ?_, fun hpass => ?_, fun hpass => ?_⟩
    · by_contra hs
      exact hne ⟨hp, hs⟩
    · subst hpass
      rw [List.mem_singleton.mp hr]
      exact Operator.forwardRequest_footprint ..
    · subst hpass
      exact Operator.backwardRequests_footprint _ _ _ _ _ r hr

omit [Zero α] in
theorem mem_operands {node : Node α} {w : Wires} {k : BufferId} (hk : k ∈ node.op.operands w) :
    k = w.a ∨ k = w.b := by
  unfold Operator.operands at hk
  split at hk <;> simp_all

/-- Whatever writes a slot in the forward pass comes before whatever reads it. -/
theorem Lowered.forward_written_first (h : Lowered m) (hstep : m.StaysInStep) {place : Place}
    (hplace : m.Has place) :
    m.backend.WrittenFirst .forward (m.handle place) := by
  obtain ⟨allocation, ha⟩ := h.arranged
  intro p q d e hd he hw hr
  rw [Backend.played_eq] at hd he
  obtain ⟨r, hr₁, hi₁⟩ := h.request_of_dispatch (by decide) hd
  obtain ⟨r', hr₂, hi₂⟩ := h.request_of_dispatch (by decide) he
  have hw' := hi₁.writes hw
  have hr' := hi₂.reads hr
  refine h.scheduled_lt hr₁ hr₂ fun s i s' i' a c hna hnc hactive hmem hmem' => ?_
  obtain ⟨hinit, hwritten, -⟩ := mem_requestsOf hmem
  obtain ⟨-, hread, -⟩ := mem_requestsOf hmem'
  rw [(hwritten rfl).1, List.mem_singleton] at hw'
  rw [(hread rfl).2] at hr'
  have htarget := ha.handle_inj h.elements hplace (h.has_target hna .forward s) hw'
  obtain ⟨x, hx, hxp⟩ : ∃ x ∈ c.inputs, place = m.current .forward x s' := by
    have hfit := h.fitted i' c hnc
    obtain hk | hk := mem_operands hr'
    · exact ⟨c.first, Node.first_mem hfit.arity, ha.handle_inj h.elements hplace
        (h.has_current hnc (Node.first_mem hfit.arity) .forward s') hk⟩
    · exact ⟨c.last, Node.last_mem hfit.arity, ha.handle_inj h.elements hplace
        (h.has_current hnc (Node.last_mem hfit.arity) .forward s') hk⟩
  rw [hxp] at htarget
  simp only [current, target, Place.mk.injEq, true_and] at htarget
  exact h.writer_first hstep hna hnc hactive hinit hx htarget.1 htarget.2

/-- Whatever adds to the gradient of an output comes before whatever passes it on. -/
theorem Lowered.backward_written_first (h : Lowered m) (hstep : m.StaysInStep) {place : Place}
    (hside : place.side = .backward) (hplace : m.Has place) :
    m.backend.WrittenFirst .backward (m.handle place) := by
  obtain ⟨allocation, ha⟩ := h.arranged
  intro p q d e hd he hw hr
  rw [Backend.played_eq] at hd he
  have hlen : ∀ {p : Nat} {d : Dispatch α}, ((m.backend.dispatches.get .backward).toList.reverse)[p]? =
      some d → ∃ p' r, p + p' + 1 = (m.backend.dispatches.get .backward).toList.length ∧
        (m.scheduled .backward)[p']? = some r ∧ m.backend.Implements r d := by
    intro p d hd
    have hlt := (List.getElem?_eq_some_iff.mp hd).1
    rw [List.length_reverse] at hlt
    rw [List.getElem?_reverse hlt] at hd
    obtain ⟨r, hr, hi⟩ := h.request_of_dispatch (by decide) hd
    exact ⟨_, r, by omega, hr, hi⟩
  obtain ⟨p', r, hp', hr₁, hi₁⟩ := hlen hd
  obtain ⟨q', r', hq', hr₂, hi₂⟩ := hlen he
  have hw' := hi₁.writes hw
  have hr' := hi₂.reads hr
  have hlt : q' < p' := by
    refine h.scheduled_lt hr₂ hr₁ fun s i s' i' a c hna hnc hactive hmem hmem' => ?_
    obtain ⟨hinit, -, hread⟩ := mem_requestsOf hmem
    obtain ⟨-, -, hwritten⟩ := mem_requestsOf hmem'
    have hne : ∀ q : Place, q.side = .forward → m.Has q → m.handle place ≠ m.handle q := by
      intro q hq hhas heq
      have hsame := ha.handle_inj h.elements hplace hhas heq
      rw [hsame, hq] at hside
      cases hside
    have hfit := h.fitted i a hna
    have hfit' := h.fitted i' c hnc
    obtain hk | hk | hk | hk | hk := (hread rfl).2 _ hr'
    · exact absurd hk (hne _ rfl (h.has_current hna (Node.first_mem hfit.arity) .forward s))
    · exact absurd hk (hne _ rfl (h.has_current hna (Node.last_mem hfit.arity) .forward s))
    · exact absurd hk (hne _ rfl (h.has_target hna .forward s))
    · exact absurd hk (hne _ rfl (h.has_scratch hna))
    · have htarget := ha.handle_inj h.elements hplace (h.has_target hna .backward s) hk
      obtain ⟨x, hx, hxp⟩ : ∃ x ∈ c.inputs, place = m.current .backward x s' := by
        obtain hk | hk | hk := (hwritten rfl).1 _ hw'
        · exact ⟨c.first, Node.first_mem hfit'.arity, ha.handle_inj h.elements hplace
            (h.has_current hnc (Node.first_mem hfit'.arity) .backward s') hk⟩
        · exact ⟨c.last, Node.last_mem hfit'.arity, ha.handle_inj h.elements hplace
            (h.has_current hnc (Node.last_mem hfit'.arity) .backward s') hk⟩
        · exact absurd hk (hne _ rfl (h.has_scratch hnc))
      rw [hxp] at htarget
      simp only [current, target, Place.mk.injEq, true_and] at htarget
      exact h.writer_first hstep hna hnc hactive hinit hx htarget.1 htarget.2
  omega

end Network

namespace Network

variable [Scalar α] {b : Backend α} {config : NetworkConfig} {n m : Network α} {batch : Nat}

theorem InStepSketch.staysInStep (hn : InStepSketch b n) (h : Compiled n m batch) :
    m.StaysInStep := by
  intro i node t hi ht hk
  obtain ⟨node', hi', hop, -, hout, -⟩ := h.expanded.origin hi
  obtain hin | ⟨u, -, hu, hkind, -⟩ := hn.2 i node' hi'
  · exact hop ▸ hin
  · obtain ⟨t', ht', hk', -⟩ := h.expanded.tensor_keeps hu
    rw [hout, ht'] at ht
    cases ht
    rw [hk', hkind] at hk
    cases hk

omit [Scalar α] in
/-- In the forward pass every slot is written before it is read, and in the backward pass the
gradient of every output is complete before it is passed on. -/
def WorksInOrder (m : Network α) : Prop :=
  (∀ i slot k, m.handle? ⟨i, .forward, slot⟩ = some k → m.backend.WrittenFirst .forward k) ∧
    ∀ node ∈ m.nodes, ∀ slot k, m.handle? ⟨node.output.index, .backward, slot⟩ = some k →
      m.backend.WrittenFirst .backward k

/-- A recurrent network works in order once it is compiled. -/
theorem Unrolled.worksInOrder (idle : b.Idle) (built : Unrolled (Network.new b config) n)
    (compiled : compile batch n = .ok ⟨⟩ m) : m.WorksInOrder := by
  have hsketch := built.sketch
  have hcompiled := compile_ok hsketch.1.outline ⟨idle.dispatches, idle.sound⟩ compiled
  have hlowered := hcompiled.lowered hsketch.1
  have hstep := hsketch.staysInStep hcompiled
  obtain ⟨allocation, harranged⟩ := hlowered.arranged
  refine ⟨fun i slot k hk => ?_, fun node _ slot k hk => ?_⟩
  · obtain ⟨hhas, rfl⟩ := harranged.has_of_handle? hk
    exact hlowered.forward_written_first hstep hhas
  · obtain ⟨hhas, rfl⟩ := harranged.has_of_handle? hk
    exact hlowered.backward_written_first hstep rfl hhas

/-- An input, a state and the parameters of a gated unit, all of one element. -/
def gatedParts : Network Binary32 :=
  (Network.new Backend.host {}).draft
    ([.createInput ⟨1, 1, 1, 1⟩ 2, .createState ⟨1, 1, 1, 1⟩ 2] ++
      List.replicate 9 (.createParameter ⟨1, 1, 1, 1⟩ 1))

def gatedParams : GatedUnit := ⟨⟨⟨2⟩, ⟨3⟩, ⟨4⟩⟩, ⟨⟨5⟩, ⟨6⟩, ⟨7⟩⟩, ⟨⟨8⟩, ⟨9⟩, ⟨10⟩⟩⟩

/-- A gated unit over two timesteps, whose state starts from the input. -/
def gatedNetwork : Network Binary32 :=
  Call.after (gatedParams.step ⟨0⟩ ⟨1⟩) (Call.after (copyInit ⟨0⟩ ⟨1⟩) gatedParts)

set_option maxRecDepth 100000 in
theorem gatedNetwork_worksInOrder : ∃ m, compile 1 gatedNetwork = .ok ⟨⟩ m ∧ m.WorksInOrder := by
  have hm : compile 1 gatedNetwork = .ok ⟨⟩ (Call.after (compile 1) gatedNetwork) :=
    Call.ok_of_isOk (by decide +kernel)
  have hparts : Unrolled (Network.new Backend.host {}) gatedParts :=
    Unrolled.start.draft fun c hc => by
      simp only [List.mem_append, List.mem_cons, List.mem_replicate, List.not_mem_nil,
        or_false] at hc
      obtain (rfl | rfl) | ⟨-, rfl⟩ := hc <;> trivial
  have hinit := hparts.copyInit ⟨0⟩ ⟨1⟩ ⟨_, rfl, rfl⟩ (by decide) fun i node hi => by
    have hempty : gatedParts.nodes = #[] := rfl
    rw [hempty] at hi
    cases hi
  have hbuilt := hinit.gatedUnit ⟨0⟩ ⟨1⟩ gatedParams ⟨_, rfl, rfl⟩
  exact ⟨_, hm, Unrolled.worksInOrder Backend.host_idle hbuilt hm⟩

end Network

end Backprop
