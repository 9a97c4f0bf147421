import Mathlib
import Backprop.Proofs.Backend.Effects
import Backprop.Proofs.Network.Reading
import Backprop.Proofs.Operator.Shielding

/-! All products and convolutions share scratch. What a pass does is the same whatever has been
left there, by another operator, at another step or by an earlier run. -/

namespace Backprop

variable {α : Type} [Scalar α]

namespace Network

variable {b : Backend α} {config : NetworkConfig} {n m k k' : Network α} {batch : Nat}

/-- A compiled network at any time of its use: values may be any, and dispatches have counted
their runs. -/
structure Used (m k : Network α) : Prop where
  same : k = { m with backend := k.backend, runs := k.runs }
  later : m.backend.Later k.backend
  counted : ∀ pass, List.Forall₂ Dispatch.Counted (m.backend.dispatches.get pass).toList
    (k.backend.dispatches.get pass).toList

def IsScratch (n : Network α) (a : Nat) : Prop :=
  ∃ (i : Nat) (t : Tensor) (h : BufferId) (w : Window), n.tensors[i]? = some t ∧
    t.kind = .scratch ∧ t.forwardBuffer .current = .ok h ∧ n.backend.window? h = some w ∧
    a = w.allocation

/-- The networks differ in the values of scratch at most. -/
structure SameButScratch (k k' : Network α) : Prop where
  same : k' = { k with backend := k'.backend }
  touches : k.backend.Touches k'.backend k.IsScratch

theorem Used.refl (m : Network α) : m.Used m :=
  ⟨rfl, ⟨rfl, rfl⟩, fun _ => List.forall₂_same.mpr fun d _ => .refl d⟩

theorem Used.trans {l : Network α} (h : m.Used k) (h' : k.Used l) : m.Used l where
  same := by rw [h'.same, h.same]
  later := h.later.trans h'.later
  counted pass := Dispatch.Counted.trans_lists (h.counted pass) (h'.counted pass)

theorem Used.isScratch (h : m.Used k) : k.IsScratch = m.IsScratch := by
  funext a
  have hts : k.tensors = m.tensors := by rw [h.same]
  have hw : k.backend.window? = m.backend.window? := funext (Backend.window?_congr h.later.buffers)
  rw [IsScratch, IsScratch, hts, hw]

/-! ### Where scratch lies -/

section

variable {auxiliary : Nat} {allocation : Nat → Side → Nat} {i : Nat} {t : Tensor}

theorem Arranged.isScratch_iff (ha : Arranged m auxiliary allocation)
    (sequence : ∀ (i : Nat) (t : Tensor), m.tensors[i]? = some t → 0 < t.sequence) {a : Nat} :
    m.IsScratch a ↔
      ∃ i t, m.tensors[i]? = some t ∧ t.kind = .scratch ∧ a = allocation i .forward := by
  constructor
  · rintro ⟨i, t, h, w, ht, hk, hh, hw, rfl⟩
    obtain ⟨-, stride, -, hslots⟩ := ha.side ht t.lives_forward
    obtain ⟨hslot, -, hwin⟩ := hslots 0 (Tensor.slotCount_pos (sequence i t ht))
    have hcurrent : t.currentSlot = 0 := by rw [Tensor.currentSlot, hk]
    rw [Tensor.forwardBuffer, hcurrent, Tensor.slot_ok_iff, hslot] at hh
    obtain ⟨-, hh⟩ := hh
    cases hh
    rw [hwin] at hw
    cases hw
    exact ⟨i, t, ht, hk, rfl⟩
  · rintro ⟨i, t, ht, hk, rfl⟩
    obtain ⟨hbase, stride, -, hslots⟩ := ha.side ht t.lives_forward
    obtain ⟨hslot, -, hwin⟩ := hslots 0 (Tensor.slotCount_pos (sequence i t ht))
    have hcurrent : t.currentSlot = 0 := by rw [Tensor.currentSlot, hk]
    refine ⟨i, t, _, _, ht, hk, ?_, hwin, rfl⟩
    rw [Tensor.forwardBuffer, hcurrent]
    exact Tensor.slot_ok_iff.mpr ⟨hbase, hslot⟩

variable (ha : Arranged m auxiliary allocation)
  (sequence : ∀ (i : Nat) (t : Tensor), m.tensors[i]? = some t → 0 < t.sequence)

include ha sequence

theorem Arranged.slot_avoids {side : Side} {j : Nat} {h : BufferId} (ht : m.tensors[i]? = some t)
    (hk : t.kind ≠ .scratch) (hh : t.slot side j = .ok h) : m.backend.Avoids m.IsScratch h := by
  have hlive : t.Lives side := fun _ => by
    cases hkind : t.kind <;> simp_all [TensorKind.hasBackward]
  have hlt := (Array.getElem?_eq_some_iff.mp ht).1
  obtain ⟨floor, hlayout⟩ := ha.layout
  obtain ⟨-, hslot⟩ := Tensor.slot_ok_iff.mp hh
  have hj : j < t.slotCount := by
    rw [← ((hlayout.stored i t hlt ht).occupies side hlive).size]
    exact (Array.getElem?_eq_some_iff.mp hslot).1
  obtain ⟨-, stride, -, hslots⟩ := ha.side ht hlive
  obtain ⟨hslot', -, hwin⟩ := hslots j hj
  rw [hslot] at hslot'
  cases hslot'
  intro w hw hscratch
  rw [hwin] at hw
  cases hw
  obtain ⟨i', t', ht', hk', heq⟩ := (ha.isScratch_iff sequence).mp hscratch
  obtain ⟨rfl, -⟩ := hlayout.apart i i' t t' side .forward hlt
    (Array.getElem?_eq_some_iff.mp ht').1 ht ht' hlive t'.lives_forward heq
  rw [ht] at ht'
  cases ht'
  exact hk hk'

theorem Arranged.auxiliary_avoids {h : BufferId} (ht : m.tensors[i]? = some t)
    (hh : h ∈ t.auxiliary) : m.backend.Avoids m.IsScratch h := by
  intro w hw hscratch
  obtain ⟨i', t', ht', -, heq⟩ := (ha.isScratch_iff sequence).mp hscratch
  obtain ⟨floor, hlayout⟩ := ha.layout
  obtain ⟨-, -, happ⟩ := hlayout.auxiliary i t h w (Array.getElem?_eq_some_iff.mp ht).1 ht hh hw
  exact happ i' t' .forward (Array.getElem?_eq_some_iff.mp ht').1 ht' t'.lives_forward heq

theorem Arranged.scratch_lies (ht : m.tensors[i]? = some t) (hk : t.kind = .scratch) :
    m.backend.LiesIn m.IsScratch (m.handle ⟨i, .forward, 0⟩) := by
  obtain ⟨-, stride, -, hslots⟩ := ha.side ht t.lives_forward
  obtain ⟨-, -, hwin⟩ := hslots 0 (Tensor.slotCount_pos (sequence i t ht))
  intro w hw
  rw [hwin] at hw
  cases hw
  exact (ha.isScratch_iff sequence).mpr ⟨i, t, ht, hk, rfl⟩

theorem Arranged.forwardBuffer_avoids {c : Nat} {choice : SlotChoice} {h : BufferId}
    (ht : m.tensors[i]? = some t) (hk : t.kind ≠ .scratch)
    (hh : Tensor.forwardBuffer { t with cursor := c } choice = .ok h) :
    m.backend.Avoids m.IsScratch h := by
  have hslot : ∀ j, t.slot .forward j = .ok h → m.backend.Avoids m.IsScratch h :=
    fun j hj => ha.slot_avoids sequence ht hk hj
  cases choice with
  | current => exact hslot _ hh
  | shifted steps => exact hslot _ hh
  | timestep j =>
    rw [Tensor.forwardBuffer] at hh
    split at hh
    · split at hh
      · next found =>
        cases hh
        exact ha.auxiliary_avoids sequence ht (Array.mem_of_getElem? found)
      · cases hh
    · exact hslot j hh

theorem Arranged.backwardBuffer_avoids {c : Nat} {choice : SlotChoice} {h : BufferId}
    (ht : m.tensors[i]? = some t) (hk : t.kind ≠ .scratch)
    (hh : Tensor.backwardBuffer { t with cursor := c } choice = .ok h) :
    m.backend.Avoids m.IsScratch h := by
  have hslot : ∀ j, t.slot .backward j = .ok h → m.backend.Avoids m.IsScratch h :=
    fun j hj => ha.slot_avoids sequence ht hk hj
  unfold Tensor.backwardBuffer at hh
  split at hh
  · cases choice <;> exact hslot _ hh
  · cases hh

/-! ### What operators emit -/

/-- An operator emits nothing, or its requests on the buffers of its places; the output may also
be written elsewhere. -/
theorem Arranged.emission_wires {node : Node α} (hj : m.Joined node) {step : Nat} {e : Emission α}
    (he : (m.atStep step).emission node step = .ok e) :
    e = {} ∨ ∃ o a b s tile out, m.tensors[node.output.index]? = some o ∧
      (o.atStep step).forwardBuffer node.op.place = .ok out ∧
      e = node.op.requestsAt a b s tile { m.wires node step with out } ∧
      (node.op.NeedsScratch → node.scratch ≠ []) := by
  simp only [Network.emission, Except.bind_ok_iff] at he
  obtain ⟨output, hout, he⟩ := he
  split at he
  swap
  · exact .inl (Except.ok.inj he).symm
  simp only [Except.bind_ok_iff, Except.mapM_ok_iff] at he
  obtain ⟨inputs, hin, scratch, hsc, he⟩ := he
  have hlen : inputs.length = node.op.arity := by rw [← hin.length_eq, hj.arity]
  obtain ⟨a, rest, rfl⟩ : ∃ a rest, inputs = a :: rest := by
    cases inputs with
    | nil => cases hop : node.op <;> simp [hop, Operator.arity] at hlen
    | cons a rest => exact ⟨a, rest, rfl⟩
  obtain ⟨o, ho, rfl⟩ := atStep_tensor_ok_iff.mp hout
  have hchosen := (chosen_lt (sequence _ o ho) node.op step).1
  -- a first slot that is not written needs no buffer
  have hplace : e = {} ∨ ∃ out, (o.atStep step).forwardBuffer node.op.place = .ok out := by
    cases hop : node.op with
    | copyInit =>
      rw [hop] at he
      change (if (o.atStep step).cursor = 0 then Operator.emitCopy (.timestep 0) a (o.atStep step)
        else pure {}) = .ok e at he
      split at he
      · simp only [Operator.emitCopy, Except.bind_ok_iff] at he
        obtain ⟨out, hbuffer, -⟩ := he
        exact .inr ⟨out, hbuffer⟩
      · exact .inl (Except.ok.inj he).symm
    | _ =>
      rw [hop] at hchosen
      exact .inr ⟨_, ha.forwardBuffer ho hchosen (by simp [Operator.place])⟩
  obtain rfl | ⟨out, hbuffer⟩ := hplace
  · exact .inl rfl
  have hwired := ha.wired sequence hj hin hout hsc hbuffer
  refine .inr ⟨o, _, _, _, _, out, ho, hbuffer, Operator.emit_eq hwired hlen he, fun hneeds hnil => ?_⟩
  rw [hnil, List.forall₂_nil_left_iff] at hsc
  exact Operator.emits_scratch (Operator.emits_of_ok hlen he) hneeds hsc

theorem Arranged.emission_ok {node : Node α} (hj : m.Joined node) {step : Nat} {e : Emission α}
    (he : (m.atStep step).emission node step = .ok e) :
    e = {} ∨ ∃ a b out tile w, e = node.op.requestsAt a b out tile w ∧
      (∀ h ∈ w.lasting, m.backend.Avoids m.IsScratch h) ∧
      (node.op.NeedsScratch → m.backend.LiesIn m.IsScratch w.tmp) := by
  obtain rfl | ⟨o, a, b, s, tile, out, ho, hbuffer, rfl, hscratch⟩ :=
    ha.emission_wires sequence hj he
  · exact .inl rfl
  obtain ⟨o', ho', hok⟩ := hj.output
  rw [ho] at ho'
  cases ho'
  have hback := ha.backwardBuffer ho (chosen_lt (sequence _ o ho) node.op step).1 hok
  refine .inr ⟨a, b, s, tile, _, rfl, ?_, fun hneeds => ?_⟩
  · have hinput : ∀ x ∈ node.inputs, ∀ side,
        m.backend.Avoids m.IsScratch (m.handle (m.current side x step)) := by
      intro x hx side
      obtain ⟨t, ht, hk⟩ := hj.inputs x hx
      have hlt := (chosen_lt (sequence _ t ht) node.op step).2
      simp only [current, slotOf, ht]
      cases side with
      | forward => exact ha.forwardBuffer_avoids sequence ht hk (ha.forwardBuffer ht hlt (by simp))
      | backward => exact ha.backwardBuffer_avoids sequence ht hk (ha.backwardBuffer ht hlt hk)
    simp only [Wires.lasting, wires, target, slotOf, ho, List.forall_mem_cons, List.not_mem_nil,
      false_imp_iff, implies_true, and_true]
    have hfirst := hinput _ (Node.first_mem hj.arity)
    have hlast := hinput _ (Node.last_mem hj.arity)
    exact ⟨hfirst _, hfirst _, hlast _, hlast _, ha.forwardBuffer_avoids sequence ho hok hbuffer,
      ha.backwardBuffer_avoids sequence ho hok hback⟩
  · obtain ⟨x, xs, hx⟩ : ∃ x xs, node.scratch = x :: xs := by
      cases hs : node.scratch with
      | nil => exact absurd hs (hscratch hneeds)
      | cons x xs => exact ⟨x, xs, rfl⟩
    obtain ⟨t, ht, hk⟩ := hj.scratch x (hx ▸ List.mem_cons_self)
    simp only [wires, scratchPlace, hx, List.head?_cons, Option.getD_some]
    exact ha.scratch_lies sequence ht hk

end

/-! ### What a pass plays -/

section

variable {b₀ : Backend α} {A : Nat → Prop} {pass : Pass} {ds : List (Dispatch α)}

theorem shielded_of_pieces {ι : Type} {l : List ι} {f : ι → List (Request α)}
    (pieces : ∀ i ∈ l, ∀ es, List.Forall₂ b₀.Implements (f i) es →
      b₀.Shielded A [] (Backend.inPlayOrder pass es))
    (hds : List.Forall₂ b₀.Implements (l.flatMap f) ds) :
    b₀.Shielded A [] (Backend.inPlayOrder pass ds) := by
  induction l generalizing ds with
  | nil =>
    obtain rfl := List.forall₂_nil_left_iff.mp hds
    cases pass <;> trivial
  | cons i l ih =>
    rw [List.flatMap_cons] at hds
    have hfirst := pieces i List.mem_cons_self _
      (List.forall₂_take_append ds (f i) (l.flatMap f) hds.flip).flip
    have hrest := ih (fun j hj => pieces j (List.mem_cons_of_mem _ hj))
      (List.forall₂_drop_append ds (f i) (l.flatMap f) hds.flip).flip
    rw [← List.take_append_drop (f i).length ds]
    cases pass with
    | backward =>
      rw [Backend.inPlayOrder, List.reverse_append]
      exact hrest.append hfirst
    | forward => exact hfirst.append hrest
    | update => exact hfirst.append hrest

theorem requestsAt_shielded {op : Operator α} {a b out : Shape} {tile : Nat} {w : Wires}
    (lasting : ∀ h ∈ w.lasting, b₀.Avoids A h) (tmp : op.NeedsScratch → b₀.LiesIn A w.tmp)
    (hds : List.Forall₂ b₀.Implements ((op.requestsAt a b out tile w).get pass) ds) :
    b₀.Shielded A [] (Backend.inPlayOrder pass ds) := by
  unfold Operator.requestsAt at hds
  split at hds
  · have hnil : ds = [] := by
      cases pass <;> exact List.forall₂_nil_left_iff.mp hds
    subst hnil
    cases pass <;> trivial
  · cases pass with
    | forward =>
      obtain ⟨d, _, hd, hnil, rfl⟩ := List.forall₂_cons_left_iff.mp hds
      obtain rfl := List.forall₂_nil_left_iff.mp hnil
      exact ⟨[], Operator.forward_carries lasting hd, trivial⟩
    | backward => exact Operator.backward_shielded lasting tmp hds
    | update =>
      obtain rfl := List.forall₂_nil_left_iff.mp hds
      trivial

end

section

variable (hn : Outline b n) (h : Compiled n m batch)

include hn h

theorem Compiled.emits_cases {step : Nat} (hs : step < m.maxSequence) (pass : Pass) (i : Nat) :
    (m.atStep step).emits pass step i = [] ∨ ∃ (op : Operator α) (a b out : Shape) (tile : Nat)
      (w : Wires), (m.atStep step).emits pass step i = (op.requestsAt a b out tile w).get pass ∧
        (∀ l ∈ w.lasting, m.backend.Avoids m.IsScratch l) ∧
        (op.NeedsScratch → m.backend.LiesIn m.IsScratch w.tmp) := by
  obtain ⟨allocation, ha⟩ := h.arranged
  have hnodes : (m.atStep step).nodes = m.nodes := rfl
  rw [Network.emits, hnodes]
  cases hi : m.nodes[i]? with
  | none => exact .inl rfl
  | some node =>
    obtain ⟨e, he⟩ := h.emits step hs i node hi
    simp only [he]
    obtain rfl | ⟨a, b, out, tile, w, rfl, hw⟩ :=
      ha.emission_ok (fun _ _ => h.expanded.sequence_pos hn) (h.expanded.joined hn hi) he
    · exact .inl (by cases pass <;> rfl)
    · exact .inr ⟨node.op, a, b, out, tile, w, rfl, hw⟩

theorem Compiled.scheduled_shielded {pass : Pass} {ds : List (Dispatch α)}
    (hds : List.Forall₂ m.backend.Implements (m.scheduled pass) ds) :
    m.backend.Shielded m.IsScratch [] (Backend.inPlayOrder pass ds) := by
  refine shielded_of_pieces (fun step hs es hes => ?_) hds
  refine shielded_of_pieces (fun i _ es hes => ?_) hes
  obtain hnil | ⟨op, a, b, out, tile, w, heq, hlasting, htmp⟩ :=
    h.emits_cases hn (List.mem_range.mp hs) pass i
  · rw [hnil, List.forall₂_nil_left_iff] at hes
    subst hes
    cases pass <;> trivial
  · exact requestsAt_shielded hlasting htmp (heq ▸ hes)

theorem Compiled.scheduled_increment {pass : Pass} :
    ∀ r ∈ m.scheduled pass, r.increment = none := by
  intro r hr
  obtain ⟨step, hs, hr⟩ := List.mem_flatMap.mp hr
  obtain ⟨i, -, hr⟩ := List.mem_flatMap.mp hr
  obtain hnil | ⟨op, a, b, out, tile, w, heq, -⟩ :=
    h.emits_cases hn (List.mem_range.mp hs) pass i
  · rw [hnil] at hr
    cases hr
  · exact Operator.requestsAt_increment op a b out tile w pass r (heq ▸ hr)

theorem Compiled.updates_avoid : ∀ r ∈ m.updates, ∀ l, .buffer l ∈ r.args →
    m.backend.Avoids m.IsScratch l := by
  intro r hr l hl
  obtain ⟨allocation, ha⟩ := h.arranged
  have hseq : ∀ (i : Nat) (t : Tensor), m.tensors[i]? = some t → 0 < t.sequence :=
    fun _ _ => h.expanded.sequence_pos hn
  unfold updates at hr
  cases ho : m.optimizer with
  | none => simp [ho] at hr
  | some o =>
    simp only [ho, List.mem_flatMap, List.mem_filter, beq_iff_eq, Array.mem_toList_iff] at hr
    obtain ⟨t, ⟨ht, hk⟩, hr⟩ := hr
    obtain ⟨i, hi⟩ := Array.getElem?_of_mem ht
    have hne : t.kind ≠ .scratch := by simp [hk]
    have hforward : ∀ choice k, t.forwardBuffer choice = .ok k →
        m.backend.Avoids m.IsScratch k := fun choice k hk' =>
      ha.forwardBuffer_avoids hseq hi hne (c := t.cursor) hk'
    have hbackward : ∀ choice k, t.backwardBuffer choice = .ok k →
        m.backend.Avoids m.IsScratch k := fun choice k hk' =>
      ha.backwardBuffer_avoids hseq hi hne (c := t.cursor) hk'
    unfold updatesOf at hr
    cases hrs : o.requests t with
    | error e => simp [hrs] at hr
    | ok rs =>
      simp only [hrs] at hr
      cases o with
      | gradientDescent alpha =>
        simp only [Optimizer.requests, Except.bind_ok_iff, Except.pure_ok_iff] at hrs
        obtain ⟨gradient, hg, weight, hw, rfl⟩ := hrs
        obtain rfl := List.mem_singleton.mp hr
        simp only [KernelArg.float, KernelArg.int, KernelArg.signed, List.mem_cons,
          List.not_mem_nil, KernelArg.buffer.injEq, reduceCtorEq, or_false] at hl
        obtain rfl | rfl := hl
        · exact hbackward _ _ hg
        · exact hforward _ _ hw
      | adam alpha beta₁ beta₂ epsilon =>
        simp only [Optimizer.requests, Except.bind_ok_iff, Except.pure_ok_iff] at hrs
        obtain ⟨gradient, hg, first, hf, second, hs, weight, hw, rfl⟩ := hrs
        obtain rfl := List.mem_singleton.mp hr
        simp only [KernelArg.float, KernelArg.int, KernelArg.signed, List.mem_cons,
          List.not_mem_nil, KernelArg.buffer.injEq, reduceCtorEq, or_false] at hl
        obtain rfl | rfl | rfl | rfl := hl
        · exact hbackward _ _ hg
        · exact hforward _ _ hf
        · exact hforward _ _ hs
        · exact hforward _ _ hw

/-- Whenever a pass is played, scratch is written before it is read. -/
theorem Compiled.played_shielded (hk : m.Used k) (pass : Pass) :
    m.backend.Shielded m.IsScratch []
      (Backend.inPlayOrder pass (k.backend.dispatches.get pass).toList) := by
  have hlists := h.lists pass
  have hcounted := hk.counted pass
  by_cases hp : pass = .update
  · subst hp
    refine .of_forall fun d' hd' => Backend.carries_of_avoids fun l hl => ?_
    obtain ⟨p, hp⟩ := List.getElem?_of_mem (show d' ∈ _ from hd')
    obtain ⟨d, hd, hc⟩ := forall₂_getElem? hcounted.flip hp
    obtain ⟨r, hr, himp⟩ := forall₂_getElem? hlists.flip hd
    have hl' : .buffer l ∈ r.args := himp.args ▸ Dispatch.Counted.buffer_mem hc hl
    obtain hr | hr := List.mem_append.mp (List.mem_of_getElem? hr)
    · obtain ⟨step, hs, hr⟩ := List.mem_flatMap.mp hr
      obtain ⟨i, -, hr⟩ := List.mem_flatMap.mp hr
      unfold Network.emits at hr
      split at hr
      · cases hr
      · split at hr <;> cases hr
    · exact h.updates_avoid hn r hr l hl'
  · rw [if_neg hp, List.append_nil] at hlists
    have hsame : (k.backend.dispatches.get pass).toList =
        (m.backend.dispatches.get pass).toList := by
      refine List.forall₂_eq_eq_eq ▸ List.forall₂_iff_get.mpr ⟨hcounted.length_eq.symm, ?_⟩
      intro p h₁ h₂
      have hc := (List.forall₂_iff_get.mp hcounted).2 p h₂ h₁
      obtain ⟨r, hr, himp⟩ := forall₂_getElem? hlists.flip (List.getElem?_eq_getElem h₂)
      exact hc.eq_of_plain
        (himp.increment.trans (h.scheduled_increment hn r (List.mem_of_getElem? hr)))
    rw [hsame]
    exact h.scheduled_shielded hn hlists

end

/-! ### Runs -/

theorem run_eq (hs : k.stage = .compiled) (pass : Pass) :
    run pass k = match Backend.run pass k.backend with
      | .ok _ c => .ok ⟨⟩ { k with backend := c, runs := k.runs.map (·.modify pass (· + 1)) }
      | .error e c => .error e { k with backend := c } := by
  have hrequire : requireCompiled k = .ok ⟨⟩ k := requireCompiled_ok_iff.mpr ⟨hs, rfl⟩
  change EStateM.bind requireCompiled _ k = _
  rw [EStateM.bind, hrequire]
  change EStateM.bind (onBackend (Backend.run pass)) _ k = _
  rw [EStateM.bind, onBackend]
  cases Backend.run pass k.backend <;> rfl

theorem Used.run (hs : m.stage = .compiled) (hk : m.Used k) (pass : Pass) :
    m.Used (Call.after (run pass) k) := by
  have hstage : k.stage = .compiled := by
    rw [hk.same]
    exact hs
  have hplayed : k.backend.Played pass (Call.after (Backend.run pass) k.backend) fun _ => True :=
    Backend.run_played fun _ _ _ _ => trivial
  have hused : ∀ c runs, k.backend.Played pass c (fun _ => True) →
      m.Used { k with backend := c, runs } := by
    intro c runs hc
    refine ⟨by rw [hk.same], ⟨?_, hc.alters.sizes.trans hk.later.sizes⟩, fun p => ?_⟩
    · simp only
      rw [hc.same, hk.later.same]
    · by_cases hp : p = pass
      · subst hp
        exact Dispatch.Counted.trans_lists (hk.counted p) hc.counted
      · simp only [hc.others p hp]
        exact hk.counted p
  unfold Call.after at hplayed ⊢
  rw [run_eq hstage]
  cases hb : Backend.run pass k.backend with
  | ok u c =>
    rw [hb] at hplayed
    exact hused c _ hplayed
  | error e c =>
    rw [hb] at hplayed
    exact hused c k.runs hplayed

theorem Compiled.run_alike (hn : Outline b n) (h : Compiled n m batch) (hk : m.Used k)
    (hs : k.SameButScratch k') (pass : Pass) :
    Call.Alike SameButScratch (run pass k) (run pass k') := by
  have hstage : k.stage = .compiled := by
    rw [hk.same]
    exact h.stage
  have hstage' : k'.stage = .compiled := by
    rw [hs.same]
    exact hstage
  have hpaired : m.backend.Paired m.IsScratch [] k.backend k'.backend :=
    ⟨hk.later, hk.isScratch ▸ hs.touches, by simp⟩
  have halike := Backend.run_alike hpaired (h.played_shielded hn hk pass)
  have hdone : ∀ c c' runs, m.backend.Paired m.IsScratch [] c c' →
      SameButScratch { k with backend := c, runs } { k' with backend := c', runs } := by
    intro c c' runs hc
    refine ⟨by rw [hs.same], hc.touches.mono fun a ha => ?_⟩
    obtain ⟨i, t, l, w, ht, hkind, hl, hw, rfl⟩ := ha
    refine ⟨i, t, l, w, ?_, hkind, hl, ?_, rfl⟩
    · rw [hk.same]
      exact ht
    · rw [← hw]
      exact Backend.window?_congr hc.later.buffers l
  have hruns : k'.runs = k.runs := by rw [hs.same]
  rw [run_eq hstage, run_eq hstage']
  generalize Backend.run pass k.backend = r at halike
  generalize Backend.run pass k'.backend = r' at halike
  cases halike with
  | ok hc =>
    simp only [hruns]
    exact .ok (hdone _ _ _ hc)
  | error hc =>
    have hh := hdone _ _ k.runs hc
    rw [← hruns] at hh
    exact .error (hruns ▸ hh)

/-- A network in use may differ in scratch from what it was: its passes answer the same, and
leave the same behind but for scratch. -/
theorem Assembled.run_ignores_scratch (idle : b.Idle) (built : Assembled (Network.new b config) n)
    (compiled : compile batch n = .ok ⟨⟩ m) (used : m.Used k) (differ : k.SameButScratch k')
    (pass : Pass) : Call.Alike SameButScratch (run pass k) (run pass k') :=
  (compile_ok built.outline ⟨idle.dispatches, idle.sound⟩ compiled).run_alike built.outline used
    differ pass

def withContents (m : Network α) (h : BufferId) (data : Array α) : Network α :=
  { m with backend := m.backend.put h data }

theorem Lowered.withContents (h : Lowered m) (hk : m.SameGraphAs k) {p : Place} (hp : m.Has p)
    {data : Array α} (hs : data.size = (m.values k.backend p).size) :
    m.SameGraphAs (k.withContents (m.handle p) data) ∧
      m.values (k.withContents (m.handle p) data).backend p = data ∧
      ∀ q, m.Has q → q ≠ p →
        m.values (k.withContents (m.handle p) data).backend q = m.values k.backend q := by
  obtain ⟨hlayout, hself, hother⟩ := h.values_put hk.layout hp hs
  exact ⟨⟨by rw [Network.withContents, hk.same], hlayout⟩, hself, hother⟩

omit [Scalar α] in
theorem SameButScratch.withContents {h : BufferId} (hh : m.backend.LiesIn m.IsScratch h)
    (data data' : Array α) : (m.withContents h data).SameButScratch (m.withContents h data') := by
  refine ⟨rfl, ((Backend.Touches.refl m.backend m.IsScratch).put_within hh data data').mono ?_⟩
  rintro a ⟨i, t, l, w, ht, hk, hl, hw, rfl⟩
  exact ⟨i, t, l, w, ht, hk, hl, (Backend.window?_congr (by rw [Network.withContents,
    Backend.put_same]) l).trans hw, rfl⟩

theorem Used.withContents (m : Network α) (h : BufferId) (data : Array α) :
    m.Used (m.withContents h data) := by
  have hsame := Backend.put_same m.backend h data
  refine ⟨rfl, ⟨?_, Backend.sizes_put m.backend h data⟩, fun pass => ?_⟩
  · change m.backend.put h data = { m.backend with
      device := (m.backend.put h data).device, dispatches := (m.backend.put h data).dispatches }
    rw [hsame]
  have hd : (m.withContents h data).backend.dispatches = m.backend.dispatches := by
    rw [Network.withContents, Backend.put_same]
  rw [hd]
  exact List.forall₂_same.mpr fun d _ => .refl d

/-- A product of a row with a column. -/
def productNetwork : Network Binary32 :=
  (Network.new Backend.host {}).draft
    [.createInput ⟨2, 1, 1, 1⟩ 1, .createParameter ⟨1, 2, 1, 1⟩ 1,
      .addOperator .matMul [⟨0⟩, ⟨1⟩] 0]

def compiledProduct : Network Binary32 := Call.after (compile 1) productNetwork

set_option maxRecDepth 100000 in
theorem compiledProduct_scratch : compiledProduct.backend.LiesIn compiledProduct.IsScratch ⟨13⟩ := by
  intro w hw
  have hscratch : compiledProduct.tensors[3]?.any fun t =>
      t.kind = .scratch ∧ t.forwardBuffer .current = .ok ⟨13⟩ := by decide +kernel
  obtain ⟨t, ht, hl⟩ := (Option.any_eq_true _ _).mp hscratch
  obtain ⟨hk, hl⟩ := of_decide_eq_true hl
  exact ⟨3, t, ⟨13⟩, w, ht, hk, hl, hw, rfl⟩

set_option maxRecDepth 100000 in
theorem productNetwork_run_ignores_scratch : ∃ m k k',
    compile 1 productNetwork = .ok ⟨⟩ m ∧ m.Used k ∧ k.SameButScratch k' ∧
      k.backend.contents ⟨13⟩ ≠ k'.backend.contents ⟨13⟩ ∧
      Call.Alike SameButScratch (run .backward k) (run .backward k') := by
  have hm : compile 1 productNetwork = .ok ⟨⟩ compiledProduct :=
    Call.ok_of_isOk (by decide +kernel)
  have hbuilt : Assembled (Network.new Backend.host {}) productNetwork := Assembled.start.draft _
  have hused := Used.withContents compiledProduct ⟨13⟩ #[0, 0]
  have hdiffer := SameButScratch.withContents compiledProduct_scratch #[0, 0] #[1, 1]
  have hne : (compiledProduct.withContents ⟨13⟩ #[0, 0]).backend.contents ⟨13⟩ ≠
      (compiledProduct.withContents ⟨13⟩ #[1, 1]).backend.contents ⟨13⟩ := by decide +kernel
  exact ⟨_, _, _, hm, hused, hdiffer, hne,
    Assembled.run_ignores_scratch Backend.host_idle hbuilt hm hused hdiffer .backward⟩

end Network

end Backprop
