import Mathlib
import Backprop.Proofs.Network.Entrywise
import Backprop.Proofs.Operator.ExactValues

/-! Networks of algebraic operators in exact arithmetic. A forward pass leaves values that agree
with the equations of all operators, and where one pass succeeds every other does. -/

namespace Backprop

namespace Operator

open Kernel

variable {α : Type} {op : Operator α} {a b out : Shape} {pad : Padding} {stride : Nat}

theorem Algebraic.stepwise (h : op.Algebraic) : Stepwise op := by
  refine ⟨?_, ?_⟩
  · rintro k (rfl | rfl)
    · exact h
    · exact h
  · rintro rfl
    exact h

/-- A kernel is told the numbers of a convolution that fits, for any rows of a batch, where none of
the tensors is too large and neither are a padding that was given and the stride. -/
theorem filtering_told (hshape : (conv2d pad stride : Operator α).shapeOf a b = .ok out)
    (tellable : (conv2d pad stride : Operator α).Tellable) {rows rows' rows'' : Nat}
    (ha : 0 < (a.withRows rows).elements ∧ (a.withRows rows).elements < 2 ^ 31)
    (hb : 0 < (b.withRows rows').elements ∧ (b.withRows rows').elements < 2 ^ 31)
    (hout : 0 < (out.withRows rows'').elements ∧ (out.withRows rows'').elements < 2 ^ 31) :
    (filtering pad stride (a.withRows rows) (b.withRows rows')).Fits ∧
      (filtering pad stride (a.withRows rows) (b.withRows rows')).Tellable := by
  simp only [shapeOf] at hshape
  split at hshape
  · cases hshape
  simp only [Except.bind_ok_iff, Except.pure_ok_iff] at hshape
  obtain ⟨⟨x, y, cells⟩, hplane, rfl⟩ := hshape
  obtain ⟨hx, hy, rfl⟩ := convolvedPlane_ok_iff.mp hplane
  have hfiltering : filtering pad stride (a.withRows rows) (b.withRows rows') =
      ⟨a.x, a.y, x, y, ⟨b.x, b.y, b.z, rows'⟩, pad.cells b.x, stride, rows⟩ := by
    have hplane' : plane (a.withRows rows) (b.withRows rows') pad stride =
        (x, y, pad.cells b.x) := by
      have hsame : convolvedPlane (a.withRows rows) (b.withRows rows') pad stride =
          .ok (x, y, pad.cells b.x) := convolvedPlane_ok_iff.mpr ⟨hx, hy, rfl⟩
      rw [plane, hsame]
    rw [filtering, hplane']
    rfl
  obtain ⟨hax, hay, -, haw⟩ := Shape.extents_le ha.1
  obtain ⟨hbx, hby, hbz, hbw⟩ := Shape.extents_le hb.1
  obtain ⟨hox, hoy, -, -⟩ := Shape.extents_le hout.1
  simp only [Shape.withRows] at hax hay haw hbx hby hbz hbw hox hoy
  simp only [Shape.withRows] at ha hb hout
  have hcells : pad.cells b.x < 2 ^ 31 := by
    cases pad with
    | valid => exact Nat.two_pow_pos 31
    | same => exact (Nat.div_le_self _ _).trans_lt (hbx.trans_lt hb.2)
    | full => exact (Nat.sub_le _ _).trans_lt (hbx.trans_lt hb.2)
    | explicit cells => exact tellable.1 cells rfl
  rw [hfiltering]
  refine ⟨⟨hx, hy⟩, ?_⟩
  simp only [Convolution.Tellable, List.mem_cons, List.not_mem_nil, or_false, forall_eq_or_imp,
    forall_eq]
  exact ⟨hax.trans_lt ha.2, hay.trans_lt ha.2, hox.trans_lt hout.2, hoy.trans_lt hout.2,
    hbx.trans_lt hb.2, hby.trans_lt hb.2, hbz.trans_lt hb.2, hbw.trans_lt hb.2, hcells,
    tellable.2, haw.trans_lt ha.2⟩

end Operator

namespace Network

section

variable {α : Type} [Zero α] {b : Backend α} {n m : Network α} {batch i : Nat} {node : Node α}

theorem Compiled.shapeOf_rows (h : Compiled n m batch) {x : TensorId}
    (hx : x.index < n.plain.size) :
    ∃ rows, m.shapeOf x = (n.shapeOf x).withRows rows := by
  have hlt : x.index < n.tensors.size := by simpa [plain] using hx
  have ht : n.tensors[x.index]? = some n.tensors[x.index] := Array.getElem?_eq_getElem hlt
  rw [h.shapeOf ht, Network.shapeOf_eq ht]
  unfold batchTensor Tensor.withBatch
  split
  · exact ⟨_, rfl⟩
  · split
    · exact ⟨_, rfl⟩
    · exact ⟨_, rfl⟩

theorem Compiled.elements_lt (h : Compiled n m batch) (tellable : n.Tellable batch) {x : TensorId}
    (hx : x.index < n.plain.size) : (m.shapeOf x).elements < 2 ^ 31 := by
  have hlt : x.index < n.tensors.size := by simpa [plain] using hx
  have ht : n.tensors[x.index]? = some n.tensors[x.index] := Array.getElem?_eq_getElem hlt
  rw [h.shapeOf ht]
  refine tellable.elements _ (Array.mem_of_getElem? (i := x.index) ?_)
  rw [Array.getElem?_mapIdx, ht, Option.map_some]

/-- The kernels of all operators are told all numbers as they are. -/
theorem Compiled.told (hn : Sketch b n) (h : Compiled n m batch)
    (howns : n.Each fun ts node => node.op.Algebraic ∧ node.Owns ts)
    (tellable : n.Tellable batch) (hi : m.nodes[i]? = some node) :
    node.op.Algebraic ∧ node.op.Told (m.shapeOf node.first) (m.shapeOf node.last) := by
  have hlowered := h.lowered hn
  have hfit := hlowered.fitted i node hi
  obtain ⟨node', hi', hop, hin, hout, -⟩ := h.expanded.origin hi
  obtain ⟨hop', u, hu, -, -, htakes⟩ := howns i node' hi'
  have hfirst : node'.first = node.first := by rw [Node.first, Node.first, hin]
  have hlast : node'.last = node.last := by rw [Node.last, Node.last, hin]
  obtain ⟨⟨s, hs⟩, ⟨t, ht⟩, hshape, -⟩ := htakes.operands
  rw [hfirst] at hs hshape
  rw [hlast] at ht hshape
  rw [← hop] at hop' hshape
  have htold : ∀ x : TensorId, x.index < n.plain.size →
      0 < (m.shapeOf x).elements ∧ (m.shapeOf x).elements < 2 ^ 31 := by
    intro x hx
    refine ⟨?_, h.elements_lt tellable hx⟩
    obtain ⟨t, ht, -⟩ := h.expanded.tensor_keeps (Array.getElem?_eq_getElem hx)
    rw [Network.shapeOf_eq ht]
    exact hlowered.elements _ t ht
  have hs' := (Array.getElem?_eq_some_iff.mp hs).1
  have ht' := (Array.getElem?_eq_some_iff.mp ht).1
  have hu' := (Array.getElem?_eq_some_iff.mp hu).1
  refine ⟨hop', htold _ hs', htold _ ht', ?_⟩
  intro pad stride hconv
  have htellable := tellable.operators node' (Array.mem_of_getElem? hi')
  obtain ⟨rows, hrows⟩ := h.shapeOf_rows hs'
  obtain ⟨rows', hrows'⟩ := h.shapeOf_rows ht'
  obtain ⟨rows'', hrows''⟩ := h.shapeOf_rows hu'
  have houtput := htold _ hu'
  rw [← hop, hconv] at htellable
  rw [hconv] at hshape
  rw [hrows, hrows']
  rw [hrows''] at houtput
  rw [shapeOf_plain hu] at houtput
  exact Operator.filtering_told hshape htellable (hrows ▸ htold _ hs') (hrows' ▸ htold _ ht')
    houtput

omit [Zero α] in
theorem FeedForward.staysInStep (h : m.FeedForward) : m.StaysInStep := fun i node _ hi _ _ =>
  (h i node hi).2.1

omit [Zero α] in
theorem FeedForward.computes_iff (h : m.FeedForward) {step : Nat} (hi : m.nodes[i]? = some node) :
    m.Computes node step ↔ m.Active node step := by
  refine ⟨And.left, fun hactive => ⟨hactive, ?_⟩⟩
  rintro ⟨hplace, -⟩
  have hinit := (h i node hi).2.2
  cases hop : node.op <;> simp_all [Operator.place]

end

/-! ### Forward passes -/

section

variable {α : Type} {n m k k' : Network α} {i j : Nat} {node : Node α} {t : Tensor}

theorem FeedForward.kind_output (h : m.FeedForward) (hi : m.nodes[i]? = some node)
    (ht : m.tensors[node.output.index]? = some t) : t.kind = .intermediate := by
  obtain ⟨⟨u, hu, hk⟩, -⟩ := h i node hi
  rw [ht] at hu
  cases hu
  exact hk

theorem FeedForward.held (h : m.FeedForward) (ht : m.tensors[j]? = some t)
    (hk : t.kind ≠ .intermediate) (i : Nat) (node : Node α) (hi : m.nodes[i]? = some node) :
    node.output.index ≠ j := fun hout => hk (h.kind_output hi (hout ▸ ht))

variable [Scalar α]

theorem FeedForward.writesOnce (hf : m.FeedForward) (h : Lowered m) : m.WritesOnce := by
  refine h.writesOnce hf.staysInStep fun i j a b t hi hj ht hk hout _ => ?_
  rw [hf.kind_output hi ht] at hk
  cases hk

/-- A forward pass from what the host has written solves the equations of all operators. -/
theorem FeedForward.forward_solves (hf : m.FeedForward) (h : Lowered m) (written : HostWritten m k)
    (ran : forward k = .ok ⟨⟩ k') : m.SameGraphAs k' ∧ m.Fresh k.backend ∧
      m.Solving k.backend m.maxSequence 0 k'.backend := by
  obtain ⟨hsame, fresh⟩ := Compiled.fresh h hf written
  obtain ⟨hsame', ds, hds, hruns⟩ := h.run_ok hsame (by decide) ran
  exact ⟨hsame', fresh, h.forward_solves hf.staysInStep (hf.writesOnce h) fresh.layout hds hruns⟩

theorem Solving.untouched {start c : Backend α} {step count : Nat}
    (hc : m.Solving start step count c) {p : Place} (hp : m.Has p)
    (apart : p.side = .backward ∨ ∀ (i : Nat) (node : Node α),
      m.nodes[i]? = some node → node.output.index ≠ p.tensor) :
    m.values c p = m.values start p := by
  refine hc.other p hp fun i node s hi _ _ heq => ?_
  obtain hside | hheld := apart
  · rw [← heq] at hside
    cases hside
  · exact hheld i node hi (heq ▸ rfl)

end

/-- Values of all slots of all tensors, with entries in an algebra, that follow from one another as
the operators have it. -/
structure Agrees {R : Type} [CommRing R] [Algebra ℚ R] (m : Network ℚ) (v : Nat → Nat → Nat → R) :
    Prop where
  computed : ∀ (i : Nat) (node : Node ℚ) (step : Nat), m.nodes[i]? = some node →
    m.Active node step → v node.output.index step =
      node.op.image (m.shapeOf node.first) (m.shapeOf node.last) step
        (v node.first.index (m.slotOf node.first.index .current step))
        (v node.last.index (m.slotOf node.last.index .current step))
  idle : ∀ (i : Nat) (node : Node ℚ) (step : Nat), m.nodes[i]? = some node →
    m.Has ⟨node.output.index, .forward, step⟩ → step < node.timeOffset →
      v node.output.index step = 0

theorem Agrees.map {R S : Type} [CommRing R] [Algebra ℚ R] [CommRing S] [Algebra ℚ S]
    {m : Network ℚ} {v : Nat → Nat → Nat → R} (h : m.Agrees v) (φ : R →ₐ[ℚ] S) :
    m.Agrees fun x s i => φ (v x s i) where
  computed i node step hi hactive := by
    funext j
    rw [h.computed i node step hi hactive, Operator.map_image]
  idle i node step hi hhas hlt := by
    funext j
    rw [h.idle i node step hi hhas hlt]
    exact map_zero φ

variable [Inexact] {b : Backend ℚ} {n m k : Network ℚ} {batch i step : Nat} {node : Node ℚ}
  {start c : Backend ℚ}

/-- A compiled network of algebraic operators, whose kernels are told all numbers as they are. -/
structure Algebraic (m : Network ℚ) : Prop where
  lowered : Lowered m
  stepwise : m.FeedForward
  operators : ∀ (i : Nat) (node : Node ℚ), m.nodes[i]? = some node →
    node.op.Algebraic ∧ node.op.Told (m.shapeOf node.first) (m.shapeOf node.last)

theorem Compiled.algebraic (hn : Sketch b n) (h : Compiled n m batch)
    (howns : n.Each fun ts node => node.op.Algebraic ∧ node.Owns ts)
    (tellable : n.Tellable batch) : Algebraic m where
  lowered := h.lowered hn
  stepwise := h.feedForward fun i node hi => ⟨(howns i node hi).1.stepwise, (howns i node hi).2⟩
  operators _ _ hi := h.told hn howns tellable hi

def entries (m : Network ℚ) (c : Backend ℚ) (side : Side) (x s : Nat) : Nat → ℚ :=
  entry (m.values c ⟨x, side, s⟩)

/-- The buffers of all operators are long enough for them. -/
def Roomy (m : Network ℚ) : Prop :=
  ∀ (i : Nat) (node : Node ℚ) (step : Nat), m.nodes[i]? = some node → m.Active node step →
    node.op.Reaches (m.shapeOf node.first) (m.shapeOf node.last) (m.shapeOf node.first).elements
      (m.shapeOf node.last).elements (m.shapeOf node.output).elements

namespace Algebraic

/-- A forward pass that succeeds leaves values that agree with all operators. -/
theorem forward_agrees (h : Algebraic m) (fresh : m.Fresh start)
    (solving : m.Solving start m.maxSequence 0 c) :
    m.Agrees (m.entries c .forward) ∧ m.Roomy := by
  have hexact : ∀ (i : Nat) (node : Node ℚ) (step : Nat), m.nodes[i]? = some node →
      m.Active node step → m.entries c .forward node.output.index step =
          node.op.image (m.shapeOf node.first) (m.shapeOf node.last) step
            (m.entries c .forward node.first.index (m.slotOf node.first.index .current step))
            (m.entries c .forward node.last.index (m.slotOf node.last.index .current step)) ∧
        node.op.Reaches (m.shapeOf node.first) (m.shapeOf node.last)
          (m.shapeOf node.first).elements (m.shapeOf node.last).elements
          (m.shapeOf node.output).elements := by
    intro i node step hi hactive
    obtain ⟨hop, htold⟩ := h.operators i node hi
    have harity := (h.lowered.fitted i node hi).arity
    have htarget := h.stepwise.target hi hactive .forward
    obtain ⟨t, ht, -, hlt⟩ := id hactive
    have hsolved := solving.solved i node step hi ((h.stepwise.computes_iff hi).mpr hactive)
      (.inl (h.lowered.active_lt hi hactive))
    have hblank :
        m.values start (m.target .forward node step) = Array.replicate t.shape.elements 0 :=
      htarget ▸ fresh.blank i node t step hi ht hlt
    have hfirst := h.lowered.size_place solving.layout
      (h.lowered.has_current hi (Node.first_mem harity) .forward step)
    have hlast := h.lowered.size_place solving.layout
      (h.lowered.has_current hi (Node.last_mem harity) .forward step)
    have houtput := h.lowered.size_place fresh.layout (h.lowered.has_target hi .forward step)
    obtain ⟨data, hdata, hreaches, hentry⟩ := htold.forward_exact hop
      (fun j => by rw [hblank]; exact entry_replicate _ _) hsolved
    rw [hfirst, hlast, houtput] at hreaches
    refine ⟨?_, hreaches⟩
    simp only [List.cons.injEq, Prod.mk.injEq, true_and, and_true] at hdata
    rw [entries, ← htarget, hdata]
    exact hentry
  refine ⟨⟨fun i node step hi hactive => (hexact i node step hi hactive).1, ?_⟩,
    fun i node step hi hactive => (hexact i node step hi hactive).2⟩
  intro i node step hi hhas hlt
  have hother := solving.other _ hhas fun j other s hj hcomputes _ heq => by
    have hactive := (h.stepwise.computes_iff hj).mp hcomputes
    rw [h.stepwise.target hj hactive, Place.mk.injEq] at heq
    obtain rfl := h.lowered.output_inj h.stepwise hi hj heq.1
    rw [hi] at hj
    cases hj
    obtain ⟨-, -, hle, -⟩ := hactive
    omega
  obtain ⟨t, ht, -, hslot⟩ := hhas
  have hkind : t.slotCount = t.sequence := by
    rw [Tensor.slotCount, h.stepwise.kind_output hi ht]
    rfl
  funext j
  rw [entries, hother, fresh.blank i node t step hi ht (hkind ▸ hslot)]
  exact entry_replicate _ _

/-- Where the buffers are long enough, every forward pass succeeds. -/
theorem ready (h : Algebraic m) (roomy : m.Roomy) : m.Ready := by
  intro i node step hi hcomputes c hc
  obtain ⟨hop, htold⟩ := h.operators i node hi
  have harity := (h.lowered.fitted i node hi).arity
  refine htold.forward_succeeds hop ?_
  rw [h.lowered.size_place hc (h.lowered.has_current hi (Node.first_mem harity) .forward step),
    h.lowered.size_place hc (h.lowered.has_current hi (Node.last_mem harity) .forward step),
    h.lowered.size_place hc (h.lowered.has_target hi .forward step)]
  exact roomy i node step hi hcomputes.1

end Algebraic

end Network

end Backprop
