import Mathlib
import Backprop.Proofs.Network.Polynomials

/-! Gradients of parameters in exact arithmetic. The sum of all losses is a polynomial in the
entries of the parameters: every forward pass from the same inputs evaluates it, and a backward pass
leaves its partial derivatives in the gradients. -/

namespace Backprop.Network

open MvPolynomial

section

variable [Inexact] {b c start : Backend ℚ} {n m k k' k'' other : Network ℚ} {batch i : Nat}
  {node : Node ℚ} {x : TensorId} {config : NetworkConfig}

/-! ### Passes -/

theorem Built.lowered (idle : b.Idle) (built : Built Operator.Algebraic (Network.new b config) n)
    (compiled : compile batch n = .ok ⟨⟩ m) :
    Compiled n m (max batch 1) ∧ Lowered m ∧ m.FeedForward := by
  have hcompiled := compile_ok built.sketch.outline ⟨idle.dispatches, idle.sound⟩ compiled
  exact ⟨hcompiled, hcompiled.lowered built.sketch, hcompiled.feedForward fun i node hi =>
    ⟨(built.owns i node hi).1.stepwise, (built.owns i node hi).2⟩⟩

theorem Compiled.supervised (h : Compiled n m batch) (algebraic : Algebraic m)
    (supervised : n.Supervised) : m.LossesUnread ∧
      ∀ (i : Nat) (node : Node ℚ), m.nodes[i]? = some node → node.op = .leastSquares →
        ∃ t, m.tensors[node.last.index]? = some t ∧ t.kind = .input := by
  refine ⟨fun i node hi x hx hloss => ?_, fun i node hi hop => ?_⟩
  · obtain ⟨j, loss, hj, hred, rfl⟩ := exists_loss hloss
    obtain ⟨node', hi', -, hin, -⟩ := h.expanded.origin hi
    obtain ⟨loss', hj', hop', -, hout, -⟩ := h.expanded.origin hj
    rw [algebraic.reducesBatch_iff hj, hop'] at hred
    refine supervised.unread loss' (Array.mem_of_getElem? hj') hred node'
      (Array.mem_of_getElem? hi') ?_
    rwa [← hout, ← hin]
  · obtain ⟨node', hi', hop', hin, -⟩ := h.expanded.origin hi
    obtain ⟨t, ht, hk⟩ := Option.map_eq_some_iff.mp
      (supervised.labels node' (Array.mem_of_getElem? hi') (hop' ▸ hop))
    obtain ⟨u, hu, hs⟩ := h.tensor _ t ht
    rw [batchTensor_eq] at hs
    refine ⟨u, ?_, by rw [hs]; exact hk⟩
    rwa [Node.last, hin, ← Node.last]

theorem FeedForward.weighs_solved (hf : m.FeedForward) (h : Lowered m) {w : TensorId × Nat → ℚ}
    (hw : m.Weighs w start) (solving : m.Solving start m.maxSequence 0 c) : m.Weighs w c := by
  intro x hx i hi
  obtain ⟨t, ht, hk⟩ := id hx
  have hhas : m.Has ⟨x.index, .forward, 0⟩ :=
    ⟨t, ht, t.lives_forward, Tensor.slotCount_pos (h.sequence _ t ht).1⟩
  have hheld := hf.held ht (by simp [hk])
  rw [hw x hx i hi, entries, entries, solving.untouched hhas (.inr hheld)]

theorem Lowered.sameData (h : Lowered m) (stage : m.stage = .compiled) (hk : HostWritten m k)
    (hk' : HostWritten m k') (same : ∀ x t, m.tensor x = .ok t →
      t.kind = .input ∨ t.kind = .recurrent → ∀ step, k'.readings x step = k.readings x step) :
    m.SameData k.backend k'.backend := by
  intro x s hhas hx _
  obtain ⟨t, ht, hl, hlt⟩ := id hhas
  rw [entries, entries]
  refine congrArg entry ?_
  have hread : ∀ {e : Network ℚ}, HostWritten m e →
      e.readings ⟨x⟩ s = .ok (m.values e.backend ⟨x, .forward, s⟩) := fun he =>
    h.readings (x := ⟨x⟩) stage (h.written_same he) hhas
  cases hkind : t.kind with
  | input =>
    have hsame := same ⟨x⟩ t (tensor_ok_iff.mpr ht) (.inl hkind) s
    rw [hread hk, hread hk'] at hsame
    exact (Except.ok.inj hsame).symm
  | recurrent =>
    have hsame := same ⟨x⟩ t (tensor_ok_iff.mpr ht) (.inr hkind) s
    rw [hread hk, hread hk'] at hsame
    exact (Except.ok.inj hsame).symm
  | parameter => exact absurd ⟨t, ht, hkind⟩ hx
  | intermediate =>
    rw [h.written_keeps hk ht hhas (.inr (.inl hkind)),
      h.written_keeps hk' ht hhas (.inr (.inl hkind))]
  | scratch =>
    rw [h.written_keeps hk ht hhas (.inr (.inr hkind)),
      h.written_keeps hk' ht hhas (.inr (.inr hkind))]

theorem Compiled.solved (hc : Compiled n m batch) (h : Lowered m) (hf : m.FeedForward)
    (fresh : m.Fresh start) (solving : m.Solving start m.maxSequence 0 c)
    (hi : n.nodes[i]? = some node) (hoff : node.timeOffset = 0) (hmax : 0 < m.maxSequence) :
    (∀ j, entry (m.values start ⟨node.output.index, .forward, 0⟩) j = 0) ∧
      node.op.forwardKernel.run (node.op.forwardOperands (m.shapeOf node.first)
        (m.shapeOf node.last) (m.shapeOf node.output) 0
        (m.values c (m.current .forward node.first 0)) (m.values c (m.current .forward node.last 0))
        (m.values start ⟨node.output.index, .forward, 0⟩)) =
          .ok [(node.op.arity, m.values c ⟨node.output.index, .forward, 0⟩)] := by
  obtain ⟨⟨_, _, _, _, _, _, _⟩, hi', rfl, rfl, rfl, rfl⟩ := hc.counterpart hi
  obtain ⟨t, ht, -⟩ := (h.fitted i _ hi').output
  have hactive : m.Active _ 0 := ⟨t, ht, hoff.le, (h.sequence _ t ht).1⟩
  have hsolved := solving.solved i _ 0 hi' ((hf.computes_iff hi').mpr hactive) (.inl hmax)
  rw [Solved, hf.target hi' hactive] at hsolved
  refine ⟨fun j => ?_, hsolved⟩
  rw [fresh.blank i _ t 0 hi' ht (h.sequence _ t ht).1]
  exact entry_replicate _ _

theorem Algebraic.evaluates_losses (h : Algebraic m) (roomy : m.Roomy) (stage : m.stage = .compiled)
    (written : HostWritten m k) (hother : HostWritten m other)
    (same : ∀ x t, m.tensor x = .ok t → t.kind = .input ∨ t.kind = .recurrent → ∀ step,
      other.readings x step = k.readings x step) : ∃ after, forward other = .ok ⟨⟩ after ∧
      after.totalLoss = .ok (eval other.weights (m.lossOf (m.polynomials k.backend))) := by
  obtain ⟨hsame, fresh⟩ := Compiled.fresh h.lowered h.stepwise hother
  obtain ⟨after, hran, hafter, solving⟩ := h.lowered.forward_equations h.stepwise.staysInStep
    (h.stepwise.writesOnce h.lowered) (h.ready roomy) stage hsame
  refine ⟨after, hran, ?_⟩
  have hdata : m.SameData k.backend after.backend := fun x s hhas hx hheld =>
    (h.lowered.sameData stage written hother same x s hhas hx hheld).trans
      (congrArg entry (solving.untouched hhas (.inr hheld)).symm)
  have hweighs := h.stepwise.weighs_solved h.lowered (h.lowered.weighs stage hsame) solving
  have hagrees := (h.forward_agrees fresh solving).1
  have hlayout := (h.lowered.written_same written).layout
  rw [h.lowered.totalLoss_ok h.stepwise stage hafter, map_lossOf, ← coe_aeval_eq_eval]
  refine congrArg _ (h.lossOf_congr fun x s hhas => ?_)
  exact (h.aeval_polynomials hlayout hafter.layout hweighs hagrees hdata hhas).symm

/-- A backward pass leaves a partial derivative in the gradient of a parameter. -/
theorem Algebraic.gradient_eq (h : Algebraic m) (stage : m.stage = .compiled)
    (unread : m.LossesUnread)
    (labels : ∀ (i : Nat) (node : Node ℚ), m.nodes[i]? = some node → node.op = .leastSquares →
      ∃ t, m.tensors[node.last.index]? = some t ∧ t.kind = .input)
    (written : HostWritten m k) (ran : forward k = .ok ⟨⟩ k') (swept : backward k' = .ok ⟨⟩ k'')
    (hx : IsParameter m.tensors x) (hi : i < (m.shapeOf x).elements) :
    m.entries k''.backend .backward x.index 0 i =
      eval k.weights (pderiv (x, i) (m.lossOf (m.polynomials k.backend))) := by
  obtain ⟨t, ht, hk⟩ := id hx
  obtain ⟨hsame, fresh, solving⟩ := h.stepwise.forward_solves h.lowered written ran
  obtain ⟨agrees, roomy⟩ := h.forward_agrees fresh solving
  obtain ⟨-, ds, hds, hruns⟩ := h.lowered.run_ok hsame (by decide) swept
  have hdata : m.SameData k.backend k'.backend := fun x s hhas _ hheld =>
    congrArg entry (solving.untouched hhas (.inr hheld)).symm
  have hweighs := h.stepwise.weighs_solved h.lowered
    (h.lowered.weighs stage (h.lowered.written_same written)) solving
  have hvaried := h.varied (x, i) fresh.layout hsame.layout hweighs agrees hdata labels
  have hblank : ∀ p, m.Has p → p.side = .backward → entry (m.values k'.backend p) = 0 := by
    intro p hp hside
    obtain ⟨u, hu, -⟩ := id hp
    funext j
    rw [solving.untouched hp (.inl hside), h.lowered.written_keeps written hu hp (.inl hside),
      h.lowered.blank hu hp fun _ => hside]
    exact entry_replicate _ _
  have hswept := (hvaried.sweeping h hsame.layout hblank).all hvaried h roomy unread hds hruns
  have hhas : m.Has ⟨x.index, .backward, 0⟩ :=
    ⟨t, ht, fun _ => by rw [hk]; rfl, Tensor.slotCount_pos (h.lowered.sequence _ t ht).1⟩
  exact hswept.gradient h hhas rfl (h.stepwise.held ht (by simp [hk])) hi fun q hq hside held =>
    variation_held k.weights hx hi hq hside held

/-- The sum of all losses is a polynomial in the entries of the parameters: whatever the host has
put there, a forward pass from the inputs and states of the first network comes to its value. In the
second network the gradient of every parameter consists of the partial derivatives. -/
def Differentiates (m k k'' : Network ℚ) : Prop :=
  ∃ loss : MvPolynomial (TensorId × Nat) ℚ,
    (∀ other, HostWritten m other → (∀ x t, m.tensor x = .ok t →
        t.kind = .input ∨ t.kind = .recurrent → ∀ step,
          other.readings x step = k.readings x step) →
      ∃ after, forward other = .ok ⟨⟩ after ∧ after.totalLoss = .ok (eval other.weights loss)) ∧
    ∀ x t, m.tensor x = .ok t → t.kind = .parameter →
      ∃ gradient, readGradient x 0 k'' = .ok gradient k'' ∧
        gradient.size = t.shape.elements ∧ ∀ i < t.shape.elements,
          entry gradient i = eval k.weights (pderiv (x, i) loss)

/-- A backward pass after a forward pass leaves the derivatives of the losses. -/
theorem Built.backward_differentiates (idle : b.Idle)
    (built : Built Operator.Algebraic (Network.new b config) n) (supervised : n.Supervised)
    (tellable : n.Tellable (max batch 1)) (compiled : compile batch n = .ok ⟨⟩ m)
    (written : HostWritten m k) (ran : forward k = .ok ⟨⟩ k') (swept : backward k' = .ok ⟨⟩ k'') :
    m.Differentiates k k'' := by
  have hcompiled := (built.lowered idle compiled).1
  have h := hcompiled.algebraic built.sketch built.owns tellable
  obtain ⟨unread, labels⟩ := hcompiled.supervised h supervised
  obtain ⟨hsame, fresh, solving⟩ := h.stepwise.forward_solves h.lowered written ran
  have roomy := (h.forward_agrees fresh solving).2
  have hswept := (h.lowered.run_ok hsame (by decide) swept).1
  refine ⟨m.lossOf (m.polynomials k.backend), fun other hother same =>
    h.evaluates_losses roomy hcompiled.stage written hother same, fun x t ht hk => ?_⟩
  have ht' := tensor_ok_iff.mp ht
  have hhas : m.Has ⟨x.index, .backward, 0⟩ :=
    ⟨t, ht', fun _ => by rw [hk]; rfl, Tensor.slotCount_pos (h.lowered.sequence _ t ht').1⟩
  have hshape := Network.shapeOf_eq ht'
  refine ⟨_, h.lowered.readGradient_ok hcompiled.stage hswept hhas,
    hshape ▸ h.lowered.size_place hswept.layout hhas, fun i hi => ?_⟩
  exact h.gradient_eq hcompiled.stage unread labels written ran swept ⟨t, ht', hk⟩ (hshape ▸ hi)

end

/-- Least squares over two timesteps, of a product with one parameter. -/
def regression : Network ℚ :=
  (Network.new Backend.host {}).draft
    [.createInput ⟨2, 1, 1, 1⟩ 2, .createParameter ⟨1, 2, 1, 1⟩ 1,
      .addOperator .matMul [⟨0⟩, ⟨1⟩] 0, .createInput ⟨1, 1, 1, 1⟩ 2,
      .addOperator .leastSquares [⟨2⟩, ⟨3⟩] 0]

def regressionWritten : Network ℚ :=
  letI : Inexact := Kernel.noFunctions
  HostWrite.perform (.tensor ⟨1⟩ 0 #[3, 1])
    (HostWrite.perform (.tensor ⟨3⟩ 1 #[4])
      (HostWrite.perform (.sequence ⟨0⟩ #[2, -1, 1, 5] 2) (Call.after (compile 1) regression)))

theorem regression_differentiates :
    letI : Inexact := Kernel.noFunctions
    ∃ m k' k'', compile 1 regression = .ok ⟨⟩ m ∧ HostWritten m regressionWritten ∧
      forward regressionWritten = .ok ⟨⟩ k' ∧ backward k' = .ok ⟨⟩ k'' ∧
      m.Differentiates regressionWritten k'' ∧ ∃ n, readGradient ⟨1⟩ 0 k'' = .ok #[14, 15] n := by
  let _ : Inexact := Kernel.noFunctions
  obtain ⟨hm, hran, hswept, hread⟩ : Call.isOk (compile 1 regression) ∧
      Call.isOk (forward regressionWritten) ∧
      Call.isOk (backward (Call.after forward regressionWritten)) ∧
      Call.answer? (readGradient ⟨1⟩ 0 (Call.after backward
        (Call.after forward regressionWritten))) = some #[14, 15] := by decide +kernel
  have hsupervised : regression.Supervised ∧ regression.Tellable 1 := by decide +kernel
  have hbuilt : Built Operator.Algebraic (Network.new Backend.host {}) regression :=
    Built.start.draft fun c hc => by
      simp only [List.mem_cons, List.not_mem_nil, or_false] at hc
      obtain rfl | rfl | rfl | rfl | rfl := hc <;> trivial
  have hwritten : HostWritten (Call.after (compile 1) regression) regressionWritten :=
    .write _ (by decide +kernel)
      (.write _ (by decide +kernel) (.write _ (by decide +kernel) .start))
  have hm := Call.ok_of_isOk hm
  have hran := Call.ok_of_isOk hran
  have hswept := Call.ok_of_isOk hswept
  exact ⟨_, _, _, hm, hwritten, hran, hswept, Built.backward_differentiates Backend.host_idle
    hbuilt hsupervised.1 hsupervised.2 hm hwritten hran hswept, _, Call.ok_of_answer? hread⟩

/-! ### A padding beyond what a kernel can be told -/

/-- Least squares of a convolution of two parameters, whose padding is more than a kernel can be
told. -/
def overpaddedFit : Network ℚ :=
  (Network.new Backend.host {}).draft
    [.createParameter ⟨1, 1, 1, 1⟩ 1, .createParameter ⟨1, 1, 1, 1⟩ 1,
      .addOperator (.conv2d (.explicit 2147483648) 2147483647) [⟨0⟩, ⟨1⟩] 0,
      .createInput ⟨3, 3, 1, 1⟩ 1, .addOperator .leastSquares [⟨2⟩, ⟨3⟩] 0]

def overpaddedCompiled : Network ℚ :=
  letI : Inexact := Kernel.noFunctions
  Call.after (compile 1) overpaddedFit

/-- The second parameter is one, and all labels are zero. -/
def overpaddedFirst : Network ℚ := HostWrite.perform (.tensor ⟨1⟩ 0 #[1]) overpaddedCompiled

def overpaddedWritten (t : ℚ) : Network ℚ := HostWrite.perform (.tensor ⟨0⟩ 0 #[t]) overpaddedFirst

/-- The network compiles, and its tensors are where the host looks for them. -/
theorem overpaddedFit_layout :
    letI : Inexact := Kernel.noFunctions
    Call.isOk (compile 1 overpaddedFit) ∧ overpaddedCompiled.IsHeld ⟨1⟩ ∧
      overpaddedFirst.IsHeld ⟨0⟩ ∧ IsParameter overpaddedCompiled.tensors ⟨0⟩ ∧
      (∀ x < 2, overpaddedCompiled.shapeOf ⟨x⟩ = ⟨1, 1, 1, 1⟩) ∧
      (∀ x < 4, 2 ≤ x → overpaddedCompiled.shapeOf ⟨x⟩ = ⟨3, 3, 1, 1⟩) ∧
      (∀ x < 4, overpaddedCompiled.current .forward ⟨x⟩ 0 = ⟨x, .forward, 0⟩) ∧
      (∀ node ∈ overpaddedCompiled.nodes, node.output.index = 2 ∨ node.output.index = 4) ∧
      overpaddedCompiled.losses = [(⟨4⟩, 0)] ∧ 0 < overpaddedCompiled.maxSequence ∧
      4 < overpaddedCompiled.tensors.size := by
  decide +kernel

theorem overpaddedFit_lowered :
    letI : Inexact := Kernel.noFunctions
    Compiled overpaddedFit overpaddedCompiled 1 ∧ Lowered overpaddedCompiled ∧
      overpaddedCompiled.FeedForward := by
  let _ : Inexact := Kernel.noFunctions
  have hbuilt : Built Operator.Algebraic (Network.new Backend.host {}) overpaddedFit :=
    Built.start.draft fun c hc => by
      simp only [List.mem_cons, List.not_mem_nil, or_false] at hc
      obtain rfl | rfl | rfl | rfl | rfl := hc <;> trivial
  exact hbuilt.lowered Backend.host_idle (Call.ok_of_isOk overpaddedFit_layout.1)

/-- What a kernel is told of the convolution. -/
def overpaddedTold : Kernel.Convolution := ⟨1, 1, 3, 3, ⟨1, 1, 1, 1⟩, 2147483647, 2147483647, 1⟩

theorem overpaddedTold_image (x y : Nat → ℚ) :
    Kernel.convolutionImage overpaddedTold x y = Pi.single 4 (x 0 * y 0) := by
  have hout : overpaddedTold.outputs = 9 := by decide
  funext r
  by_cases hr : r < 9
  · have hin : overpaddedTold.inputs = 1 := by decide
    have hk : overpaddedTold.k.size = 1 := by decide
    have hlive : overpaddedTold.Live 0 0 r ↔ r = 4 := by
      rw [Kernel.Convolution.live_iff (hin ▸ Nat.one_pos) (hk ▸ Nat.one_pos)]
      refine ⟨fun ⟨_, _, _, hx, hy⟩ => ?_, ?_⟩
      · simp only [overpaddedTold] at hx hy
        omega
      · rintro rfl
        exact ⟨rfl, rfl, rfl, rfl, rfl⟩
    rw [Kernel.convolutionImage, Kernel.cut_of_lt (hout ▸ hr), hin, hk]
    simp only [Finset.sum_range_one, hlive, Pi.single_apply]
  · rw [Kernel.convolutionImage, Kernel.cut_of_le (hout ▸ Nat.le_of_not_lt hr), Pi.single_eq_of_ne]
    omega

theorem overpaddedFit_loss {k k' : Network ℚ} (written : HostWritten overpaddedCompiled k)
    (ran : letI : Inexact := Kernel.noFunctions; forward k = .ok ⟨⟩ k')
    (label : ∀ j, k.weights (⟨3⟩, j) = 0) :
    k'.totalLoss = .ok ((k.weights (⟨0⟩, 0) * k.weights (⟨1⟩, 0)) ^ 2 / 2) := by
  let _ : Inexact := Kernel.noFunctions
  obtain ⟨hcompiled, h, hf⟩ := overpaddedFit_lowered
  obtain ⟨-, -, -, -, hshape, hshape', hcurrent, houtputs, hlosses, hmax, hsize⟩ :=
    overpaddedFit_layout
  generalize overpaddedCompiled = m at *
  obtain ⟨hsame, fresh, solving⟩ := hf.forward_solves h written ran
  have hkeeps : ∀ x < 4, x ≠ 2 →
      entry (m.values k'.backend ⟨x, .forward, 0⟩) = fun j => k.weights (⟨x⟩, j) := by
    intro x hx hne
    have ht := Array.getElem?_eq_getElem (hx.trans hsize)
    refine (congrArg entry ?_).trans (funext fun j =>
      (h.weights_eq (x := ⟨x⟩) hcompiled.stage (h.written_same written) ht j).symm)
    refine solving.untouched ⟨_, ht, Tensor.lives_forward _,
      Tensor.slotCount_pos (h.sequence _ _ ht).1⟩ (.inr fun i node hi hout => ?_)
    obtain hout' | hout' := houtputs node (Array.mem_of_getElem? hi) <;> simp only at hout <;> omega
  have hfirst : overpaddedFit.nodes[0]? = some
      ⟨.conv2d (.explicit 2147483648) 2147483647, [⟨0⟩, ⟨1⟩], ⟨2⟩, 0, [], [], []⟩ := rfl
  have hsecond : overpaddedFit.nodes[1]? = some
      ⟨.leastSquares, [⟨2⟩, ⟨3⟩], ⟨4⟩, 0, [], [], []⟩ := rfl
  obtain ⟨hblank, hconv⟩ := hcompiled.solved h hf fresh solving hfirst rfl hmax
  obtain ⟨hblank', hfit⟩ := hcompiled.solved h hf fresh solving hsecond rfl hmax
  change HostKernel.run _ (Operator.forwardOperands _ (m.shapeOf ⟨0⟩) (m.shapeOf ⟨1⟩) _ _
    (m.values k'.backend (m.current .forward ⟨0⟩ 0))
    (m.values k'.backend (m.current .forward ⟨1⟩ 0)) _) = _ at hconv
  change HostKernel.run _ (Operator.forwardOperands _ (m.shapeOf ⟨2⟩) (m.shapeOf ⟨3⟩) _ _
    (m.values k'.backend (m.current .forward ⟨2⟩ 0))
    (m.values k'.backend (m.current .forward ⟨3⟩ 0)) _) = _ at hfit
  rw [hshape 0 (by decide), hshape 1 (by decide), hcurrent 0 (by decide),
    hcurrent 1 (by decide)] at hconv
  rw [hshape' 2 (by decide) (by decide), hshape' 3 (by decide) (by decide),
    hcurrent 2 (by decide), hcurrent 3 (by decide)] at hfit
  obtain ⟨image, himage, -, hproduct⟩ := Kernel.Convolution.convolution_exact (o := ⟨_, _⟩)
    (c := overpaddedTold) ⟨by decide, by decide⟩
    (by simp [Kernel.Convolution.Tellable, overpaddedTold]) rfl hblank hconv
  have htold : (.leastSquares : Operator ℚ).Told ⟨3, 3, 1, 1⟩ ⟨3, 3, 1, 1⟩ :=
    ⟨by decide, by decide, by rintro _ _ ⟨⟩⟩
  obtain ⟨loss, hloss, -, hsum⟩ := htold.forward_exact trivial hblank' hfit
  simp only [List.cons.injEq, Prod.mk.injEq, and_true] at himage hloss
  rw [← himage.2, overpaddedTold_image, hkeeps 0 (by decide) (by decide),
    hkeeps 1 (by decide) (by decide)] at hproduct
  rw [← hloss.2, hproduct, hkeeps 3 (by decide) (by decide), funext label] at hsum
  rw [h.totalLoss_ok hf hcompiled.stage hsame, lossOf, hlosses]
  simp only [List.map_cons, List.map_nil, List.sum_cons, List.sum_nil, add_zero]
  rw [entries, hsum]
  simp only [Operator.image, Kernel.squaredErrorImage, Kernel.cut_of_lt Nat.one_pos, sub_zero]
  rw [Finset.sum_eq_single_of_mem 4 (by decide) fun p _ hp => by
    rw [Pi.single_eq_of_ne hp, mul_zero], Pi.single_eq_same]
  refine congrArg Except.ok ?_
  simp only [max_self, Nat.cast_one, mul_one, smul_eq_mul]
  ring

theorem overpaddedWritten_reads (t : ℚ) : HostWritten overpaddedCompiled (overpaddedWritten t) ∧
    (∀ i, (overpaddedWritten t).weights (⟨0⟩, i) = entry #[t] i) ∧
      ∀ x ≠ ⟨0⟩, ∀ step,
        (overpaddedWritten t).readings x step = overpaddedFirst.readings x step := by
  let _ : Inexact := Kernel.noFunctions
  obtain ⟨hcompiled, h, -⟩ := overpaddedFit_lowered
  obtain ⟨-, hheld, hheld', hparameter, hshape, -⟩ := overpaddedFit_layout
  have hfirst : HostWritten overpaddedCompiled overpaddedFirst := .write _ hheld .start
  exact ⟨.write (.tensor ⟨0⟩ 0 #[t]) hheld' hfirst, h.perform_parameter hcompiled.stage
    (h.written_same hfirst) hparameter (hshape 0 (by decide) ▸ rfl)⟩

theorem overpaddedWritten_weights (t : ℚ) : (overpaddedWritten t).weights =
    Function.update (overpaddedWritten 1).weights (⟨0⟩, 0) t := by
  obtain ⟨-, hfirst, hother⟩ := overpaddedWritten_reads t
  obtain ⟨-, hfirst', hother'⟩ := overpaddedWritten_reads 1
  funext ⟨x, i⟩
  by_cases hx : x = ⟨0⟩
  · subst hx
    cases i with
    | zero =>
      rw [Function.update_self]
      exact hfirst 0
    | succ i =>
      rw [Function.update_of_ne (by simp)]
      exact (hfirst _).trans (hfirst' _).symm
  · rw [Function.update_of_ne fun heq => hx (Prod.mk.inj heq).1]
    exact weights_congr ((hother x hx 0).trans (hother' x hx 0).symm) i

theorem overpaddedWritten_loss {t : ℚ} {k : Network ℚ}
    (ran : letI : Inexact := Kernel.noFunctions; forward (overpaddedWritten t) = .ok ⟨⟩ k) :
    k.totalLoss = .ok (t ^ 2 / 2) := by
  obtain ⟨hwritten, hfirst, hother⟩ := overpaddedWritten_reads t
  obtain ⟨hsecond, hlabel⟩ : overpaddedFirst.weights (⟨1⟩, 0) = 1 ∧
      overpaddedFirst.readings ⟨3⟩ 0 = .ok (Array.replicate 9 0) := by decide +kernel
  have hlabels : ∀ j, (overpaddedWritten t).weights (⟨3⟩, j) = 0 := fun j => by
    rw [weights, hother ⟨3⟩ (by decide) 0, hlabel]
    exact entry_replicate _ _
  have hloss := overpaddedFit_loss hwritten ran hlabels
  rw [hfirst 0, weights_congr (hother ⟨1⟩ (by decide) 0) 0, hsecond, mul_one] at hloss
  exact hloss

theorem overpaddedFit_not_differentiates :
    letI : Inexact := Kernel.noFunctions
    ∃ m k' k'', compile 1 overpaddedFit = .ok ⟨⟩ m ∧ HostWritten m (overpaddedWritten 1) ∧
      forward (overpaddedWritten 1) = .ok ⟨⟩ k' ∧ backward k' = .ok ⟨⟩ k'' ∧
      ¬m.Differentiates (overpaddedWritten 1) k'' := by
  let _ : Inexact := Kernel.noFunctions
  obtain ⟨hran, hswept, hread⟩ : Call.isOk (forward (overpaddedWritten 1)) ∧
      Call.isOk (backward (Call.after forward (overpaddedWritten 1))) ∧
      Call.answer? (readGradient ⟨0⟩ 0 (Call.after backward
        (Call.after forward (overpaddedWritten 1)))) = some #[0] := by decide +kernel
  obtain ⟨hm, -, -, ⟨t, ht, hk⟩, hshape, -⟩ := overpaddedFit_layout
  refine ⟨_, _, _, Call.ok_of_isOk hm, (overpaddedWritten_reads 1).1, Call.ok_of_isOk hran,
    Call.ok_of_isOk hswept, ?_⟩
  have hone := shapeOf_eq ht ▸ hshape 0 (by decide)
  rintro ⟨loss, heval, hgrad⟩
  have hline : ∀ s : ℚ, eval (Function.update (overpaddedWritten 1).weights (⟨0⟩, 0) s) loss =
      (Polynomial.C (1 / 2 : ℚ) * Polynomial.X ^ 2).eval s := by
    intro s
    have hsame : ∀ x u, overpaddedCompiled.tensor x = .ok u →
        u.kind = .input ∨ u.kind = .recurrent → ∀ step,
          (overpaddedWritten s).readings x step = (overpaddedWritten 1).readings x step := by
      intro x u hu hkind step
      have hne : x ≠ ⟨0⟩ := by
        rintro rfl
        rw [tensor_ok_iff, ht] at hu
        cases hu
        simp [hk] at hkind
      exact ((overpaddedWritten_reads s).2.2 x hne step).trans
        ((overpaddedWritten_reads 1).2.2 x hne step).symm
    obtain ⟨after, hran, htotal⟩ := heval _ (overpaddedWritten_reads s).1 hsame
    rw [overpaddedWritten_loss hran, Except.ok.injEq, overpaddedWritten_weights s] at htotal
    rw [← htotal]
    simp only [Polynomial.eval_mul, Polynomial.eval_C, Polynomial.eval_pow, Polynomial.eval_X]
    ring
  have hderivative := eval_pderiv_of_line hline
  obtain ⟨gradient, hgradient, -, hentry⟩ := hgrad ⟨0⟩ t (tensor_ok_iff.mpr ht) hk
  rw [Call.ok_of_answer? hread, EStateM.Result.ok.injEq] at hgradient
  have hzero := hentry 0 (hone ▸ Nat.one_pos)
  rw [hderivative, ← hgradient.1, (overpaddedWritten_reads 1).2.1 0] at hzero
  simp [entry] at hzero

end Backprop.Network
