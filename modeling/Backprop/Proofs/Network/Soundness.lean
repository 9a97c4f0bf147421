import Mathlib
import Backprop.Proofs.Network.Progress
import Backprop.Proofs.Training.Course

/-! Graphs that are drawn over single rows never fail. They can be compiled for any batch, and then
their passes succeed in any order, whatever the memory of the device holds. -/

namespace Backprop.Network

variable {α : Type} [Scalar α] {b : Backend α} {config : NetworkConfig}
  {allowed : Operator α → Prop} {n m k : Network α} {batch auxiliary : Nat}

def Use.Plays : Use α → Prop
  | pass _ | clearBuffers | batchDone => True
  | _ => False

/-- Constants can always be drawn. -/
theorem Built.compile_succeeds (idle : b.Idle) (built : Built allowed (Network.new b config) n)
    (graph : n.OverRows) (registry : ∀ k : HostKernel, b.registry.contains k.name)
    (constant : ∀ p ∈ n.initializers, ∃ v, p.2 = .constant v) (bounded : n.Bounded (max batch 1)) :
    ∃ m, compile batch n = .ok ⟨⟩ m := by
  have hbatch : 0 < max batch 1 := Nat.lt_of_lt_of_le Nat.one_pos (Nat.le_max_right _ _)
  have idle' : Backend.Idle { b with validation := config.validate } :=
    ⟨idle.dispatches, idle.sound⟩
  obtain ⟨m, h⟩ := built.sketch.prepare_succeeds idle' registry bounded.storable fun h =>
    built.sized graph h hbatch bounded.windowed
  have hm := prepare_ok built.sketch.outline idle' h
  obtain ⟨m', hd⟩ | ⟨p, hp, g, e, m', hs, -⟩ := hm.outcome
  · exact ⟨_, compile_ok_iff_draws.mpr ⟨built.sketch.stage, m, m', h, hd, rfl⟩⟩
  · obtain ⟨v, hv⟩ := constant p hp
    have hnone : p.2.redraw? (n.shapeOf p.1) = none := by
      rw [hv]
      rfl
    obtain ⟨values, g', hok⟩ := Initializer.sample_of_not_redraw (g := g) hnone (hm.room hp)
    cases hok.symm.trans hs

theorem Compiled.plays {alignment : Nat} (hn : Sketch b n) (h : Compiled n m batch)
    (sized : Sized m) (used : m.Used k) (hd : m.Divided alignment auxiliary) {u : Use α}
    (hu : u.Plays) : ∃ k', u.call k = .ok ⟨⟩ k' ∧ m.Used k' := by
  cases u with
  | pass p => exact h.run_succeeds hn sized used p
  | clearBuffers => exact h.clear_succeeds hn used hd
  | batchDone =>
    obtain ⟨k₁, hupdate, used₁⟩ := h.run_succeeds hn sized used .update
    obtain ⟨k', hclear, used'⟩ := h.clear_succeeds hn used₁ hd
    exact ⟨k', Call.bind_ok_iff.mpr ⟨⟨⟩, k₁, hupdate, hclear⟩, used'⟩
  | readTensor | readGradient | readAuxiliary | writeTensor | writeSequence | writeGradient =>
    exact hu.elim

/-- A graph over rows whose numbers can be told to a kernel never fails: it is compiled for any
batch, and whatever the device holds, passes and ends of batches succeed in any order. -/
theorem Built.never_fails (idle : b.Idle) (built : Built allowed (Network.new b config) n)
    (graph : n.OverRows) (registry : ∀ k : HostKernel, b.registry.contains k.name)
    (constant : ∀ p ∈ n.initializers, ∃ v, p.2 = .constant v) (bounded : n.Bounded (max batch 1)) :
    ∃ m, compile batch n = .ok ⟨⟩ m ∧ ∀ k, m.Used k → ∀ uses : List (Use α),
      (∀ u ∈ uses, u.Plays) → ∃ k', uses.forM Use.call k = .ok ⟨⟩ k' ∧ m.Used k' := by
  have hbatch : 0 < max batch 1 := Nat.lt_of_lt_of_le Nat.one_pos (Nat.le_max_right _ _)
  obtain ⟨m, hm⟩ := built.compile_succeeds idle graph registry constant bounded
  have idle' : Backend.Idle { b with validation := config.validate } :=
    ⟨idle.dispatches, idle.sound⟩
  have hn := built.sketch
  have hcompiled := compile_ok hn.outline idle' hm
  have hdivided := compile_divided hn.outline idle' hm
  have hsized := built.sized graph hcompiled.expanded hbatch bounded.windowed
  refine ⟨m, hm, fun k used uses plays => ?_⟩
  apply Call.forM_succeeds _ used
  intro u hu k used
  exact hcompiled.plays hn hsized used hdivided (plays u hu)

/-- A product over two timesteps, its distance from labels, and a rule for the weights. -/
def fittedNetwork : Network Binary32 :=
  (Network.new Backend.host {}).draft
    [.createInput ⟨2, 1, 1, 1⟩ 2, .createParameter ⟨1, 2, 1, 1⟩ 1, .createInput ⟨1, 1, 1, 1⟩ 2,
      .addOperator .matMul [⟨0⟩, ⟨1⟩] 0, .addOperator .leastSquares [⟨3⟩, ⟨2⟩] 1,
      .initWeight ⟨1⟩ (.constant 1), .setOptimizer (.adamAt Optimizer.defaultAlpha)]

set_option maxRecDepth 100000 in
theorem fittedNetwork_never_fails : ∃ m k k', compile 3 fittedNetwork = .ok ⟨⟩ m ∧ m.Used k ∧
    [Use.pass .backward, .batchDone, .pass .forward].forM Use.call k = .ok ⟨⟩ k' := by
  have hbuilt : Built (fun _ => True) (Network.new Backend.host {}) fittedNetwork :=
    Built.start.draft fun c _ => by cases c <;> trivial
  have hconstant : ∀ p ∈ fittedNetwork.initializers, ∃ v, p.2 = .constant v := by
    have hinits : fittedNetwork.initializers = [(⟨1⟩, .constant 1)] := by decide +kernel
    intro p hp
    rw [hinits, List.mem_singleton] at hp
    exact ⟨1, by rw [hp]⟩
  have hbounded : fittedNetwork.Bounded (max 3 1) := by decide +kernel
  obtain ⟨m, hm, hruns⟩ := Built.never_fails Backend.host_idle hbuilt (by decide +kernel)
    Backend.host_registered hconstant hbounded
  have hused := Used.withContents m ⟨3⟩ #[]
  obtain ⟨k', hk', -⟩ := hruns _ hused [Use.pass .backward, .batchDone, .pass .forward]
    (by simp [Use.Plays])
  exact ⟨m, _, k', hm, hused, hk'⟩

/-- A maximum over a window that is larger than a kernel can be told, so that the kernel counts more
cells than the output has. -/
def wideWindow : Network Binary32 :=
  (Network.new Backend.host {}).draft
    [.createInput ⟨1, 1, 1, 1⟩ 1, .addOperator (.maxPool 2147483648 1 2147483649) [⟨0⟩] 0]

set_option maxRecDepth 100000 in
theorem wideWindow_fails : ∃ m e m',
    Built (fun _ => True) (Network.new Backend.host {}) wideWindow ∧ wideWindow.OverRows ∧
      wideWindow.initializers = [] ∧
      (∀ t ∈ wideWindow.tensors.mapIdx (wideWindow.batchTensor 1), t.shape.elements = 1) ∧
      compile 1 wideWindow = .ok ⟨⟩ m ∧ forward m = .error e m' := by
  have hm : compile 1 wideWindow = .ok ⟨⟩ (Call.after (compile 1) wideWindow) :=
    Call.ok_of_isOk (by decide +kernel)
  have hfails : Call.isOk (forward (Call.after (compile 1) wideWindow)) = false := by
    decide +kernel
  obtain ⟨e, he⟩ := Call.error_of_isOk hfails
  have hbuilt : Built (fun _ => True) (Network.new Backend.host {}) wideWindow :=
    Built.start.draft fun c _ => by cases c <;> trivial
  exact ⟨_, e, _, hbuilt, by decide +kernel, rfl, by decide +kernel, hm, he⟩

end Backprop.Network
