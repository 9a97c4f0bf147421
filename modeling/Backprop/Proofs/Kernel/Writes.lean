import Mathlib
import Backprop.Kernel.Catalogue
import Backprop.Proofs.Kernel.Loop

/-! Which arguments a kernel writes. A launch that succeeds answers exactly these, each
as long as it was before. -/

namespace Backprop

variable {α : Type}

/-- The changed buffers are arguments `outputs`, and none has another length than before. -/
def Operands.Changes (o : Operands α) (outputs : List Nat) (ws : Writes α) : Prop :=
  ws.map (·.1) = outputs ∧
    ∀ c ∈ ws, ∃ old, o.args[c.1]? = some (.words old) ∧ c.2.size = old.size

theorem Operands.Changes.single {o : Operands α} {i n : Nat} {old data : Array α}
    (h : o.words i n = .ok old) (hs : data.size = old.size) : o.Changes [i] [(i, data)] := by
  refine ⟨rfl, fun c hc => ?_⟩
  rw [List.mem_singleton.mp hc]
  exact ⟨old, (words_ok_iff.mp h).1, hs⟩

namespace Kernel

variable [Scalar α] {o : Operands α} {ws : Writes α}

omit [Scalar α] in
theorem copy_changes (h : copy o = .ok ws) : o.Changes [1] ws := by
  simp only [copy, Except.bind_ok_iff, Except.pure_ok_iff] at h
  obtain ⟨n, -, out, hout, a, -, data, hdata, rfl⟩ := h
  exact .single hout (updateFirst_size hdata)

theorem copyAdd_changes (h : copyAdd o = .ok ws) : o.Changes [1] ws := by
  simp only [copyAdd, Except.bind_ok_iff, Except.pure_ok_iff] at h
  obtain ⟨n, -, out, hout, a, -, data, hdata, rfl⟩ := h
  exact .single hout (updateFirst_size hdata)

omit [Scalar α] in
theorem combine_changes {f : α → α → α → α} (h : combine f o = .ok ws) : o.Changes [2] ws := by
  simp only [combine, Except.bind_ok_iff, Except.pure_ok_iff] at h
  obtain ⟨n, -, out, hout, a, -, b, -, data, hdata, rfl⟩ := h
  exact .single hout (updateFirst_size hdata)

theorem subtractFromConst_changes (h : subtractFromConst o = .ok ws) : o.Changes [1] ws := by
  simp only [subtractFromConst, Except.bind_ok_iff, Except.pure_ok_iff] at h
  obtain ⟨constant, -, n, -, out, hout, a, -, data, hdata, rfl⟩ := h
  exact .single hout (updateFirst_size hdata)

theorem subtractFromConstGrad_changes (h : subtractFromConstGrad o = .ok ws) :
    o.Changes [1] ws := by
  simp only [subtractFromConstGrad, Except.bind_ok_iff, Except.pure_ok_iff] at h
  obtain ⟨n, -, dx, hdx, dy, -, data, hdata, rfl⟩ := h
  exact .single hdx (updateFirst_size hdata)

theorem addToMatrix_changes (h : addToMatrix o = .ok ws) : o.Changes [2] ws := by
  simp only [addToMatrix, Except.bind_ok_iff, Except.pure_ok_iff] at h
  obtain ⟨cols, -, rows, -, out, hout, a, -, bias, -, data, hdata, rfl⟩ := h
  exact .single hout (updateFirst_size hdata)

theorem addToMatrixGrad_changes (h : addToMatrixGrad o = .ok ws) : o.Changes [1] ws := by
  simp only [addToMatrixGrad, Except.bind_ok_iff, Except.pure_ok_iff] at h
  obtain ⟨cols, -, rows, -, dbias, hbias, dy, -, data, hdata, rfl⟩ := h
  exact .single hbias (updateFirst_size hdata)

theorem addToImage_changes (h : addToImage o = .ok ws) : o.Changes [2] ws := by
  simp only [addToImage, Except.bind_ok_iff, Except.pure_ok_iff] at h
  obtain ⟨plane, -, channels, -, batch, -, out, hout, a, -, bias, -, data, hdata, rfl⟩ := h
  exact .single hout (updateFirst_size hdata)

theorem addToImageGrad_changes (h : addToImageGrad o = .ok ws) : o.Changes [1] ws := by
  simp only [addToImageGrad, Except.bind_ok_iff, Except.pure_ok_iff] at h
  obtain ⟨plane, -, channels, -, batch, -, dbias, hbias, dy, -, data, hdata, rfl⟩ := h
  exact .single hbias (updateFirst_size hdata)

theorem appendId_changes (h : appendId o = .ok ws) : o.Changes [0] ws := by
  simp only [appendId, Except.bind_ok_iff] at h
  obtain ⟨id, -, log, hlog, head, -, _, -, h⟩ := h
  split at h
  · simp only [Except.bind_ok_iff, Except.pure_ok_iff, write_ok_iff] at h
    obtain ⟨once, ⟨-, rfl⟩, twice, hupdate, rfl⟩ := h
    exact .single hlog ((update_size hupdate).trans Array.size_setIfInBounds)
  · rw [Except.pure_ok_iff] at h
    subst h
    exact .single hlog rfl

omit [Scalar α] in
theorem activation_changes {f : α → α} (h : activation f o = .ok ws) : o.Changes [1] ws := by
  simp only [activation, Except.bind_ok_iff, Except.pure_ok_iff] at h
  obtain ⟨n, -, out, hout, a, -, data, hdata, rfl⟩ := h
  exact .single hout (updateFirst_size hdata)

theorem activationGrad_changes {f : α → α} (h : activationGrad f o = .ok ws) :
    o.Changes [2] ws := by
  simp only [activationGrad, Except.bind_ok_iff, Except.pure_ok_iff] at h
  obtain ⟨n, -, dx, hdx, saved, -, dy, -, data, hdata, rfl⟩ := h
  exact .single hdx (updateFirst_size hdata)

theorem product_size {a b c d : Array α} {m n k : Nat} {x y : α}
    (h : product a b c m n k x y = .ok d) : d.size = c.size :=
  loop_induct (P := fun _ d => d.size = c.size) rfl
    (fun _ _ _ _ hs hstep => (updateSpan_size hstep).trans hs) h

theorem matrixProductWith_changes {beta : α} (h : matrixProductWith beta o = .ok ws) :
    o.Changes [2] ws := by
  simp only [matrixProductWith, Except.bind_ok_iff, Except.pure_ok_iff] at h
  obtain ⟨m, -, n, -, k, -, c, hc, a, -, b, -, data, hdata, rfl⟩ := h
  exact .single hc (product_size hdata)

omit [Scalar α] in
theorem transpose_changes (h : transpose o = .ok ws) : o.Changes [1] ws := by
  simp only [transpose, Except.bind_ok_iff, Except.pure_ok_iff] at h
  obtain ⟨cols, -, rows, -, _, -, out, hout, a, -, data, hdata, rfl⟩ := h
  exact .single hout (updateFirst_size hdata)

theorem softmaxRow_size {a out out' : Array α} {start cols : Nat}
    (h : softmaxRow a out start cols = .ok out') : out'.size = out.size := by
  simp only [softmaxRow, Except.bind_ok_iff] at h
  obtain ⟨top, -, sum, -, h⟩ := h
  exact updateSpan_size h

theorem softmax_changes (h : softmax o = .ok ws) : o.Changes [1] ws := by
  simp only [softmax, Except.bind_ok_iff, Except.pure_ok_iff] at h
  obtain ⟨cols, -, rows, -, out, hout, a, -, data, hdata, rfl⟩ := h
  exact .single hout (loop_induct (P := fun _ d => d.size = out.size) rfl
    (fun _ _ _ _ hs hstep => (softmaxRow_size hstep).trans hs) hdata)

theorem softmaxGrad_changes (h : softmaxGrad o = .ok ws) : o.Changes [2] ws := by
  simp only [softmaxGrad, Except.bind_ok_iff, Except.pure_ok_iff] at h
  obtain ⟨cols, -, rows, -, dx, hdx, dy, -, y, -, data, hdata, rfl⟩ := h
  refine .single hdx (loop_induct (P := fun _ (d : Array α) => d.size = dx.size) rfl ?_ hdata)
  intro r d d' _ hs hstep
  obtain ⟨dot, -, hstep⟩ := Except.bind_ok_iff.mp hstep
  exact (updateSpan_size hstep).trans hs

theorem meanSquaredError_changes (h : meanSquaredError o = .ok ws) : o.Changes [2] ws := by
  simp only [meanSquaredError, Except.bind_ok_iff, Except.pure_ok_iff, write_ok_iff] at h
  obtain ⟨cols, -, rows, -, loss, hloss, a, -, label, -, sum, -, data, ⟨-, rfl⟩, rfl⟩ := h
  exact .single hloss (by simp)

theorem meanSquaredErrorGrad_changes (h : meanSquaredErrorGrad o = .ok ws) :
    o.Changes [2] ws := by
  simp only [meanSquaredErrorGrad, Except.bind_ok_iff, Except.pure_ok_iff] at h
  obtain ⟨n, -, rows, -, dx, hdx, a, -, label, -, data, hdata, rfl⟩ := h
  exact .single hdx (updateFirst_size hdata)

theorem crossEntropy_changes (h : crossEntropy o = .ok ws) : o.Changes [2] ws := by
  simp only [crossEntropy, Except.bind_ok_iff, Except.pure_ok_iff, write_ok_iff] at h
  obtain ⟨cols, -, rows, -, loss, hloss, probs, -, labels, -, total, -, data, ⟨-, rfl⟩, rfl⟩ := h
  exact .single hloss (by simp)

theorem crossEntropyGrad_changes (h : crossEntropyGrad o = .ok ws) : o.Changes [2] ws := by
  simp only [crossEntropyGrad, Except.bind_ok_iff, Except.pure_ok_iff] at h
  obtain ⟨cols, -, rows, -, dx, hdx, probs, -, labels, -, data, hdata, rfl⟩ := h
  refine .single hdx (loop_induct (P := fun _ (d : Array α) => d.size = dx.size) rfl ?_ hdata)
  intro r d d' _ hs hstep
  obtain ⟨label, -, hstep⟩ := Except.bind_ok_iff.mp hstep
  split at hstep
  · exact (update_size hstep).trans hs
  · rw [Except.pure_ok_iff] at hstep
    rwa [← hstep]

theorem classificationAccuracy_changes (h : classificationAccuracy o = .ok ws) :
    o.Changes [2] ws := by
  simp only [classificationAccuracy, Except.bind_ok_iff, Except.pure_ok_iff, write_ok_iff] at h
  obtain ⟨cols, -, rows, -, out, hout, probs, -, labels, -, correct, -, data, ⟨-, rfl⟩, rfl⟩ := h
  exact .single hout (by simp)

theorem splitData_changes (h : splitData o = .ok ws) : o.Changes [1] ws := by
  simp only [splitData, Except.bind_ok_iff, Except.pure_ok_iff] at h
  obtain ⟨t, -, out, hout, image, -, data, hdata, rfl⟩ := h
  refine .single hout (foldlM_induct (P := fun (d : Array α) => d.size = out.size) (by simp) ?_ hdata)
  intro d pair d' _ hs hstep
  obtain ⟨x, -, hstep⟩ := Except.bind_ok_iff.mp hstep
  obtain ⟨-, rfl⟩ := write_ok_iff.mp hstep
  rwa [Array.size_setIfInBounds]

theorem splitDataGrad_changes (h : splitDataGrad o = .ok ws) : o.Changes [1] ws := by
  simp only [splitDataGrad, Except.bind_ok_iff, Except.pure_ok_iff] at h
  obtain ⟨t, -, dx, hdx, dy, -, data, hdata, rfl⟩ := h
  exact .single hdx (foldlM_induct (P := fun (d : Array α) => d.size = dx.size) rfl
    (fun _ _ _ _ hs hstep => (update_size hstep).trans hs) hdata)

theorem convolution_changes (h : convolution o = .ok ws) : o.Changes [2] ws := by
  simp only [convolution, Except.bind_ok_iff] at h
  obtain ⟨inX, -, inY, -, kx, -, ky, -, kz, -, kw, -, pad, -, stride, -, batch, -, h⟩ := h
  split at h
  · simp only [Except.bind_ok_iff, Except.pure_ok_iff] at h
    obtain ⟨_, -, out, hout, input, -, kernel, -, data, hdata, rfl⟩ := h
    exact .single hout (updateFirst_size hdata)
  · exact (Except.throw_ok_iff.mp h).elim

theorem convolutionAdd_changes (h : convolutionAdd o = .ok ws) : o.Changes [2] ws := by
  simp only [convolutionAdd, Except.bind_ok_iff, Except.pure_ok_iff] at h
  obtain ⟨inX, -, inY, -, kx, -, ky, -, kz, -, kw, -, padX, -, padY, -, _, -, dilation, -,
    outX, -, outY, -, batch, -, out, hout, input, -, kernel, -, data, hdata, rfl⟩ := h
  exact .single hout (updateFirst_size hdata)

theorem convolutionWeightGrad_changes (h : convolutionWeightGrad o = .ok ws) :
    o.Changes [2] ws := by
  simp only [convolutionWeightGrad, Except.bind_ok_iff, Except.pure_ok_iff] at h
  obtain ⟨inX, -, inY, -, outX, -, outY, -, kx, -, ky, -, kz, -, kw, -, pad, -, stride, -,
    batch, -, dk, hdk, input, -, dy, -, data, hdata, rfl⟩ := h
  exact .single hdk (updateFirst_size hdata)

omit [Scalar α] in
theorem rotateAndReorder_changes (h : rotateAndReorder o = .ok ws) : o.Changes [1] ws := by
  simp only [rotateAndReorder, Except.bind_ok_iff, Except.pure_ok_iff] at h
  obtain ⟨kx, -, ky, -, kz, -, kw, -, out, hout, kernel, -, data, hdata, rfl⟩ := h
  exact .single hout (updateFirst_size hdata)

theorem maxPooling_changes (h : maxPooling o = .ok ws) : o.Changes [1] ws := by
  simp only [maxPooling, Except.bind_ok_iff, Except.pure_ok_iff] at h
  obtain ⟨p, -, out, hout, input, -, data, hdata, rfl⟩ := h
  exact .single hout (updateFirst_size hdata)

theorem maxPoolingGrad_changes (h : maxPoolingGrad o = .ok ws) : o.Changes [2] ws := by
  simp only [maxPoolingGrad, Except.bind_ok_iff, Except.pure_ok_iff] at h
  obtain ⟨p, -, dx, hdx, input, -, dy, -, data, hdata, rfl⟩ := h
  exact .single hdx (updateFirst_size hdata)

theorem gradientDescent_changes (h : gradientDescent o = .ok ws) : o.Changes [1] ws := by
  simp only [gradientDescent, Except.bind_ok_iff, Except.pure_ok_iff] at h
  obtain ⟨alpha, -, n, -, weight, hweight, grad, -, data, hdata, rfl⟩ := h
  exact .single hweight (updateFirst_size hdata)

theorem adam_changes (h : adam o = .ok ws) : o.Changes [1, 2, 3] ws := by
  simp only [adam, Except.bind_ok_iff, Except.pure_ok_iff] at h
  obtain ⟨alpha, -, beta₁, -, beta₂, -, epsilon, -, n, -, t, -, m, hm, v, hv, weight, hweight,
    grad, -, m', hm', v', hv', weight', hweight', rfl⟩ := h
  refine ⟨rfl, fun c hc => ?_⟩
  simp only [List.mem_cons, List.not_mem_nil, or_false] at hc
  obtain rfl | rfl | rfl := hc
  · exact ⟨m, (Operands.words_ok_iff.mp hm).1, updateFirst_size hm'⟩
  · exact ⟨v, (Operands.words_ok_iff.mp hv).1, updateFirst_size hv'⟩
  · exact ⟨weight, (Operands.words_ok_iff.mp hweight).1, updateFirst_size hweight'⟩

end Kernel

namespace HostKernel

/-- The arguments a kernel writes. It reads its other buffers; those it adds to, it
reads too. -/
def outputs : HostKernel → List Nat
  | copy | copyAdd | subtractFromConst | subtractFromConstGrad | addToMatrixGrad
  | addToImageGrad | splitData | splitDataGrad | relu | sigmoid | tanh | transpose | softmax
  | rotateAndReorder | maxPooling | gradientDescent => [1]
  | add | elementwiseProduct | elementwiseProductAdd | addToMatrix | addToImage | reluGrad
  | sigmoidGrad | tanhGrad | matrixProduct | matrixProductAdd | softmaxGrad | meanSquaredError
  | meanSquaredErrorGrad | crossEntropy | crossEntropyGrad | classificationAccuracy | convolution
  | convolutionAdd | convolutionWeightGrad | maxPoolingGrad => [2]
  | appendId => [0]
  | adam => [1, 2, 3]

theorem run_changes [Scalar α] {k : HostKernel} {o : Operands α} {ws : Writes α}
    (h : k.run o = .ok ws) : o.Changes k.outputs ws := by
  cases k with
  | copy => exact Kernel.copy_changes h
  | copyAdd => exact Kernel.copyAdd_changes h
  | add => exact Kernel.combine_changes h
  | elementwiseProduct => exact Kernel.combine_changes h
  | elementwiseProductAdd => exact Kernel.combine_changes h
  | subtractFromConst => exact Kernel.subtractFromConst_changes h
  | subtractFromConstGrad => exact Kernel.subtractFromConstGrad_changes h
  | addToMatrix => exact Kernel.addToMatrix_changes h
  | addToMatrixGrad => exact Kernel.addToMatrixGrad_changes h
  | addToImage => exact Kernel.addToImage_changes h
  | addToImageGrad => exact Kernel.addToImageGrad_changes h
  | splitData => exact Kernel.splitData_changes h
  | splitDataGrad => exact Kernel.splitDataGrad_changes h
  | appendId => exact Kernel.appendId_changes h
  | relu => exact Kernel.activation_changes h
  | reluGrad => exact Kernel.activationGrad_changes h
  | sigmoid => exact Kernel.activation_changes h
  | sigmoidGrad => exact Kernel.activationGrad_changes h
  | tanh => exact Kernel.activation_changes h
  | tanhGrad => exact Kernel.activationGrad_changes h
  | matrixProduct => exact Kernel.matrixProductWith_changes h
  | matrixProductAdd => exact Kernel.matrixProductWith_changes h
  | transpose => exact Kernel.transpose_changes h
  | softmax => exact Kernel.softmax_changes h
  | softmaxGrad => exact Kernel.softmaxGrad_changes h
  | meanSquaredError => exact Kernel.meanSquaredError_changes h
  | meanSquaredErrorGrad => exact Kernel.meanSquaredErrorGrad_changes h
  | crossEntropy => exact Kernel.crossEntropy_changes h
  | crossEntropyGrad => exact Kernel.crossEntropyGrad_changes h
  | classificationAccuracy => exact Kernel.classificationAccuracy_changes h
  | convolution => exact Kernel.convolution_changes h
  | convolutionAdd => exact Kernel.convolutionAdd_changes h
  | convolutionWeightGrad => exact Kernel.convolutionWeightGrad_changes h
  | rotateAndReorder => exact Kernel.rotateAndReorder_changes h
  | maxPooling => exact Kernel.maxPooling_changes h
  | maxPoolingGrad => exact Kernel.maxPoolingGrad_changes h
  | gradientDescent => exact Kernel.gradientDescent_changes h
  | adam => exact Kernel.adam_changes h

end HostKernel

end Backprop
