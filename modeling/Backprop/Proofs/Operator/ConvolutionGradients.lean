import Mathlib
import Backprop.Network.Run
import Backprop.Proofs.Kernel.ConvolutionProducts
import Backprop.Proofs.Network.Building
import Backprop.Proofs.Operator.Footprint
import Backprop.Proofs.Operator.Rows

/-! The requests of a convolution, run on what their buffers hold. The two gradients multiply what
the forward pass has multiplied, each product once, as long as the kernels can be told of all the
numbers. -/

namespace Backprop

variable {α : Type}

theorem Operands.int_at {o : Operands α} {args : List (Operand α)} {i : Nat} {v : Int}
    (ho : o.args = args) (h : args[i]? = some (.scalar (.signed v)))
    (hv : -2147483648 ≤ v ∧ v ≤ 2147483647) : o.int i = .ok v := by
  rw [int_signed (ho ▸ h), min_eq_left hv.2, max_eq_right hv.1]

namespace Kernel

open Operands

variable [Scalar α] {o : Operands α} {x y z : Array α}

theorem sumOfProducts_reindex {y' : Array α} {source : Nat → Nat} {terms : List (Option Nat × Nat)}
    (h : ∀ t ∈ terms, read y' t.2 = read y (source t.2)) :
    sumOfProducts x y' terms = sumOfProducts x y (terms.map fun t => (t.1, source t.2)) := by
  unfold sumOfProducts
  rw [List.foldlM_map]
  exact foldlM_congr (fun s t ht => by simp only [h t ht]) 0

namespace Convolution

/-- The output planes are as large as the input, the kernel, the padding and the stride have it. -/
structure Fits (c : Convolution) : Prop where
  width : convolvedExtent? c.inX c.k.x c.pad c.stride = some c.outX
  height : convolvedExtent? c.inY c.k.y c.pad c.stride = some c.outY

/-- A kernel can be told of all the numbers. -/
def Tellable (c : Convolution) : Prop :=
  ∀ n ∈ [c.inX, c.inY, c.outX, c.outY, c.k.x, c.k.y, c.k.z, c.k.w, c.pad, c.stride, c.batch],
    n < 2 ^ 31

variable {c : Convolution}

theorem Fits.stride_pos (h : c.Fits) : 0 < c.stride := by
  refine Nat.pos_of_ne_zero fun hs => ?_
  have hw := h.width
  rw [hs, convolvedExtent?, if_pos (.inl rfl)] at hw
  cases hw

/-! ### Kernels on arrays -/

theorem convolution_answers (fits : c.Fits) (told : c.Tellable)
    (ho : o.args = [.words x, .words y, .words z] ++ ([.int c.inX, .int c.inY, .int c.k.x,
      .int c.k.y, .int c.k.z, .int c.k.w, .int c.pad, .int c.stride,
      .int c.batch] : List (ScalarArg α)).map .scalar)
    (hx : c.inputs ≤ x.size) (hy : c.k.size ≤ y.size) (hz : c.outputs ≤ z.size) :
    ∃ data, convolution o = .ok [(2, data)] ∧
      Replaced c.outputs z (fun r _ => sumOfProducts x y (c.products r)) data := by
  simp only [Tellable, List.mem_cons, List.not_mem_nil, or_false, forall_eq_or_imp, forall_eq]
    at told
  obtain ⟨hinX, hinY, -, -, hkx, hky, hkz, hkw, hpad, hstride, hbatch⟩ := told
  refine (convolution_replaces (e := c.k) (extent_at ho rfl hinX) (extent_at ho rfl hinY)
    (extent_at ho rfl hkx) (extent_at ho rfl hky) (extent_at ho rfl hkz) (extent_at ho rfl hkw)
    (extent_at ho rfl hpad) (extent_at ho rfl hstride) (extent_at ho rfl hbatch) fits.width
    fits.height (words_at ho rfl hz) (words_at ho rfl hx) (words_at ho rfl hy)).answers
    fun r hr _ => ?_
  exact sumOfProducts_succeeds (products_lt hr) hx hy

theorem weightGrad_answers (told : c.Tellable)
    (ho : o.args = [.words x, .words y, .words z] ++ ([.int c.inX, .int c.inY, .int c.outX,
      .int c.outY, .int c.k.x, .int c.k.y, .int c.k.z, .int c.k.w, .int c.pad, .int c.stride,
      .int c.batch] : List (ScalarArg α)).map .scalar)
    (hx : c.inputs ≤ x.size) (hy : c.outputs ≤ y.size) (hz : c.k.size ≤ z.size) :
    ∃ data, convolutionWeightGrad o = .ok [(2, data)] ∧
      Replaced c.k.size z (fun q old => do
        return old + (← sumOfProducts x y (c.kernelProducts q))) data := by
  simp only [Tellable, List.mem_cons, List.not_mem_nil, or_false, forall_eq_or_imp, forall_eq]
    at told
  obtain ⟨hinX, hinY, houtX, houtY, hkx, hky, hkz, hkw, hpad, hstride, hbatch⟩ := told
  refine (convolutionWeightGrad_replaces (e := c.k) (extent_at ho rfl hinX) (extent_at ho rfl hinY)
    (extent_at ho rfl houtX) (extent_at ho rfl houtY) (extent_at ho rfl hkx) (extent_at ho rfl hky)
    (extent_at ho rfl hkz) (extent_at ho rfl hkw) (extent_at ho rfl hpad)
    (extent_at ho rfl hstride) (extent_at ho rfl hbatch) (words_at ho rfl hz) (words_at ho rfl hx)
    (words_at ho rfl hy)).answers fun q hq old => ?_
  obtain ⟨s, hs⟩ := sumOfProducts_succeeds (kernelProducts_lt hq) hx hy
  exact ⟨old + s, congrArg (· >>= fun s => pure (old + s)) hs⟩

omit [Scalar α] in
theorem rotate_answers (told : c.Tellable)
    (ho : o.args = [.words y, .words z] ++ ([.int c.k.x, .int c.k.y, .int c.k.z,
      .int c.k.w] : List (ScalarArg α)).map .scalar)
    (hy : c.k.size ≤ y.size) (hz : c.k.size ≤ z.size) :
    ∃ data, rotateAndReorder o = .ok [(1, data)] ∧
      Replaced c.k.size z (fun j _ => read y (rotationSource c.k j)) data := by
  simp only [Tellable, List.mem_cons, List.not_mem_nil, or_false, forall_eq_or_imp, forall_eq]
    at told
  obtain ⟨-, -, -, -, hkx, hky, hkz, hkw, -⟩ := told
  refine (rotateAndReorder_replaces (extent_at ho rfl hkx) (extent_at ho rfl hky)
    (extent_at ho rfl hkz) (extent_at ho rfl hkw) (words_at ho rfl hz)
    (words_at ho rfl hy)).answers fun j hj _ => ?_
  exact ⟨_, read_of_lt ((rotationSource_lt hj).trans_le hy)⟩

/-- The sum over a rotated kernel is one over the kernel. -/
theorem inputGrad_answers {old rotated : Array α} (told : c.Tellable)
    (ho : o.args = [.words x, .words rotated, .words z] ++ ([.int c.outX, .int c.outY, .int c.k.x,
      .int c.k.y, .int c.k.w, .int c.k.z, .signed (c.k.x - 1 - c.pad), .signed (c.k.y - 1 - c.pad),
      .int c.stride, .int c.inX, .int c.inY, .int c.batch] : List (ScalarArg α)).map .scalar)
    (hrotated : Replaced c.k.size old (fun j _ => read y (rotationSource c.k j)) rotated)
    (hx : c.outputs ≤ x.size) (hy : c.k.size ≤ rotated.size) (hz : c.inputs ≤ z.size) :
    ∃ data, convolutionAdd o = .ok [(2, data)] ∧
      Replaced c.inputs z (fun p old => do
        return old + (← sumOfProducts x y (c.inputProducts p))) data := by
  simp only [Tellable, List.mem_cons, List.not_mem_nil, or_false, forall_eq_or_imp, forall_eq]
    at told
  obtain ⟨hinX, hinY, houtX, houtY, hkx, hky, hkz, hkw, hpad, hs, hbatch⟩ := told
  have hpadX : o.int 9 = .ok (c.k.x - 1 - c.pad) := int_at ho rfl (by omega)
  have hpadY : o.int 10 = .ok (c.k.y - 1 - c.pad) := int_at ho rfl (by omega)
  have hread : ∀ p < c.inputs, sumOfProducts x rotated (c.rotatedProducts p) =
      sumOfProducts x y (c.inputProducts p) := by
    refine fun p hp => sumOfProducts_reindex fun t ht => ?_
    obtain ⟨_, new, -, hnew, hdata⟩ := hrotated.2 t.2 (rotatedProducts_lt hp t ht)
    exact (read_ok_iff.mpr hdata).trans hnew.symm
  have hreplaces := convolutionAdd_replaces (e := c.k.swapped) (extent_at ho rfl houtX)
    (extent_at ho rfl houtY) (extent_at ho rfl hkx) (extent_at ho rfl hky) (extent_at ho rfl hkw)
    (extent_at ho rfl hkz) hpadX hpadY (extent_at ho rfl hs) (extent_at ho rfl hinX)
    (extent_at ho rfl hinY) (extent_at ho rfl hbatch) (words_at ho rfl hz) (words_at ho rfl hx)
    (words_at ho rfl (c.k.size_swapped ▸ hy))
  obtain ⟨data, hdata, hsize, hentries⟩ := hreplaces.answers fun p hp old => by
    obtain ⟨s, hs⟩ := sumOfProducts_succeeds (rotatedProducts_bounds hp) hx hy
    exact ⟨old + s, congrArg (· >>= fun s => pure (old + s)) hs⟩
  refine ⟨data, hdata, hsize, fun p hp => ?_⟩
  obtain ⟨old, new, hold, hnew, hp'⟩ := hentries p hp
  have hsum := congrArg (· >>= fun s => pure (old + s)) (hread p hp)
  exact ⟨old, new, hold, hsum.symm.trans hnew, hp'⟩

end Convolution

end Kernel

variable [Scalar α]

/-- On what its buffers hold, the kernel of the request answers these changes. -/
def Request.Answers (r : Request α) (b : Backend α) (ws : Writes α) : Prop :=
  ∃ k, HostKernel.ofName? r.kernel = some k ∧ k.run ⟨r.args.map b.operand, r.launch⟩ = .ok ws

namespace Operator

open Kernel Kernel.Convolution

def convolution (pad : Padding) (stride : Nat) (a k out : Shape) : Convolution :=
  ⟨a.x, a.y, out.x, out.y, ⟨k.x, k.y, k.z, k.w⟩, pad.cells k.x, stride, a.w⟩

/-- Requests that run a convolution and its gradients: an entry of the output becomes the sum of
its products, and to an entry of a gradient the sum of its products is added. The kernel that the
gradient of the input reads has been rotated into scratch before. -/
structure Transposes (c : Convolution) (w : Wires)
    (convolve gradKernel gradInput rotate : Request α) : Prop where
  kernels : convolve.kernel = "Convolution" ∧ gradKernel.kernel = "ConvolutionWeightGrad" ∧
    gradInput.kernel = "ConvolutionAdd" ∧ rotate.kernel = "RotateAndReorder"
  forward : ∀ b : Backend α, c.inputs ≤ (b.contents w.a).size → c.k.size ≤ (b.contents w.b).size →
    c.outputs ≤ (b.contents w.out).size → ∃ data, convolve.Answers b [(2, data)] ∧
      Replaced c.outputs (b.contents w.out)
        (fun r _ => sumOfProducts (b.contents w.a) (b.contents w.b) (c.products r)) data
  kernel : ∀ b : Backend α, c.inputs ≤ (b.contents w.a).size →
    c.outputs ≤ (b.contents w.gradOut).size → c.k.size ≤ (b.contents w.gradB).size →
    ∃ data, gradKernel.Answers b [(2, data)] ∧
      Replaced c.k.size (b.contents w.gradB) (fun q old => do
        return old + (← sumOfProducts (b.contents w.a) (b.contents w.gradOut) (c.kernelProducts q)))
        data
  input : ∀ b : Backend α, c.k.size ≤ (b.contents w.b).size → c.k.size ≤ (b.contents w.tmp).size →
    ∃ rotated, rotate.Answers b [(1, rotated)] ∧ ∀ b' : Backend α, b'.contents w.tmp = rotated →
      c.outputs ≤ (b'.contents w.gradOut).size → c.inputs ≤ (b'.contents w.gradA).size →
      ∃ data, gradInput.Answers b' [(2, data)] ∧
        Replaced c.inputs (b'.contents w.gradA) (fun p old => do
          return old + (← sumOfProducts (b'.contents w.gradOut) (b.contents w.b)
            (c.inputProducts p))) data

section

variable {pad : Padding} {stride : Nat} {a k output : Tensor} {scratch : List Tensor}
  {e : Emission α} {out : Shape}

omit [Scalar α] in
theorem conv2d_wired (h : (conv2d pad stride : Operator α).emit [a, k] output scratch = .ok e) :
    ∃ w, (conv2d pad stride : Operator α).Wired [a, k] output scratch w := by
  obtain ⟨hs, -⟩ := emits_of_ok rfl h
  obtain ⟨tmp, l, rfl⟩ := List.exists_cons_of_ne_nil hs
  change emitConvolution pad stride a k output tmp = .ok e at h
  simp only [emitConvolution, forwardArg, backwardArg, Except.bind_ok_iff, Except.map_ok_iff] at h
  obtain ⟨_, -, _, ⟨a', ha, -⟩, _, ⟨k', hk, -⟩, _, ⟨out', hout, -⟩, _, -, _, ⟨gout, hgout, -⟩,
    _, ⟨gk, hgk, -⟩, _, -, _, ⟨tmp', htmp, -⟩, _, ⟨ga, hga, -⟩, -⟩ := h
  refine ⟨⟨a', ga, k', gk, out', gout, tmp'⟩, ?_, ?_, ⟨hout, hgout⟩, ?_⟩
  · rintro t ⟨⟩
    exact ⟨ha, hga⟩
  · rintro t ⟨⟩
    exact ⟨hk, hgk⟩
  · rintro t ⟨⟩
    exact htmp

omit [Scalar α] in
theorem conv2d_fits
    (h : (conv2d pad stride : Operator α).outputShape [a.shape, k.shape] = .ok out) :
    k.shape.z = a.shape.z ∧ out.z = k.shape.w ∧ out.w = a.shape.w ∧
      (convolution pad stride a.shape k.shape out).Fits ∧
      plane a.shape k.shape pad stride = (out.x, out.y, pad.cells k.shape.x) := by
  change (conv2d pad stride : Operator α).shapeOf a.shape k.shape = .ok out at h
  simp only [shapeOf] at h
  split at h
  · cases h
  · next hz =>
    simp only [Except.bind_ok_iff, Except.pure_ok_iff] at h
    obtain ⟨⟨x, y, cells⟩, hplane, rfl⟩ := h
    obtain ⟨hx, hy, rfl⟩ := convolvedPlane_ok_iff.mp hplane
    exact ⟨not_not.mp hz, rfl, rfl, ⟨hx, hy⟩, by rw [plane, hplane]⟩

/-- The backward pass of a convolution is the transpose of its forward pass. -/
theorem conv2d_transposes
    (shape : (conv2d pad stride : Operator α).outputShape [a.shape, k.shape] = .ok out)
    (emitted : (conv2d pad stride).emit [a, k] output scratch = .ok e)
    (told : (convolution pad stride a.shape k.shape out).Tellable) :
    ∃ c w convolve gradKernel gradInput rotate,
      c = convolution pad stride a.shape k.shape out ∧ c.inputs = a.shape.elements ∧
      c.k.size = k.shape.elements ∧ c.outputs = out.elements ∧
      (conv2d pad stride : Operator α).Wired [a, k] output scratch w ∧
      e = ⟨[convolve], [gradKernel, gradInput, rotate]⟩ ∧
      Transposes c w convolve gradKernel gradInput rotate ∧ c.Adjoint := by
  obtain ⟨w, wired⟩ := conv2d_wired emitted
  obtain ⟨hz, hout, hrows, fits, hplane⟩ := conv2d_fits shape
  have he := emit_eq wired rfl emitted
  have hrequests : e = ⟨[(conv2d pad stride : Operator α).forwardRequest a.shape k.shape
      output.shape output.cursor w], (conv2d pad stride : Operator α).backwardRequests a.shape
      k.shape output.cursor w⟩ := he
  simp only [forwardRequest, backwardRequests, numbers, hplane] at hrequests
  refine ⟨_, w, _, _, _, _, rfl, ?_, rfl, ?_, wired, hrequests,
    ⟨⟨rfl, rfl, rfl, rfl⟩, ?_, ?_, ?_⟩, adjoint fits.stride_pos⟩
  · exact congrArg (fun z => a.shape.x * a.shape.y * z * a.shape.w) hz
  · rw [Shape.elements, hout, hrows]
    rfl
  · intro b hx hy hz
    obtain ⟨data, hdata, hreplaced⟩ := convolution_answers fits told (o := ⟨_, _⟩) rfl hx hy hz
    exact ⟨data, ⟨.convolution, HostKernel.ofName?_name .convolution, hdata⟩, hreplaced⟩
  · intro b hx hy hz
    obtain ⟨data, hdata, hreplaced⟩ := weightGrad_answers told (o := ⟨_, _⟩) rfl hx hy hz
    exact ⟨data, ⟨.convolutionWeightGrad, HostKernel.ofName?_name .convolutionWeightGrad, hdata⟩,
      hreplaced⟩
  · intro b hy hz
    obtain ⟨rotated, hdata, hreplaced⟩ := rotate_answers told (o := ⟨_, _⟩) rfl hy hz
    refine ⟨rotated, ⟨.rotateAndReorder, HostKernel.ofName?_name .rotateAndReorder, hdata⟩, ?_⟩
    rintro b' rfl hx hz'
    obtain ⟨data, hdata, hinput⟩ := inputGrad_answers told (o := ⟨_, _⟩) rfl hreplaced hx
      (hreplaced.1 ▸ hz) hz'
    exact ⟨data, ⟨.convolutionAdd, HostKernel.ofName?_name .convolutionAdd, hdata⟩, hinput⟩

def wiredTensor (kind : TensorKind) (shape : Shape) (forward backward : Nat) : Tensor :=
  { Tensor.ofKind kind shape 1 with
    forward := ⟨some ⟨forward⟩, #[⟨forward⟩]⟩
    backward := ⟨some ⟨backward⟩, #[⟨backward⟩]⟩ }

/-- Two rows of two channels, a kernel that is not square, and a stride that leaves a rest. -/
theorem strided_transposes : ∃ e c w convolve gradKernel gradInput rotate,
    (conv2d (.explicit 4) 3 : Operator Binary32).emit [wiredTensor .input ⟨5, 4, 2, 2⟩ 0 1,
      wiredTensor .parameter ⟨3, 2, 2, 3⟩ 2 3] (wiredTensor .intermediate ⟨4, 4, 3, 2⟩ 4 5)
      [wiredTensor .scratch ⟨36, 1, 1, 1⟩ 6 6] = .ok e ∧
    c = convolution (.explicit 4) 3 ⟨5, 4, 2, 2⟩ ⟨3, 2, 2, 3⟩ ⟨4, 4, 3, 2⟩ ∧ c.Tellable ∧
    e = ⟨[convolve], [gradKernel, gradInput, rotate]⟩ ∧
    Transposes c w convolve gradKernel gradInput rotate ∧ c.Adjoint := by
  have hshape : (conv2d (.explicit 4) 3 : Operator Binary32).outputShape
      [⟨5, 4, 2, 2⟩, ⟨3, 2, 2, 3⟩] = .ok ⟨4, 4, 3, 2⟩ := by decide
  have htold : (convolution (.explicit 4) 3 ⟨5, 4, 2, 2⟩ ⟨3, 2, 2, 3⟩ ⟨4, 4, 3, 2⟩).Tellable := by
    unfold Convolution.Tellable
    decide
  have hemit : (conv2d (.explicit 4) 3 : Operator Binary32).emit
      [wiredTensor .input ⟨5, 4, 2, 2⟩ 0 1, wiredTensor .parameter ⟨3, 2, 2, 3⟩ 2 3]
      (wiredTensor .intermediate ⟨4, 4, 3, 2⟩ 4 5)
      [wiredTensor .scratch ⟨36, 1, 1, 1⟩ 6 6] = .ok _ := rfl
  obtain ⟨c, w, _, _, _, _, hc, -, -, -, -, he, htransposes, hadjoint⟩ := conv2d_transposes
    (a := wiredTensor .input ⟨5, 4, 2, 2⟩ 0 1) (k := wiredTensor .parameter ⟨3, 2, 2, 3⟩ 2 3)
    hshape hemit htold
  exact ⟨_, c, w, _, _, _, _, rfl, hc, hc ▸ htold, he, htransposes, hadjoint⟩

end

end Operator

namespace Network

/-- A convolution whose padding is more than a kernel can be told. -/
def overpadded : Network Binary32 :=
  (Network.new Backend.host {}).draft
    [.createInput ⟨1, 1, 1, 1⟩ 1, .createParameter ⟨1, 1, 1, 1⟩ 1,
      .addOperator (.conv2d (.explicit 2147483648) 2147483647) [⟨0⟩, ⟨1⟩] 0]

/-- The output for ones, and both gradients of the sum of its entries. -/
def onesPass : Call Binary32 (Array Binary32 × Array Binary32 × Array Binary32) := do
  compile 1
  writeTensor ⟨0⟩ 0 #[1]
  writeTensor ⟨1⟩ 0 #[1]
  forward
  let output ← readTensor ⟨2⟩ 0
  writeGradient ⟨2⟩ 0 (Array.replicate 9 1)
  backward
  return (output, ← readGradient ⟨0⟩ 0, ← readGradient ⟨1⟩ 0)

set_option maxRecDepth 100000 in
/-- The forward pass is told less than the padding, and multiplies the only two entries. The
gradient of the input is told what the whole padding comes to, and misses their product. -/
theorem overpadded_misses_product : ∃ n,
    onesPass overpadded = .ok (#[0, 0, 0, 0, 1, 0, 0, 0, 0], #[0], #[1]) n :=
  ⟨_, Call.ok_of_answer? (by decide +kernel)⟩

end Network

end Backprop
