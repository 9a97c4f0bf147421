import Mathlib
import Backprop.Proofs.Backend.Execution
import Backprop.Proofs.Backend.Submission
import Backprop.Proofs.Kernel.Demands
import Backprop.Proofs.Operator.Footprint

/-! What the requests of an operator demand. The shapes that an operator accepts are enough for all
its kernels, forward and backward, and a batch keeps them accepted. -/

namespace Backprop

variable {α : Type}

/-! ### Extents -/

theorem convolvedExtent?_eq_some_iff {input kernel pad stride out : Nat} :
    convolvedExtent? input kernel pad stride = some out ↔
      stride ≠ 0 ∧ kernel ≤ input + 2 * pad ∧ (input + 2 * pad - kernel) / stride + 1 = out := by
  simp only [convolvedExtent?]
  split
  · simp only [reduceCtorEq, false_iff]
    omega
  · simp only [Option.some.injEq]
    omega

theorem pooledExtent?_eq_some_iff {input size pad stride out : Nat} :
    pooledExtent? input size pad stride = some out ↔ stride ≠ 0 ∧ size ≠ 0 ∧ size ≤ input + pad ∧
      (input + pad - size) / stride + 1 = out := by
  simp only [pooledExtent?]
  split
  · simp only [reduceCtorEq, false_iff]
    omega
  · simp only [Option.some.injEq]
    omega

/-- Where it matters a stride can be told: of a short distance, one that cannot leaves nothing. -/
theorem div_told {distance stride : Nat} (h : stride < 2 ^ 31 ∨ distance < 2147483647) :
    distance / told stride = distance / stride := by
  by_cases hstride : stride ≤ 2147483647
  · rw [told_eq hstride]
  · have hlarge : told stride = 2147483647 := Nat.min_eq_right (by omega)
    rw [hlarge, Nat.div_eq_of_lt (by omega), Nat.div_eq_of_lt (by omega)]

theorem told_ne_zero {n : Nat} (h : n ≠ 0) : told n ≠ 0 := by
  unfold told
  omega

/-- A kernel counts as many positions as the graph has, where what it is told fits or at least the
padded extent does. -/
theorem convolvedExtent?_told {input kernel pad stride out : Nat}
    (h : convolvedExtent? input kernel pad stride = some out) (hinput : input < 2 ^ 31)
    (hkernel : kernel < 2 ^ 31) (pos : 0 < kernel)
    (fits : pad < 2 ^ 31 ∧ stride < 2 ^ 31 ∨ input + 2 * pad < 2 ^ 31) :
    convolvedExtent? (told input) (told kernel) (told pad) (told stride) = some out := by
  obtain ⟨hstride, hle, hout⟩ := convolvedExtent?_eq_some_iff.mp h
  rw [told_eq (by omega : input ≤ _), told_eq (by omega : kernel ≤ _), told_eq (by omega : pad ≤ _)]
  refine convolvedExtent?_eq_some_iff.mpr ⟨told_ne_zero hstride, hle, ?_⟩
  rw [div_told (by omega), hout]

theorem pooledExtent?_told {input size pad stride out : Nat}
    (h : pooledExtent? input size pad stride = some out) (hinput : input < 2 ^ 31)
    (fits : pad < 2 ^ 31 ∧ stride < 2 ^ 31 ∧ size < 2 ^ 31 ∨ input + pad < 2 ^ 31) :
    pooledExtent? (told input) (told size) (told pad) (told stride) = some out := by
  obtain ⟨hstride, hsize, hle, hout⟩ := pooledExtent?_eq_some_iff.mp h
  rw [told_eq (by omega : input ≤ _), told_eq (by omega : size ≤ _), told_eq (by omega : pad ≤ _)]
  refine pooledExtent?_eq_some_iff.mpr ⟨told_ne_zero hstride, hsize, hle, ?_⟩
  rw [div_told (by omega), hout]

open Kernel

namespace Operator

/-! ### Shapes -/

/-- No number that a kernel computes with is too large for it: strides, paddings and window sizes
can be told, or at least no padded extent overflows. -/
def InRange (op : Operator α) (a b : Shape) : Prop :=
  match op with
  | conv2d pad stride => pad.cells b.x < 2 ^ 31 ∧ stride < 2 ^ 31 ∨
      a.x + 2 * pad.cells b.x < 2 ^ 31 ∧ a.y + 2 * pad.cells b.x < 2 ^ 31
  | maxPool pad stride size => pad < 2 ^ 31 ∧ stride < 2 ^ 31 ∧ size < 2 ^ 31 ∨
      a.x + pad < 2 ^ 31 ∧ a.y + pad < 2 ^ 31
  | _ => True

instance (op : Operator α) (a b : Shape) : Decidable (op.InRange a b) := by
  unfold InRange
  split <;> infer_instance

/-- Operators whose kernels count the positions of a window. -/
def slides : Operator α → Bool
  | conv2d _ _ | maxPool _ _ _ => true
  | _ => false

/-- The operator accepts operands of the first two shapes, and its output has the third. -/
structure Fits (op : Operator α) (a b out : Shape) : Prop where
  shape : op.shapeOf a b = .ok out
  pos : 0 < a.elements ∧ 0 < b.elements
  small : op.slides = true → a.elements < 2 ^ 31 ∧ b.elements < 2 ^ 31
  inRange : op.InRange a b

theorem requireEqualElements_ok_iff {op : Operator α} {a b : Shape} {u : Unit} :
    op.requireEqualElements a b = .ok u ↔ a.elements = b.elements := by
  unfold requireEqualElements
  split <;> simp_all

variable {op : Operator α} {a b out : Shape}

/-- An operator that accepts single rows accepts batches of them. -/
theorem shapeOf_withRows (h : op.shapeOf a b = .ok out) (ha : a.w = 1)
    (hb : op.takesParameter = false → b.w = 1) (rows : Nat) :
    op.shapeOf (a.withRows rows) (op.second b rows) =
      .ok (if op.reducesBatch then out else out.withRows rows) := by
  have hequal : a.elements = b.elements → b.w = 1 →
      (a.withRows rows).elements = (b.withRows rows).elements := fun he hb => by
    rw [Shape.elements_withRows ha, Shape.elements_withRows hb, he]
  cases op with
  | matMul | matMulFlat | addBias | addBiasConv | maxPool =>
    simp only [shapeOf] at h
    split at h
    · next hfit =>
      cases h
      simp_all [shapeOf, second, takesParameter, reducesBatch, Shape.withRows, Shape.rowElements]
    · cases h
  | split tileX tileY =>
    simp only [shapeOf] at h
    split at h
    · cases h
    · next hfit =>
      cases h
      simp [shapeOf, hfit, reducesBatch, Shape.withRows]
  | conv2d pad stride =>
    simp only [shapeOf] at h
    split at h
    · cases h
    · next hz =>
      simp only [Except.bind_ok_iff, Except.pure_ok_iff] at h
      obtain ⟨⟨x, y, cells⟩, hplane, rfl⟩ := h
      obtain ⟨hx, hy, hcells⟩ := convolvedPlane_ok_iff.mp hplane
      have hplane' : convolvedPlane (a.withRows rows) b pad stride = .ok (x, y, cells) :=
        convolvedPlane_ok_iff.mpr ⟨hx, hy, hcells⟩
      simp only [shapeOf, second, takesParameter, if_true]
      rw [if_neg (by exact hz), hplane']
      rfl
  | elementwiseProduct | add =>
    simp only [shapeOf, Except.bind_ok_iff, Except.pure_ok_iff,
      requireEqualElements_ok_iff] at h ⊢
    obtain ⟨-, he, rfl⟩ := h
    exact ⟨⟨⟩, hequal he (hb rfl), rfl⟩
  | leastSquares =>
    simp only [shapeOf, Except.bind_ok_iff, Except.pure_ok_iff,
      requireEqualElements_ok_iff] at h ⊢
    obtain ⟨-, he, rfl⟩ := h
    exact ⟨⟨⟩, hequal he (hb rfl), rfl⟩
  | crossEntropy | accuracy =>
    simp only [shapeOf] at h
    split at h
    · next hlabels =>
      cases h
      have hrows : (b.withRows rows).elements = rows := by
        rw [Shape.elements_withRows (hb rfl), hlabels, ha, Nat.one_mul]
      exact if_pos hrows
    · cases h
  | activation | softmax | copy | subtractFromConst | transpose | copyInit =>
    cases h
    rfl

/-! ### Requests -/

end Operator

/-- The kernel that a request names succeeds on what its buffers hold. -/
def Request.RunsOn [Scalar α] (r : Request α) (c : Backend α) : Prop :=
  ∃ k ws, HostKernel.ofName? r.kernel = some k ∧
    k.run ⟨r.args.map c.operand, r.launch⟩ = .ok ws

theorem Request.RunsOn.of_willing [Scalar α] {r : Request α} {c : Backend α} {k : HostKernel}
    (hk : r.kernel = k.name) (h : Willing (k.run ⟨r.args.map c.operand, r.launch⟩)) :
    r.RunsOn c := by
  obtain ⟨ws, hws⟩ := h.succeeds
  exact ⟨k, ws, hk ▸ k.ofName?_name, hws⟩

/-- The buffers have the sizes of the shapes, and there is enough scratch for the operator. -/
structure Wires.Holds (w : Wires) (c : Backend α) (op : Operator α) (a b out : Shape) : Prop where
  first : (c.contents w.a).size = a.elements ∧ (c.contents w.gradA).size = a.elements
  second : (c.contents w.b).size = b.elements ∧ (c.contents w.gradB).size = b.elements
  output : (c.contents w.out).size = out.elements ∧ (c.contents w.gradOut).size = out.elements
  scratch : ∀ need ∈ op.scratchElements [a, b], need ≤ (c.contents w.tmp).size

namespace Operator

variable {op : Operator α} {a b out : Shape} {c : Backend α} {w : Wires}

theorem Fits.product (h : op.Fits a b out) (hop : op = .matMul ∨ op = .matMulFlat) :
    op.productRows a * op.contraction a ≤ a.elements ∧ b.elements = op.contraction a * b.x ∧
      op.productRows a * b.x ≤ out.elements := by
  obtain ⟨hpos, hdvd, hb, hout⟩ := contraction_fits hop h.shape h.pos.1
  have hrows : op.productRows a * op.contraction a = a.elements := by
    rw [productRows, Nat.max_eq_left hpos, Nat.div_mul_cancel hdvd]
  refine ⟨hrows.le, hb, Nat.le_of_mul_le_mul_right ?_ hpos⟩
  rw [Nat.mul_right_comm, hrows, hout]

theorem Fits.extents_lt (h : op.Fits a b out) (slides : op.slides = true) :
    (a.x < 2 ^ 31 ∧ a.y < 2 ^ 31) ∧ b.x < 2 ^ 31 ∧ b.y < 2 ^ 31 := by
  have ha := Shape.extents_le h.pos.1
  have hb := Shape.extents_le h.pos.2
  have hsmall := h.small slides
  omega

theorem plane_eq {pad : Padding} {stride x y cells : Nat}
    (h : convolvedPlane a b pad stride = .ok (x, y, cells)) :
    plane a b pad stride = (x, y, cells) := by
  rw [plane, h]

theorem Fits.conv2d {pad : Padding} {stride : Nat}
    (h : (conv2d pad stride : Operator α).Fits a b out) :
    b.z = a.z ∧ ∃ x y, plane a b pad stride = (x, y, pad.cells b.x) ∧ out = ⟨x, y, b.w, a.w⟩ ∧
      convolvedExtent? (told a.x) (told b.x) (told (pad.cells b.x)) (told stride) = some x ∧
      convolvedExtent? (told a.y) (told b.y) (told (pad.cells b.x)) (told stride) = some y := by
  obtain ⟨⟨hax, hay⟩, hbx, hby⟩ := h.extents_lt rfl
  have hbpos := Shape.extents_pos h.pos.2
  have hshape := h.shape
  simp only [shapeOf] at hshape
  split at hshape
  · cases hshape
  · next hz =>
    simp only [Except.bind_ok_iff, Except.pure_ok_iff] at hshape
    obtain ⟨⟨x, y, cells⟩, hplane, rfl⟩ := hshape
    obtain ⟨hx, hy, rfl⟩ := convolvedPlane_ok_iff.mp hplane
    have hrange := h.inRange
    simp only [InRange] at hrange
    exact ⟨not_not.mp hz, x, y, plane_eq hplane, rfl,
      convolvedExtent?_told hx hax hbx hbpos.1 (by omega),
      convolvedExtent?_told hy hay hby hbpos.2.1 (by omega)⟩

theorem Fits.maxPool {pad stride size : Nat}
    (h : (maxPool pad stride size : Operator α).Fits a b out) :
    ∃ x y, out = ⟨x, y, a.z, a.w⟩ ∧
      pooledExtent? (told a.x) (told size) (told pad) (told stride) = some x ∧
      pooledExtent? (told a.y) (told size) (told pad) (told stride) = some y := by
  obtain ⟨⟨hax, hay⟩, -⟩ := h.extents_lt rfl
  have hshape := h.shape
  simp only [shapeOf] at hshape
  split at hshape
  · next x y hx hy =>
    cases hshape
    have hrange := h.inRange
    simp only [InRange] at hrange
    exact ⟨x, y, rfl, pooledExtent?_told hx hax (by omega), pooledExtent?_told hy hay (by omega)⟩
  · cases hshape

theorem Fits.equal (h : op.Fits a b out)
    (hop : op = .elementwiseProduct ∨ ∃ time, op = .add time) :
    a.elements = b.elements ∧ out = a := by
  have hshape := h.shape
  obtain rfl | ⟨time, rfl⟩ := hop
  all_goals
    simp only [shapeOf, Except.bind_ok_iff, Except.pure_ok_iff,
      requireEqualElements_ok_iff] at hshape
    obtain ⟨-, hequal, rfl⟩ := hshape
    exact ⟨hequal, rfl⟩

theorem Fits.leastSquares (h : (leastSquares : Operator α).Fits a b out) :
    a.elements = b.elements ∧ out = ⟨1, 1, 1, 1⟩ := by
  have hshape := h.shape
  simp only [shapeOf, Except.bind_ok_iff, Except.pure_ok_iff,
    requireEqualElements_ok_iff] at hshape
  obtain ⟨-, hequal, rfl⟩ := hshape
  exact ⟨hequal, rfl⟩

theorem Fits.labels (h : op.Fits a b out) (hop : op = .crossEntropy ∨ op = .accuracy) :
    b.elements = a.w ∧ out = ⟨1, 1, 1, 1⟩ := by
  have hshape := h.shape
  obtain rfl | rfl := hop
  all_goals
    simp only [shapeOf] at hshape
    split at hshape
    · next hlabels => exact ⟨hlabels, (Except.ok.inj hshape).symm⟩
    · cases hshape

theorem Fits.addBias (h : (addBias : Operator α).Fits a b out) :
    b.elements = a.rowElements ∧ out = a := by
  have hshape := h.shape
  simp only [shapeOf] at hshape
  split at hshape
  · next hbias => exact ⟨hbias, (Except.ok.inj hshape).symm⟩
  · cases hshape

theorem Fits.addBiasConv (h : (addBiasConv : Operator α).Fits a b out) :
    b.elements = a.z ∧ out = a := by
  have hshape := h.shape
  simp only [shapeOf] at hshape
  split at hshape
  · next hbias => exact ⟨hbias, (Except.ok.inj hshape).symm⟩
  · cases hshape

theorem Fits.split {tileX tileY : Nat} (h : (split tileX tileY : Operator α).Fits a b out) :
    out = ⟨tileX, tileY, a.z, a.w⟩ := by
  have hshape := h.shape
  simp only [shapeOf] at hshape
  split at hshape
  · cases hshape
  · exact (Except.ok.inj hshape).symm

variable [Scalar α]

theorem product_backward_runs (h : op.Fits a b out) (hw : w.Holds c op a b out)
    (hop : op = .matMul ∨ op = .matMulFlat) (tile : Nat) {r : Request α}
    (hr : r ∈ op.backwardRequests a b tile w) : r.RunsOn c := by
  obtain ⟨ha, hga⟩ := hw.first
  obtain ⟨hb, hgb⟩ := hw.second
  have hgo := hw.output.2
  obtain ⟨hrows, hk, hcols⟩ := h.product hop
  have htmp : max a.elements b.elements ≤ (c.contents w.tmp).size := by
    obtain rfl | rfl := hop <;> exact hw.scratch _ (List.mem_singleton.mpr rfl)
  have hlaunch : max (Launch.roundUp 1 1) 1 = 1 := by rw [Launch.roundUp_one]; rfl
  have hflip := Nat.mul_comm (op.productRows a) (op.contraction a)
  have hflip' := Nat.mul_comm (op.contraction a) b.x
  have hcases : r = request "MatrixMulAdd" [.buffer w.tmp, .buffer w.gradOut, .buffer w.gradB,
        .int (op.contraction a), .int b.x, .int (op.productRows a)]
        (.tiled b.x (op.contraction a)) ∨
      r = request "Transpose" [.buffer w.a, .buffer w.tmp, .int (op.contraction a),
        .int (op.productRows a)] (.planes (op.contraction a) (op.productRows a) 1) ∨
      r = request "MatrixMulAdd" [.buffer w.gradOut, .buffer w.tmp, .buffer w.gradA,
        .int (op.productRows a), .int (op.contraction a), .int b.x]
        (.tiled (op.contraction a) (op.productRows a)) ∨
      r = request "Transpose" [.buffer w.b, .buffer w.tmp, .int b.x, .int (op.contraction a)]
        (.planes b.x (op.contraction a) 1) := by
    obtain rfl | rfl := hop <;>
      simpa only [backwardRequests, List.mem_cons, List.not_mem_nil, or_false] using hr
  obtain rfl | rfl | rfl | rfl := hcases
  · exact .of_willing (k := .matrixProductAdd) rfl
      (matrixProductWith_willing rfl (by omega) (by omega) (by omega))
  · refine .of_willing (k := .transpose) rfl (transpose_willing rfl ?_ ?_)
    · exact (Nat.mul_le_mul_left _ hlaunch.le).trans (by omega)
    · exact (Nat.mul_le_mul_left _ hlaunch.le).trans (by omega)
  · exact .of_willing (k := .matrixProductAdd) rfl
      (matrixProductWith_willing rfl (by omega) (by omega) (by omega))
  · refine .of_willing (k := .transpose) rfl (transpose_willing rfl ?_ ?_)
    · exact (Nat.mul_le_mul_left _ hlaunch.le).trans (by omega)
    · exact (Nat.mul_le_mul_left _ hlaunch.le).trans (by omega)

theorem convolution_backward_runs {pad : Padding} {stride : Nat}
    (h : (conv2d pad stride : Operator α).Fits a b out)
    (hw : w.Holds c (conv2d pad stride) a b out) (tile : Nat) {r : Request α}
    (hr : r ∈ (conv2d pad stride).backwardRequests a b tile w) : r.RunsOn c := by
  obtain ⟨ha, hga⟩ := hw.first
  obtain ⟨hb, hgb⟩ := hw.second
  have hgo := hw.output.2
  have htmp : b.elements ≤ (c.contents w.tmp).size := hw.scratch _ (List.mem_singleton.mpr rfl)
  obtain ⟨hz, x, y, hplane, rfl, -, -⟩ := h.conv2d
  simp only [backwardRequests, hplane, List.mem_cons, List.not_mem_nil, or_false] at hr
  obtain rfl | rfl | rfl := hr
  · exact .of_willing (k := .convolutionWeightGrad) rfl
      (convolutionWeightGrad_willing rfl (by rw [hz]; exact ha.ge) hgo.ge hgb.ge)
  · refine .of_willing (k := .convolutionAdd) rfl
      (convolutionAdd_willing rfl hgo.ge ?_ (by rw [hz]; exact hga.ge))
    rw [Nat.mul_right_comm]
    exact htmp
  · exact .of_willing (k := .rotateAndReorder) rfl (rotateAndReorder_willing rfl hb.ge htmp)

/-- All kernels of an operator run. -/
structure AllRun (op : Operator α) (a b out : Shape) (tile : Nat) (w : Wires) (c : Backend α) :
    Prop where
  forward : (op.forwardRequest a b out tile w).RunsOn c
  backward : ∀ r ∈ op.backwardRequests a b tile w, r.RunsOn c

section

variable {tile : Nat}

theorem product_runs (h : op.Fits a b out) (hw : w.Holds c op a b out)
    (hop : op = .matMul ∨ op = .matMulFlat) : op.AllRun a b out tile w c := by
  obtain ⟨hrows, hk, hcols⟩ := h.product hop
  refine ⟨.of_willing (k := .matrixProduct) ?_ ?_, fun r => product_backward_runs h hw hop tile⟩
  · obtain rfl | rfl := hop <;> rfl
  · have hx := hrows.trans hw.first.1.ge
    have hy := hk.ge.trans hw.second.1.ge
    have hz := hcols.trans hw.output.1.ge
    obtain rfl | rfl := hop <;> exact matrixProductWith_willing rfl hx hy hz

theorem convolution_runs {pad : Padding} {stride : Nat}
    (h : (conv2d pad stride : Operator α).Fits a b out)
    (hw : w.Holds c (conv2d pad stride) a b out) : (conv2d pad stride).AllRun a b out tile w c := by
  refine ⟨.of_willing (k := .convolution) rfl ?_,
    fun r => convolution_backward_runs h hw tile⟩
  obtain ⟨hz, x, y, hplane, rfl, hx, hy⟩ := h.conv2d
  have hargs : (Operator.conv2d pad stride : Operator α).numbers a b tile =
      [.int a.x, .int a.y, .int b.x, .int b.y, .int b.z, .int b.w, .int (pad.cells b.x),
        .int stride, .int a.w] := by
    rw [numbers, hplane]
  simp only [forwardRequest, hargs]
  exact convolution_willing rfl hx hy (by rw [hz]; exact hw.first.1.ge) hw.second.1.ge
    hw.output.1.ge

theorem activation_runs {kind : Activation} (h : (activation kind : Operator α).Fits a b out)
    (hw : w.Holds c (activation kind) a b out) : (activation kind).AllRun a b out tile w c := by
  obtain rfl := Except.ok.inj h.shape
  obtain ⟨ha, hga⟩ := hw.first
  obtain ⟨hout, hgo⟩ := hw.output
  cases kind with
  | relu =>
    exact ⟨.of_willing (k := .relu) rfl (activation_willing rfl ha.ge hout.ge _),
      List.forall_mem_singleton.mpr (.of_willing (k := .reluGrad) rfl
        (activationGrad_willing rfl ha.ge hgo.ge hga.ge _))⟩
  | sigmoid =>
    exact ⟨.of_willing (k := .sigmoid) rfl (activation_willing rfl ha.ge hout.ge _),
      List.forall_mem_singleton.mpr (.of_willing (k := .sigmoidGrad) rfl
        (activationGrad_willing rfl hout.ge hgo.ge hga.ge _))⟩
  | tanh =>
    exact ⟨.of_willing (k := .tanh) rfl (activation_willing rfl ha.ge hout.ge _),
      List.forall_mem_singleton.mpr (.of_willing (k := .tanhGrad) rfl
        (activationGrad_willing rfl hout.ge hgo.ge hga.ge _))⟩

theorem softmax_runs (h : (softmax : Operator α).Fits a b out) (hw : w.Holds c softmax a b out) :
    softmax.AllRun a b out tile w c := by
  obtain rfl := Except.ok.inj h.shape
  refine ⟨.of_willing (k := .softmax) rfl ?_,
    List.forall_mem_singleton.mpr (.of_willing (k := .softmaxGrad) rfl ?_)⟩
  · exact softmax_willing rfl hw.first.1.ge hw.output.1.ge
  · exact softmaxGrad_willing rfl hw.output.2.ge hw.output.1.ge hw.first.2.ge

theorem elementwiseProduct_runs (h : (elementwiseProduct : Operator α).Fits a b out)
    (hw : w.Holds c elementwiseProduct a b out) : elementwiseProduct.AllRun a b out tile w c := by
  obtain ⟨hequal, rfl⟩ := h.equal (.inl rfl)
  refine ⟨.of_willing (k := .elementwiseProduct) rfl ?_, List.forall_mem_cons.mpr
    ⟨.of_willing (k := .elementwiseProductAdd) rfl ?_,
      List.forall_mem_singleton.mpr (.of_willing (k := .elementwiseProductAdd) rfl ?_)⟩⟩
  · exact combine_willing rfl hw.first.1.ge (hequal.trans_le hw.second.1.ge) hw.output.1.ge _
  · exact combine_willing rfl hw.first.1.ge hw.output.2.ge (hequal.trans_le hw.second.2.ge) _
  · exact combine_willing rfl (hequal.trans_le hw.second.1.ge) hw.output.2.ge hw.first.2.ge _

theorem add_runs {time : Int} (h : (add time : Operator α).Fits a b out)
    (hw : w.Holds c (add time) a b out) : (add time).AllRun a b out tile w c := by
  obtain ⟨hequal, rfl⟩ := h.equal (.inr ⟨time, rfl⟩)
  refine ⟨.of_willing (k := .add) rfl ?_, List.forall_mem_cons.mpr
    ⟨.of_willing (k := .copyAdd) rfl ?_,
      List.forall_mem_singleton.mpr (.of_willing (k := .copyAdd) rfl ?_)⟩⟩
  · exact combine_willing rfl hw.first.1.ge (hequal.trans_le hw.second.1.ge) hw.output.1.ge _
  · exact copyAdd_willing rfl hw.output.2.ge hw.first.2.ge
  · exact copyAdd_willing rfl hw.output.2.ge (hequal.trans_le hw.second.2.ge)

theorem copy_runs (h : op.Fits a b out) (hw : w.Holds c op a b out)
    (hop : op = .copyInit ∨ ∃ time, op = .copy time) : op.AllRun a b out tile w c := by
  obtain rfl | ⟨time, rfl⟩ := hop
  all_goals
    obtain rfl := Except.ok.inj h.shape
    refine ⟨.of_willing (k := .copy) rfl ?_,
      List.forall_mem_singleton.mpr (.of_willing (k := .copyAdd) rfl ?_)⟩
    · exact copy_willing rfl hw.first.1.ge hw.output.1.ge
    · exact copyAdd_willing rfl hw.output.2.ge hw.first.2.ge

theorem subtractFromConst_runs {constant : α}
    (h : (subtractFromConst constant : Operator α).Fits a b out)
    (hw : w.Holds c (subtractFromConst constant) a b out) :
    (subtractFromConst constant).AllRun a b out tile w c := by
  obtain rfl := Except.ok.inj h.shape
  refine ⟨.of_willing (k := .subtractFromConst) rfl ?_,
    List.forall_mem_singleton.mpr (.of_willing (k := .subtractFromConstGrad) rfl ?_)⟩
  · exact subtractFromConst_willing rfl hw.first.1.ge hw.output.1.ge
  · exact subtractFromConstGrad_willing rfl hw.output.2.ge hw.first.2.ge

theorem addBias_runs (h : (addBias : Operator α).Fits a b out) (hw : w.Holds c addBias a b out) :
    addBias.AllRun a b out tile w c := by
  obtain ⟨hbias, rfl⟩ := h.addBias
  refine ⟨.of_willing (k := .addToMatrix) rfl ?_, List.forall_mem_cons.mpr
    ⟨.of_willing (k := .copyAdd) rfl ?_,
      List.forall_mem_singleton.mpr (.of_willing (k := .addToMatrixGrad) rfl ?_)⟩⟩
  · exact addToMatrix_willing rfl hw.first.1.ge (hbias.ge.trans hw.second.1.ge) hw.output.1.ge
  · exact copyAdd_willing rfl hw.output.2.ge hw.first.2.ge
  · exact addToMatrixGrad_willing rfl hw.output.2.ge (hbias.ge.trans hw.second.2.ge)

theorem addBiasConv_runs (h : (addBiasConv : Operator α).Fits a b out)
    (hw : w.Holds c addBiasConv a b out) : addBiasConv.AllRun a b out tile w c := by
  obtain ⟨hbias, rfl⟩ := h.addBiasConv
  refine ⟨.of_willing (k := .addToImage) rfl ?_, List.forall_mem_cons.mpr
    ⟨.of_willing (k := .copyAdd) rfl ?_,
      List.forall_mem_singleton.mpr (.of_willing (k := .addToImageGrad) rfl ?_)⟩⟩
  · exact addToImage_willing rfl hw.first.1.ge (hbias.ge.trans hw.second.1.ge) hw.output.1.ge
  · exact copyAdd_willing rfl hw.output.2.ge hw.first.2.ge
  · exact addToImageGrad_willing rfl hw.output.2.ge (hbias.ge.trans hw.second.2.ge)

theorem maxPool_runs {pad stride size : Nat}
    (h : (maxPool pad stride size : Operator α).Fits a b out)
    (hw : w.Holds c (maxPool pad stride size) a b out) :
    (maxPool pad stride size).AllRun a b out tile w c := by
  obtain ⟨x, y, rfl, hx, hy⟩ := h.maxPool
  have hcells : ∀ p q : Nat, p * q * (a.z * a.w) = p * q * a.z * a.w := fun p q =>
    (Nat.mul_assoc _ _ _).symm
  have hin := (hcells a.x a.y).trans_le hw.first.1.ge
  refine ⟨.of_willing (k := .maxPooling) rfl ?_,
    List.forall_mem_singleton.mpr (.of_willing (k := .maxPoolingGrad) rfl ?_)⟩
  · exact maxPooling_willing hx hy rfl hin ((hcells _ _).trans_le hw.output.1.ge)
  · exact maxPoolingGrad_willing hx hy rfl hin ((hcells _ _).trans_le hw.output.2.ge)
      ((hcells _ _).trans_le hw.first.2.ge)

theorem transpose_runs (h : (transpose : Operator α).Fits a b out)
    (hw : w.Holds c transpose a b out) : transpose.AllRun a b out tile w c := by
  refine ⟨.of_willing (k := .transpose) rfl ?_, List.forall_mem_nil _⟩
  obtain rfl := Except.ok.inj h.shape
  have hplanes : max (Launch.roundUp (a.z * a.w) 1) 1 = a.z * a.w := by
    have hpos := Shape.extents_pos h.pos.1
    have hplane := Nat.mul_pos hpos.2.2.1 hpos.2.2.2
    rw [Launch.roundUp_one]
    omega
  have hcells : a.y * a.x * max (Launch.roundUp (a.z * a.w) 1) 1 = a.elements := by
    rw [hplanes, Shape.elements]
    ring
  refine transpose_willing rfl (hcells.trans_le hw.first.1.ge) (hcells.trans_le ?_)
  refine le_trans (le_of_eq ?_) hw.output.1.ge
  simp only [Shape.elements]
  ring

theorem crossEntropy_runs (h : (crossEntropy : Operator α).Fits a b out)
    (hw : w.Holds c crossEntropy a b out) : crossEntropy.AllRun a b out tile w c := by
  obtain ⟨hlabels, rfl⟩ := h.labels (.inl rfl)
  have hb := hlabels.ge.trans hw.second.1.ge
  refine ⟨.of_willing (k := .crossEntropy) rfl ?_,
    List.forall_mem_singleton.mpr (.of_willing (k := .crossEntropyGrad) rfl ?_)⟩
  · exact crossEntropy_willing rfl hw.first.1.ge hb hw.output.1.ge
  · exact crossEntropyGrad_willing rfl hw.first.1.ge hb hw.first.2.ge

theorem accuracy_runs (h : (accuracy : Operator α).Fits a b out)
    (hw : w.Holds c accuracy a b out) : accuracy.AllRun a b out tile w c := by
  obtain ⟨hlabels, rfl⟩ := h.labels (.inr rfl)
  refine ⟨.of_willing (k := .classificationAccuracy) rfl ?_, List.forall_mem_nil _⟩
  exact classificationAccuracy_willing rfl hw.first.1.ge (hlabels.ge.trans hw.second.1.ge)
    hw.output.1.ge

theorem leastSquares_runs (h : (leastSquares : Operator α).Fits a b out)
    (hw : w.Holds c leastSquares a b out) : leastSquares.AllRun a b out tile w c := by
  obtain ⟨hequal, rfl⟩ := h.leastSquares
  have hb := hequal.trans_le hw.second.1.ge
  refine ⟨.of_willing (k := .meanSquaredError) rfl ?_,
    List.forall_mem_singleton.mpr (.of_willing (k := .meanSquaredErrorGrad) rfl ?_)⟩
  · exact meanSquaredError_willing rfl hw.first.1.ge hb hw.output.1.ge
  · exact meanSquaredErrorGrad_willing rfl hw.first.1.ge hb hw.first.2.ge

theorem split_runs {tileX tileY : Nat} (h : (split tileX tileY : Operator α).Fits a b out)
    (hw : w.Holds c (split tileX tileY) a b out) : (split tileX tileY).AllRun a b out tile w c := by
  obtain rfl := h.split
  refine ⟨.of_willing (k := .splitData) rfl ?_,
    List.forall_mem_singleton.mpr (.of_willing (k := .splitDataGrad) rfl ?_)⟩
  · exact splitData_willing rfl hw.first.1.ge hw.output.1.ge
  · exact splitDataGrad_willing rfl hw.output.2.ge hw.first.2.ge

/-- The kernels of an operator run on buffers of the shapes that it accepts. -/
theorem Fits.all_run (h : op.Fits a b out) (hw : w.Holds c op a b out) (tile : Nat) :
    op.AllRun a b out tile w c := by
  cases op with
  | matMul => exact product_runs h hw (.inl rfl)
  | matMulFlat => exact product_runs h hw (.inr rfl)
  | conv2d => exact convolution_runs h hw
  | activation => exact activation_runs h hw
  | softmax => exact softmax_runs h hw
  | elementwiseProduct => exact elementwiseProduct_runs h hw
  | add => exact add_runs h hw
  | copy time => exact copy_runs h hw (.inr ⟨time, rfl⟩)
  | copyInit => exact copy_runs h hw (.inl rfl)
  | subtractFromConst => exact subtractFromConst_runs h hw
  | addBias => exact addBias_runs h hw
  | addBiasConv => exact addBiasConv_runs h hw
  | maxPool => exact maxPool_runs h hw
  | transpose => exact transpose_runs h hw
  | crossEntropy => exact crossEntropy_runs h hw
  | accuracy => exact accuracy_runs h hw
  | leastSquares => exact leastSquares_runs h hw
  | split => exact split_runs h hw

end

end Operator

end Backprop
