import Mathlib
import Backprop.Proofs.Kernel.Batch

/-! Batches: what the forward kernel of an operator makes of a row is the row of what it makes of
the batch. -/

namespace Backprop

variable {α : Type}

namespace Shape

variable {s : Shape}

theorem extents_pos (h : 0 < s.elements) : 0 < s.x ∧ 0 < s.y ∧ 0 < s.z ∧ 0 < s.w := by
  have hxyz := Nat.pos_of_mul_pos_right h
  have hxy := Nat.pos_of_mul_pos_right hxyz
  exact ⟨Nat.pos_of_mul_pos_right hxy, Nat.pos_of_mul_pos_left hxy, Nat.pos_of_mul_pos_left hxyz,
    Nat.pos_of_mul_pos_left h⟩

theorem extents_le (h : 0 < s.elements) :
    s.x ≤ s.elements ∧ s.y ≤ s.elements ∧ s.z ≤ s.elements ∧ s.w ≤ s.elements := by
  refine ⟨Nat.le_of_dvd h ⟨s.y * s.z * s.w, ?_⟩, Nat.le_of_dvd h ⟨s.x * s.z * s.w, ?_⟩,
    Nat.le_of_dvd h ⟨s.x * s.y * s.w, ?_⟩, Nat.le_of_dvd h ⟨s.x * s.y * s.z, ?_⟩⟩
  all_goals
    unfold elements
    ring

theorem elements_withRows (h : s.w = 1) (rows : Nat) :
    (s.withRows rows).elements = s.elements * rows := by
  rw [elements, elements, h, Nat.mul_one]
  rfl

end Shape

theorem Launch.roundUp_one (n : Nat) : roundUp n 1 = max n 1 := by
  simp [roundUp]

namespace Operator

/-- Operators whose second operand is a parameter: weights, kernels or a bias. -/
def takesParameter : Operator α → Bool
  | matMul | matMulFlat | conv2d .. | addBias | addBiasConv => true
  | _ => false

/-- Paddings, strides and window sizes that a kernel can be told. -/
def Tellable : Operator α → Prop
  | conv2d pad stride => (∀ cells, pad = .explicit cells → cells < 2 ^ 31) ∧ stride < 2 ^ 31
  | maxPool pad stride size => pad < 2 ^ 31 ∧ stride < 2 ^ 31 ∧ size < 2 ^ 31
  | _ => True

instance (pad : Padding) : Decidable (∀ cells, pad = .explicit cells → cells < 2 ^ 31) :=
  match pad with
  | .explicit cells => decidable_of_iff (cells < 2 ^ 31) (by simp)
  | .valid | .same | .full => isTrue nofun

instance (op : Operator α) : Decidable op.Tellable :=
  match op with
  | conv2d .. | maxPool .. => inferInstanceAs (Decidable (_ ∧ _))
  | matMul | matMulFlat | activation _ | softmax | elementwiseProduct | add _ | copy _
  | subtractFromConst _ | addBias | addBiasConv | transpose | crossEntropy | leastSquares
  | accuracy | split .. | copyInit => isTrue trivial

/-- The shape of the second operand where the first has `rows` rows. -/
def second (op : Operator α) (b : Shape) (rows : Nat) : Shape :=
  if op.takesParameter then b else b.withRows rows

/-- Row `row` of the second operand; a parameter belongs to all rows. -/
def secondRow (op : Operator α) (b : Shape) (row : Nat) (y : Array α) : Array α :=
  if op.takesParameter then y else rowOf b.elements row y

def forwardOperands (op : Operator α) (a b out : Shape) (tile : Nat) (x y z : Array α) :
    Operands α :=
  ⟨(if op.arity = 2 then [x, y, z] else [x, z]).map .words ++ (op.numbers a b tile).map .scalar,
    op.forwardLaunch a b out⟩

/-- Shapes of an operator on single rows, and numbers that a kernel can be told. -/
structure OnRows (op : Operator α) (a b out : Shape) : Prop where
  shape : op.shapeOf a b = .ok out
  first : a.w = 1
  second : op.takesParameter = false → b.w = 1
  pos : 0 < a.elements ∧ 0 < b.elements
  tellable : op.Tellable

/-- Operands and an old output for a batch of so many rows. -/
structure OnBatch (op : Operator α) (a b out : Shape) (rows : Nat) (x y z : Array α) : Prop where
  small : a.elements * rows < 2 ^ 31 ∧ (op.second b rows).elements < 2 ^ 31 ∧
    out.elements * rows < 2 ^ 31
  first : x.size = a.elements * rows
  second : op.arity = 2 → y.size = (op.second b rows).elements
  output : z.size = out.elements * rows

/-- The forward kernel makes of a row what is that row of the batch. -/
def ByRows [Scalar α] (op : Operator α) (a b out : Shape) : Prop :=
  ∀ (rows row tile : Nat) (x y z : Array α), row < rows →
    op.OnBatch a b out rows x y z →
    Kernel.RowWise op.forwardKernel.run
      (op.forwardOperands (a.withRows rows) (op.second b rows) (out.withRows rows) tile x y z)
      (op.forwardOperands a b out tile (rowOf a.elements row x) (op.secondRow b row y)
        (rowOf out.elements row z)) op.arity out.elements row

open Operands Kernel

variable {a b out : Shape}

section

variable {op : Operator α}

theorem OnRows.elements (h : op.OnRows a b out) : a.elements = a.x * a.y * a.z := by
  rw [Shape.elements, h.first, Nat.mul_one]

theorem OnRows.elements_withRows (h : op.OnRows a b out) (rows : Nat) :
    (a.withRows rows).elements = a.elements * rows := Shape.elements_withRows h.first rows

theorem OnRows.rowElements (h : op.OnRows a b out) : a.rowElements = a.elements := by
  rw [h.elements]
  rfl

theorem OnRows.elements_second (h : op.OnRows a b out) (hop : op.takesParameter = false)
    (rows : Nat) : (op.second b rows).elements = b.elements * rows := by
  unfold Operator.second
  rw [if_neg (by simp [hop]), Shape.elements_withRows (h.second hop)]

end

variable [Scalar α]

theorem product_byRows {op : Operator α} {m k : Nat} (h : op.OnRows a b out)
    (hkernel : op.forwardKernel = .matrixProduct) (harity : op.arity = 2)
    (htakes : op.takesParameter = true)
    (hnumbers : ∀ rows tile, op.numbers (a.withRows rows) b tile =
      [.int (m * rows), .int b.x, .int k])
    (ha : a.elements = m * k) (hb : b.elements = k * b.x) (hout : out.elements = m * b.x) :
    op.ByRows a b out := by
  intro rows row tile x y z hrow hbatch
  have hsecond : ∀ rows, op.second b rows = b := fun rows => if_pos htakes
  have hone : op.numbers a b tile = [.int m, .int b.x, .int k] := by
    have h₁ := hnumbers 1 tile
    rw [Nat.mul_one] at h₁
    rw [← h₁, Shape.withRows, ← h.first]
  obtain ⟨⟨hsa, hsb, hso⟩, hx, hy, hz⟩ := hbatch
  rw [hsecond] at hsb hy
  rw [ha] at hx hsa
  rw [hout] at hz hso
  have hpos := h.pos
  rw [ha, hb] at hpos
  have hk := Nat.pos_of_mul_pos_left hpos.1
  have hn := Nat.pos_of_mul_pos_left hpos.2
  have hsmall : m * rows < 2 ^ 31 ∧ b.x < 2 ^ 31 ∧ k < 2 ^ 31 := by
    refine ⟨lt_of_mul_lt (q := k) (by rwa [Nat.mul_right_comm]) hk, ?_, ?_⟩
    · exact lt_of_mul_lt (q := k) (by rwa [Nat.mul_comm, ← hb]) hk
    · exact lt_of_mul_lt (q := b.x) (by rwa [← hb]) hn
  rw [hkernel, harity, ha, hout]
  refine matrixProduct_rowWise hrow hsmall ?_ ?_ hx (by rw [hy harity, hb]) hz
  · simp only [forwardOperands, harity, hsecond, hnumbers]
    rfl
  · simp only [forwardOperands, secondRow, harity, htakes, hone]
    rfl

theorem matMul_byRows (h : (matMul : Operator α).OnRows a b out) :
    (matMul : Operator α).ByRows a b out := by
  have ha := h.elements
  have hx := (Shape.extents_pos h.pos.1).1
  have hshape := h.shape
  simp only [shapeOf] at hshape
  split at hshape
  · next hfit =>
    cases hshape
    refine product_byRows (m := a.y * a.z) (k := a.x) h rfl rfl rfl (fun rows tile => ?_) ?_ ?_ ?_
    · simp only [numbers, productRows, contraction]
      congr 2
      rw [show (a.withRows rows).elements = (a.y * a.z * rows) * a.x by
        change a.x * a.y * a.z * rows = _; ring]
      change _ / max a.x 1 = _
      rw [Nat.max_eq_left hx, Nat.mul_div_cancel _ hx]
    · rw [ha]
      ring
    · rw [Shape.elements, Nat.mul_assoc, hfit.2, hfit.1]
      ring
    · rw [Shape.elements, h.first]
      ring
  · cases hshape

theorem matMulFlat_byRows (h : (matMulFlat : Operator α).OnRows a b out) :
    (matMulFlat : Operator α).ByRows a b out := by
  have hpos := h.pos.1
  rw [Shape.elements_eq_rowElements_mul, h.first, Nat.mul_one] at hpos
  have hshape := h.shape
  simp only [shapeOf] at hshape
  split at hshape
  · next hfit =>
    cases hshape
    refine product_byRows (m := 1) (k := a.rowElements) h rfl rfl rfl (fun rows tile => ?_) ?_ ?_ ?_
    · simp only [numbers, productRows, contraction, Shape.rowElements_withRows, Nat.one_mul]
      rw [Shape.elements_eq_rowElements_mul, Shape.rowElements_withRows, Nat.max_eq_left hpos,
        Nat.mul_div_cancel_left _ hpos]
      rfl
    · rw [Shape.elements_eq_rowElements_mul, h.first]
      ring
    · rw [Shape.elements, Nat.mul_assoc, hfit.2, hfit.1]
      ring
    · rw [Shape.elements, h.first]
      ring
  · cases hshape

theorem copy_byRows {op : Operator α} (h : op.OnRows a b out) (hkernel : op.forwardKernel = .copy)
    (harity : op.arity = 1) (hnumbers : ∀ a b tile, op.numbers a b tile = [.int a.elements])
    (hout : out = a) : op.ByRows a b out := by
  intro rows row tile x y z hrow hbatch
  subst hout
  rw [hkernel, harity]
  refine copy_rowWise hrow hbatch.small.1 ?_ ?_ hbatch.first hbatch.output
  · simp only [forwardOperands, harity, hnumbers, h.elements_withRows]
    rfl
  · simp only [forwardOperands, harity, hnumbers]
    rfl

theorem activation_byRows {kind : Activation} (h : (activation kind : Operator α).OnRows a b out) :
    (activation kind : Operator α).ByRows a b out := by
  intro rows row tile x y z hrow hbatch
  have hshape := h.shape
  cases hshape
  have ho : ((activation kind : Operator α).forwardOperands (a.withRows rows)
      ((activation kind : Operator α).second b rows) (a.withRows rows) tile x y z).args =
      [.words x, .words z, .scalar (.int (a.elements * rows))] := by
    rw [← h.elements_withRows]
    rfl
  cases kind <;> exact activation_rowWise hrow hbatch.small.1 ho rfl hbatch.first hbatch.output

theorem softmax_byRows (h : (softmax : Operator α).OnRows a b out) :
    (softmax : Operator α).ByRows a b out := by
  intro rows row tile x y z hrow hbatch
  cases h.shape
  refine softmax_rowWise hrow hbatch.small.1 h.pos.1 ?_ ?_ hbatch.first hbatch.output
  · rw [← h.rowElements]
    rfl
  · rw [← h.rowElements, ← h.first]
    rfl

theorem combine_byRows {op : Operator α} {f : α → α → α → α} (h : op.OnRows a b out)
    (hkernel : op.forwardKernel.run = combine f) (harity : op.arity = 2)
    (htakes : op.takesParameter = false)
    (hnumbers : ∀ a b tile, op.numbers a b tile = [.int a.elements])
    (hshape : op.shapeOf a b = op.requireEqualElements a b >>= fun _ => pure a) :
    op.ByRows a b out := by
  intro rows row tile x y z hrow hbatch
  have hout := h.shape
  rw [hshape, Except.bind_ok_iff] at hout
  obtain ⟨u, hequal, hout⟩ := hout
  cases hout
  have hab : b.elements = a.elements := by
    unfold requireEqualElements at hequal
    split at hequal
    · next he => exact he.symm
    · cases hequal
  rw [hkernel, harity]
  have hy := hbatch.second harity
  rw [h.elements_second htakes, hab] at hy
  refine combine_rowWise hrow hbatch.small.1 ?_ ?_ hbatch.first hy hbatch.output
  · simp only [forwardOperands, harity, hnumbers, h.elements_withRows]
    rfl
  · simp only [forwardOperands, harity, hnumbers, secondRow, htakes, hab]
    rfl

theorem subtractFromConst_byRows {c : α} (h : (subtractFromConst c).OnRows a b out) :
    (subtractFromConst c).ByRows a b out := by
  intro rows row tile x y z hrow hbatch
  cases h.shape
  refine subtractFromConst_rowWise (c := c) hrow hbatch.small.1 ?_ ?_ hbatch.first hbatch.output
  · rw [← h.elements_withRows]
    rfl
  · rfl

theorem addBias_byRows (h : (addBias : Operator α).OnRows a b out) :
    (addBias : Operator α).ByRows a b out := by
  intro rows row tile x y z hrow hbatch
  have hshape := h.shape
  simp only [shapeOf] at hshape
  split at hshape
  · next hbias =>
    cases hshape
    have hy := hbatch.second rfl
    have hsecond : (addBias : Operator α).second b rows = b := rfl
    rw [hsecond, hbias, h.rowElements] at hy
    refine addToMatrix_rowWise hrow hbatch.small.1 h.pos.1 ?_ ?_ hbatch.first hy.ge hbatch.output
    · rw [← h.rowElements]
      rfl
    · rw [← h.rowElements, ← h.first]
      rfl
  · cases hshape

theorem addBiasConv_byRows (h : (addBiasConv : Operator α).OnRows a b out) :
    (addBiasConv : Operator α).ByRows a b out := by
  intro rows row tile x y z hrow hbatch
  have hshape := h.shape
  simp only [shapeOf] at hshape
  split at hshape
  · next hbias =>
    cases hshape
    have hy := hbatch.second rfl
    have hsecond : (addBiasConv : Operator α).second b rows = b := rfl
    rw [hsecond, hbias] at hy
    have hx := hbatch.first
    have hz := hbatch.output
    have hn := hbatch.small.1
    have hpos := h.pos.1
    rw [h.elements] at hx hz hn hpos ⊢
    refine addToImage_rowWise hrow hn hpos ?_ ?_ hx hy.ge hz
    · rfl
    · rw [← h.first]
      rfl
  · cases hshape

theorem transpose_byRows (h : (transpose : Operator α).OnRows a b out) :
    (transpose : Operator α).ByRows a b out := by
  intro rows row tile x y z hrow hbatch
  cases h.shape
  have hin : a.elements = a.y * a.x * a.z := by rw [h.elements, Nat.mul_comm a.x]
  have hout : (⟨a.y, a.x, a.z, a.w⟩ : Shape).elements = a.y * a.x * a.z := by
    rw [Shape.elements, h.first, Nat.mul_one]
  have hlt : a.elements < 2 ^ 31 := lt_of_mul_lt hbatch.small.1 (by omega)
  obtain ⟨hx, hy, -⟩ := Shape.extents_le h.pos.1
  have hz := (Shape.extents_pos h.pos.1).2.2.1
  have hfirst := hbatch.first
  have houtput := hbatch.output
  have hlayers : 0 < a.z * rows := Nat.mul_pos hz (by omega)
  rw [hin] at hfirst ⊢
  rw [hout] at houtput ⊢
  refine transpose_rowWise hrow ⟨by omega, by omega⟩ rfl rfl ?_ ?_ hfirst houtput
  · change max (Launch.roundUp (a.z * rows) 1) 1 = _
    rw [Launch.roundUp_one]
    omega
  · change max (Launch.roundUp (a.z * a.w) 1) 1 = _
    rw [Launch.roundUp_one, h.first]
    omega

theorem convolvedPlane_ok_iff {k : Shape} {pad : Padding} {stride ex ey cells : Nat} :
    convolvedPlane a k pad stride = .ok (ex, ey, cells) ↔
      convolvedExtent? a.x k.x (pad.cells k.x) stride = some ex ∧
        convolvedExtent? a.y k.y (pad.cells k.x) stride = some ey ∧ cells = pad.cells k.x := by
  simp only [convolvedPlane]
  cases convolvedExtent? a.x k.x (pad.cells k.x) stride with
  | none => simp
  | some x =>
    cases convolvedExtent? a.y k.y (pad.cells k.x) stride with
    | none => simp
    | some y => simp [eq_comm]

theorem Padding.cells_lt {pad : Padding} {width k : Nat} (hw : width < k)
    (h : ∀ cells, pad = .explicit cells → cells < k) : pad.cells width < k := by
  cases pad with
  | valid => exact Nat.zero_lt_of_lt hw
  | same => exact (Nat.div_le_self width 2).trans_lt hw
  | full => exact (Nat.sub_le width 1).trans_lt hw
  | explicit cells => exact h cells rfl

theorem conv2d_byRows {pad : Padding} {stride : Nat}
    (h : (conv2d pad stride : Operator α).OnRows a b out) :
    (conv2d pad stride : Operator α).ByRows a b out := by
  intro rows row tile x y z hrow hbatch
  have hshape := h.shape
  simp only [shapeOf] at hshape
  split at hshape
  · cases hshape
  · next hchannels =>
    rw [not_not] at hchannels
    simp only [Except.bind_ok_iff, Except.pure_ok_iff] at hshape
    obtain ⟨⟨ex, ey, cells⟩, hplane, rfl⟩ := hshape
    obtain ⟨hex, hey, rfl⟩ := convolvedPlane_ok_iff.mp hplane
    have hplanes : ∀ rows, plane (a.withRows rows) b pad stride = (ex, ey, pad.cells b.x) := by
      intro rows
      have hrows : convolvedPlane (a.withRows rows) b pad stride = .ok (ex, ey, pad.cells b.x) :=
        convolvedPlane_ok_iff.mpr ⟨hex, hey, rfl⟩
      rw [plane, hrows]
    have hin : a.elements = a.x * a.y * b.z := by rw [h.elements, hchannels]
    have hout : (⟨ex, ey, b.w, a.w⟩ : Shape).elements = ex * ey * b.w := by
      rw [Shape.elements, h.first, Nat.mul_one]
    have hy := hbatch.second rfl
    have hx := hbatch.first
    have hz := hbatch.output
    obtain ⟨hsmall, hkernel, -⟩ := hbatch.small
    have hlt : a.elements < 2 ^ 31 := lt_of_mul_lt hsmall (by omega)
    have hrows : rows < 2 ^ 31 := lt_of_mul_lt (Nat.mul_comm _ rows ▸ hsmall) h.pos.1
    have hk : b.elements < 2 ^ 31 := hkernel
    obtain ⟨hax, hay, -⟩ := Shape.extents_le h.pos.1
    obtain ⟨hbx, hby, hbz, hbw⟩ := Shape.extents_le h.pos.2
    have hcells : pad.cells b.x < 2 ^ 31 := Padding.cells_lt (by omega) h.tellable.1
    rw [hin] at hx ⊢
    rw [hout] at hz ⊢
    refine convolution_rowWise (e := ⟨b.x, b.y, b.z, b.w⟩) hrow ?_ hex hey ?_ ?_ hx hy.ge hz
    · have hstride := h.tellable.2
      simp only [List.mem_cons, List.not_mem_nil, or_false, forall_eq_or_imp, forall_eq]
      omega
    · have hsecond : (conv2d pad stride : Operator α).second b rows = b := rfl
      simp only [forwardOperands, numbers, hsecond, hplanes]
      rfl
    · have hone := hplanes 1
      rw [Shape.withRows, ← h.first] at hone
      simp only [forwardOperands, numbers, hone, h.first]
      rfl

theorem maxPool_byRows {pad stride size : Nat}
    (h : (maxPool pad stride size : Operator α).OnRows a b out) :
    (maxPool pad stride size : Operator α).ByRows a b out := by
  intro rows row tile x y z hrow hbatch
  have hshape := h.shape
  simp only [shapeOf] at hshape
  split at hshape
  · next ex ey hex hey =>
    cases hshape
    have hout : (⟨ex, ey, a.z, a.w⟩ : Shape).elements = ex * ey * a.z := by
      rw [Shape.elements, h.first, Nat.mul_one]
    have hx := hbatch.first
    have hz := hbatch.output
    have hsmall := hbatch.small.1
    have hlt : a.elements < 2 ^ 31 := lt_of_mul_lt hsmall (by omega)
    obtain ⟨hax, hay, -⟩ := Shape.extents_le h.pos.1
    obtain ⟨hxp, hyp, -⟩ := Shape.extents_pos h.pos.1
    have hplanes : a.z * rows < 2 ^ 31 := by
      refine lt_of_mul_lt (q := a.x * a.y) ?_ (Nat.mul_pos hxp hyp)
      rw [h.elements] at hsmall
      linarith
    rw [h.elements] at hx ⊢
    rw [hout] at hz ⊢
    refine maxPooling_rowWise hrow ?_ hex hey ?_ ?_ hx hz
    · obtain ⟨hpad, hstride, hsize⟩ := h.tellable
      simp only [List.mem_cons, List.not_mem_nil, or_false, forall_eq_or_imp, forall_eq]
      omega
    · rfl
    · simp only [forwardOperands, numbers, h.first, Nat.mul_one]
      rfl
  · cases hshape

theorem split_byRows {tileX tileY : Nat} (h : (split tileX tileY : Operator α).OnRows a b out) :
    (split tileX tileY : Operator α).ByRows a b out := by
  intro rows row tile x y z hrow hbatch
  have hshape := h.shape
  simp only [shapeOf] at hshape
  split at hshape
  · cases hshape
  · next hpos =>
    cases hshape
    have hout : (⟨tileX, tileY, a.z, a.w⟩ : Shape).elements = tileX * tileY * a.z := by
      rw [Shape.elements, h.first, Nat.mul_one]
    have hx := hbatch.first
    have hz := hbatch.output
    obtain ⟨hsmall, -, hsmall'⟩ := hbatch.small
    have hlt : a.elements < 2 ^ 31 := lt_of_mul_lt hsmall (by omega)
    have hlt' := lt_of_mul_lt hsmall' (show 0 < rows by omega)
    have hrows : rows < 2 ^ 31 := lt_of_mul_lt (Nat.mul_comm _ rows ▸ hsmall) h.pos.1
    obtain ⟨hax, hay, haz, -⟩ := Shape.extents_le h.pos.1
    have htile : 0 < (⟨tileX, tileY, a.z, a.w⟩ : Shape).elements := by
      rw [hout]
      have hzp := (Shape.extents_pos h.pos.1).2.2.1
      have hxp : 0 < tileX := by omega
      have hyp : 0 < tileY := by omega
      positivity
    obtain ⟨htx, hty, -⟩ := Shape.extents_le htile
    have htold : ∀ m ∈ [tileX, tileY, a.x, a.y, a.z, rows], m < 2 ^ 31 := by
      simp only [List.mem_cons, List.not_mem_nil, or_false, forall_eq_or_imp, forall_eq]
      exact ⟨htx.trans_lt hlt', hty.trans_lt hlt', by omega, by omega, by omega, hrows⟩
    rw [h.elements] at hx ⊢
    rw [hout] at hz ⊢
    refine splitData_rowWise hrow htold rfl ?_ hx hz
    simp only [forwardOperands, numbers, h.first]
    rfl

/-- What an operator makes of a row is the row of what it makes of the batch, unless it folds the
rows into one value. -/
theorem forward_byRows {op : Operator α} (hop : op.reducesBatch = false) (h : op.OnRows a b out) :
    op.ByRows a b out := by
  cases op with
  | matMul => exact matMul_byRows h
  | matMulFlat => exact matMulFlat_byRows h
  | conv2d pad stride => exact conv2d_byRows h
  | activation kind => exact activation_byRows h
  | softmax => exact softmax_byRows h
  | elementwiseProduct => exact combine_byRows h rfl rfl rfl (fun _ _ _ => rfl) rfl
  | add timeResult => exact combine_byRows h rfl rfl rfl (fun _ _ _ => rfl) rfl
  | copy timeResult => exact copy_byRows h rfl rfl (fun _ _ _ => rfl) (by cases h.shape; rfl)
  | subtractFromConst constant => exact subtractFromConst_byRows h
  | addBias => exact addBias_byRows h
  | addBiasConv => exact addBiasConv_byRows h
  | maxPool pad stride size => exact maxPool_byRows h
  | transpose => exact transpose_byRows h
  | crossEntropy => cases hop
  | leastSquares => cases hop
  | accuracy => cases hop
  | split tileX tileY => exact split_byRows h
  | copyInit => exact copy_byRows h rfl rfl (fun _ _ _ => rfl) (by cases h.shape; rfl)

end Operator

end Backprop
