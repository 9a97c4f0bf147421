import Mathlib
import Backprop.Proofs.Kernel.Rows
import Backprop.Proofs.Kernel.Scratch

/-! Forward kernels on a batch and on one of its rows. -/

namespace Backprop

variable {α : Type}

section

variable {o : Operands α} {args : List (Operand α)} {i n : Nat} {x : Array α}

theorem Operands.extent_at (ho : o.args = args) (h : args[i]? = some (.scalar (.int n)))
    (hn : n < 2 ^ 31) : o.extent i = .ok n := by
  rw [extent_int (ho ▸ h), told_eq (by omega)]

theorem Operands.words_at (ho : o.args = args) (h : args[i]? = some (.words x))
    (hn : n ≤ x.size) : o.words i n = .ok x :=
  words_ok_iff.mpr ⟨ho ▸ h, hn⟩

theorem Operands.float_at [Scalar α] {c : α} (ho : o.args = args)
    (h : args[i]? = some (.scalar (.float c))) : o.float i = .ok c := by
  have hget : o.get i = .ok (.scalar (.float c)) := get_ok_iff.mpr (ho ▸ h)
  unfold float
  rw [hget]
  rfl

end

theorem lt_of_mul_lt {p q k : Nat} (h : p * q < k) (hq : 0 < q) : p < k :=
  (Nat.le_mul_of_pos_right p hq).trans_lt h

namespace Kernel

open Operands

variable {o o' : Operands α} {n r b B : Nat} {x y z : Array α}

theorem Replaces.congr {k : Kernel α} {i n' : Nat} {f : Nat → α → Except Error α}
    (h : Replaces k o i n z f) (hn : n = n') : Replaces k o i n' z f := hn ▸ h

/-! ### Kernels that work entry by entry -/

theorem copy_rowWise (hb : b < B) (hn : n * B < 2 ^ 31)
    (ho : o.args = [.words x, .words z, .scalar (.int (n * B))])
    (ho' : o'.args = [.words (rowOf n b x), .words (rowOf n b z), .scalar (.int n)])
    (hx : x.size = n * B) (hz : z.size = n * B) : RowWise copy o o' 1 n b := by
  have h := copy_replaces (extent_at ho rfl hn) (words_at ho rfl hz.ge) (words_at ho rfl hx.ge)
  have h' := copy_replaces (extent_at ho' rfl (lt_of_mul_lt hn (by omega)))
    (words_at ho' rfl (size_rowOf hb hz.ge).ge) (words_at ho' rfl (size_rowOf hb hx.ge).ge)
  exact h.rowWise hb h' hz fun j hj _ => read_rowOf hj

theorem activation_rowWise {f : α → α} (hb : b < B) (hn : n * B < 2 ^ 31)
    (ho : o.args = [.words x, .words z, .scalar (.int (n * B))])
    (ho' : o'.args = [.words (rowOf n b x), .words (rowOf n b z), .scalar (.int n)])
    (hx : x.size = n * B) (hz : z.size = n * B) : RowWise (activation f) o o' 1 n b := by
  have h := activation_replaces (f := f) (extent_at ho rfl hn) (words_at ho rfl hz.ge)
    (words_at ho rfl hx.ge)
  have h' := activation_replaces (f := f) (extent_at ho' rfl (lt_of_mul_lt hn (by omega)))
    (words_at ho' rfl (size_rowOf hb hz.ge).ge) (words_at ho' rfl (size_rowOf hb hx.ge).ge)
  exact h.rowWise hb h' hz fun j hj _ => by simp only [read_rowOf hj]

theorem combine_rowWise {f : α → α → α → α} (hb : b < B) (hn : n * B < 2 ^ 31)
    (ho : o.args = [.words x, .words y, .words z, .scalar (.int (n * B))])
    (ho' : o'.args = [.words (rowOf n b x), .words (rowOf n b y), .words (rowOf n b z),
      .scalar (.int n)])
    (hx : x.size = n * B) (hy : y.size = n * B) (hz : z.size = n * B) :
    RowWise (combine f) o o' 2 n b := by
  have h := combine_replaces (f := f) (extent_at ho rfl hn) (words_at ho rfl hz.ge)
    (words_at ho rfl hx.ge) (words_at ho rfl hy.ge)
  have h' := combine_replaces (f := f) (extent_at ho' rfl (lt_of_mul_lt hn (by omega)))
    (words_at ho' rfl (size_rowOf hb hz.ge).ge) (words_at ho' rfl (size_rowOf hb hx.ge).ge)
    (words_at ho' rfl (size_rowOf hb hy.ge).ge)
  exact h.rowWise hb h' hz fun j hj _ => by simp only [read_rowOf hj]

theorem transpose_rowWise {rows cols planes : Nat} (hb : b < B)
    (hn : rows < 2 ^ 31 ∧ cols < 2 ^ 31)
    (ho : o.args = [.words x, .words z, .scalar (.int cols), .scalar (.int rows)])
    (ho' : o'.args = [.words (rowOf (rows * cols * planes) b x),
      .words (rowOf (rows * cols * planes) b z), .scalar (.int cols), .scalar (.int rows)])
    (hl : max o.launch.global.z 1 = planes * B) (hl' : max o'.launch.global.z 1 = planes)
    (hx : x.size = rows * cols * planes * B) (hz : z.size = rows * cols * planes * B) :
    RowWise transpose o o' 1 (rows * cols * planes) b := by
  have h := transpose_replaces (n := rows * cols * planes * B) (extent_at ho rfl hn.2)
    (extent_at ho rfl hn.1) (by rw [hl, Nat.mul_assoc]) (words_at ho rfl hz.ge)
    (words_at ho rfl hx.ge)
  have h' := transpose_replaces (n := rows * cols * planes) (extent_at ho' rfl hn.2)
    (extent_at ho' rfl hn.1) (by rw [hl']) (words_at ho' rfl (size_rowOf hb hz.ge).ge)
    (words_at ho' rfl (size_rowOf hb hx.ge).ge)
  refine h.rowWise hb h' hz fun j hj _ => ?_
  obtain ⟨hlt, hshift⟩ := transposeSource_row (b := b) hj
  rw [hshift, read_rowOf hlt]

variable [Scalar α]

theorem subtractFromConst_rowWise {c : α} (hb : b < B) (hn : n * B < 2 ^ 31)
    (ho : o.args = [.words x, .words z, .scalar (.float c), .scalar (.int (n * B))])
    (ho' : o'.args = [.words (rowOf n b x), .words (rowOf n b z), .scalar (.float c),
      .scalar (.int n)])
    (hx : x.size = n * B) (hz : z.size = n * B) : RowWise subtractFromConst o o' 1 n b := by
  have h := subtractFromConst_replaces (float_at ho rfl) (extent_at ho rfl hn)
    (words_at ho rfl hz.ge) (words_at ho rfl hx.ge)
  have h' := subtractFromConst_replaces (float_at ho' rfl)
    (extent_at ho' rfl (lt_of_mul_lt hn (by omega)))
    (words_at ho' rfl (size_rowOf hb hz.ge).ge) (words_at ho' rfl (size_rowOf hb hx.ge).ge)
  exact h.rowWise hb h' hz fun j hj _ => by simp only [read_rowOf hj]

theorem addToMatrix_rowWise (hb : b < B) (hn : n * B < 2 ^ 31) (hpos : 0 < n)
    (ho : o.args = [.words x, .words y, .words z, .scalar (.int n), .scalar (.int B)])
    (ho' : o'.args = [.words (rowOf n b x), .words y, .words (rowOf n b z), .scalar (.int n),
      .scalar (.int 1)])
    (hx : x.size = n * B) (hy : n ≤ y.size) (hz : z.size = n * B) :
    RowWise addToMatrix o o' 2 n b := by
  have hn' : n < 2 ^ 31 := lt_of_mul_lt hn (by omega)
  have hB : B < 2 ^ 31 := lt_of_mul_lt (Nat.mul_comm n B ▸ hn) hpos
  have h := addToMatrix_replaces (extent_at ho rfl hn') (extent_at ho rfl hB)
    (words_at ho rfl hz.ge) (words_at ho rfl hx.ge) (words_at ho rfl hy)
  have h' := (addToMatrix_replaces (extent_at ho' rfl hn') (extent_at ho' rfl (by norm_num))
    (words_at ho' rfl (by rw [Nat.mul_one, size_rowOf hb hz.ge]))
    (words_at ho' rfl (by rw [Nat.mul_one, size_rowOf hb hx.ge])) (words_at ho' rfl hy)).congr
    (Nat.mul_one n)
  refine h.rowWise hb h' hz fun j hj _ => ?_
  have hmod : (b * n + j) % n = j % n := by rw [Nat.mul_comm, Nat.mul_add_mod]
  simp only [read_rowOf hj, remainder, if_neg hpos.ne', hmod]

theorem addToImage_rowWise {plane channels : Nat} (hb : b < B)
    (hn : plane * channels * B < 2 ^ 31) (hpos : 0 < plane * channels)
    (ho : o.args = [.words x, .words y, .words z, .scalar (.int plane), .scalar (.int channels),
      .scalar (.int B)])
    (ho' : o'.args = [.words (rowOf (plane * channels) b x), .words y,
      .words (rowOf (plane * channels) b z), .scalar (.int plane), .scalar (.int channels),
      .scalar (.int 1)])
    (hx : x.size = plane * channels * B) (hy : channels ≤ y.size)
    (hz : z.size = plane * channels * B) :
    RowWise addToImage o o' 2 (plane * channels) b := by
  have hn' : plane * channels < 2 ^ 31 := lt_of_mul_lt hn (by omega)
  have hB : B < 2 ^ 31 := lt_of_mul_lt (Nat.mul_comm _ B ▸ hn) hpos
  have hplane := Nat.pos_of_mul_pos_right hpos
  have hchannels := Nat.pos_of_mul_pos_left hpos
  have hp : plane < 2 ^ 31 := lt_of_mul_lt hn' hchannels
  have hc : channels < 2 ^ 31 := lt_of_mul_lt (Nat.mul_comm plane _ ▸ hn') hplane
  have h := addToImage_replaces (extent_at ho rfl hp) (extent_at ho rfl hc) (extent_at ho rfl hB)
    (words_at ho rfl hz.ge) (words_at ho rfl hx.ge) (words_at ho rfl hy)
  have h' := (addToImage_replaces (extent_at ho' rfl hp) (extent_at ho' rfl hc)
    (extent_at ho' rfl (by norm_num)) (words_at ho' rfl (by rw [Nat.mul_one, size_rowOf hb hz.ge]))
    (words_at ho' rfl (by rw [Nat.mul_one, size_rowOf hb hx.ge])) (words_at ho' rfl hy)).congr
    (Nat.mul_one _)
  refine h.rowWise hb h' hz fun j hj _ => ?_
  have hdiv : (b * (plane * channels) + j) / plane % channels = j / plane % channels := by
    rw [show b * (plane * channels) + j = plane * (channels * b) + j by ring,
      Nat.mul_add_div hplane, Nat.mul_add_mod]
  simp only [read_rowOf hj, quotient, remainder, if_neg hplane.ne', if_neg hchannels.ne',
    Except.ok_bind, hdiv]

/-! ### Kernels that work row by row -/

theorem softmax_rowWise (hb : b < B) (hn : n * B < 2 ^ 31) (hpos : 0 < n)
    (ho : o.args = [.words x, .words z, .scalar (.int n), .scalar (.int B)])
    (ho' : o'.args = [.words (rowOf n b x), .words (rowOf n b z), .scalar (.int n),
      .scalar (.int 1)])
    (hx : x.size = n * B) (hz : z.size = n * B) : RowWise softmax o o' 1 n b := by
  have hn' : n < 2 ^ 31 := lt_of_mul_lt hn (by omega)
  have hB : B < 2 ^ 31 := lt_of_mul_lt (Nat.mul_comm n B ▸ hn) hpos
  have h := (softmax_replaces (extent_at ho rfl hn') (extent_at ho rfl hB)
    (words_at ho rfl hz.ge) (words_at ho rfl hx.ge)).congr (Nat.mul_comm B n)
  have h' := (softmax_replaces (extent_at ho' rfl hn') (extent_at ho' rfl (by norm_num))
    (words_at ho' rfl (by rw [Nat.mul_one, size_rowOf hb hz.ge]))
    (words_at ho' rfl (by rw [Nat.mul_one, size_rowOf hb hx.ge]))).congr (Nat.one_mul n)
  refine h.rowWise hb h' hz fun j hj _ => ?_
  rw [row_div hj, row_mod hj, Nat.div_eq_of_lt hj, Nat.mod_eq_of_lt hj, Nat.zero_mul, rowScale_row,
    Nat.zero_add, read_rowOf hj]

theorem matrixProduct_rowWise {rows k' : Nat} (hb : b < B)
    (hsmall : rows * B < 2 ^ 31 ∧ n < 2 ^ 31 ∧ k' < 2 ^ 31)
    (ho : o.args = [.words x, .words y, .words z, .scalar (.int (rows * B)), .scalar (.int n),
      .scalar (.int k')])
    (ho' : o'.args = [.words (rowOf (rows * k') b x), .words y, .words (rowOf (rows * n) b z),
      .scalar (.int rows), .scalar (.int n), .scalar (.int k')])
    (hx : x.size = rows * k' * B) (hy : k' * n ≤ y.size) (hz : z.size = rows * n * B) :
    RowWise matrixProduct o o' 2 (rows * n) b := by
  have hcount : ∀ q, rows * B * q = rows * q * B := fun q => Nat.mul_right_comm rows B q
  have h : Replaces (matrixProductWith 0) o 2 (rows * n * B) z _ := (matrixProductWith_replaces
    (extent_at ho rfl hsmall.1) (extent_at ho rfl hsmall.2.1) (extent_at ho rfl hsmall.2.2)
    (words_at ho rfl ((hcount n).trans hz.symm).le) (words_at ho rfl ((hcount k').trans hx.symm).le)
    (words_at ho rfl hy)).congr (hcount n)
  have h' : Replaces (matrixProductWith 0) o' 2 (rows * n) _ _ := matrixProductWith_replaces
    (extent_at ho' rfl (lt_of_mul_lt hsmall.1 (by omega))) (extent_at ho' rfl hsmall.2.1)
    (extent_at ho' rfl hsmall.2.2) (words_at ho' rfl (size_rowOf hb hz.ge).ge)
    (words_at ho' rfl (size_rowOf hb hx.ge).ge) (words_at ho' rfl hy)
  refine h.rowWise hb h' hz fun p hp old => ?_
  have hpos : 0 < n := Nat.pos_of_ne_zero fun hn => by simp [hn] at hp
  have hrow : p / n < rows := by rwa [Nat.div_lt_iff_lt_mul hpos]
  have hsplit : b * (rows * n) + p = (b * rows + p / n) * n + p % n := by
    have hdiv := Nat.div_add_mod' p n
    linear_combination hdiv.symm
  rw [hsplit, row_div (Nat.mod_lt p hpos), row_mod (Nat.mod_lt p hpos), dotProduct_row hrow]

/-! ### Kernels that work on planes -/

theorem convolution_rowWise {inX inY pad stride outX outY : Nat} {e : KernelExtents} (hb : b < B)
    (hsmall : ∀ m ∈ [inX, inY, e.x, e.y, e.z, e.w, pad, stride, B], m < 2 ^ 31)
    (houtX : convolvedExtent? inX e.x pad stride = some outX)
    (houtY : convolvedExtent? inY e.y pad stride = some outY)
    (ho : o.args = [.words x, .words y, .words z, .scalar (.int inX), .scalar (.int inY),
      .scalar (.int e.x), .scalar (.int e.y), .scalar (.int e.z), .scalar (.int e.w),
      .scalar (.int pad), .scalar (.int stride), .scalar (.int B)])
    (ho' : o'.args = [.words (rowOf (inX * inY * e.z) b x), .words y,
      .words (rowOf (outX * outY * e.w) b z), .scalar (.int inX), .scalar (.int inY),
      .scalar (.int e.x), .scalar (.int e.y), .scalar (.int e.z), .scalar (.int e.w),
      .scalar (.int pad), .scalar (.int stride), .scalar (.int 1)])
    (hx : x.size = inX * inY * e.z * B) (hy : e.size ≤ y.size)
    (hz : z.size = outX * outY * e.w * B) :
    RowWise convolution o o' 2 (outX * outY * e.w) b := by
  simp only [List.mem_cons, List.not_mem_nil, or_false, forall_eq_or_imp, forall_eq] at hsmall
  obtain ⟨hinX, hinY, hkx, hky, hkz, hkw, hpad, hstride, hB⟩ := hsmall
  have h := convolution_replaces (extent_at ho rfl hinX) (extent_at ho rfl hinY)
    (extent_at ho rfl hkx) (extent_at ho rfl hky) (extent_at ho rfl hkz) (extent_at ho rfl hkw)
    (extent_at ho rfl hpad) (extent_at ho rfl hstride) (extent_at ho rfl hB) houtX houtY
    (words_at ho rfl hz.ge) (words_at ho rfl hx.ge) (words_at ho rfl hy)
  have h' := (convolution_replaces (extent_at ho' rfl hinX) (extent_at ho' rfl hinY)
    (extent_at ho' rfl hkx) (extent_at ho' rfl hky) (extent_at ho' rfl hkz) (extent_at ho' rfl hkw)
    (extent_at ho' rfl hpad) (extent_at ho' rfl hstride) (extent_at ho' rfl (by norm_num)) houtX
    houtY (words_at ho' rfl (by rw [Nat.mul_one, size_rowOf hb hz.ge]))
    (words_at ho' rfl (by rw [Nat.mul_one, size_rowOf hb hx.ge])) (words_at ho' rfl hy)).congr
    (Nat.mul_one _)
  refine h.rowWise hb h' hz fun j hj _ => ?_
  obtain ⟨hcx, hcy, hc⟩ := coordinates_row (b := b) hj
  have hlt := (Tiling.coordinates_lt hj).2.2
  have hplanes : (⟨inX, inY, e.z⟩ : Planes).z = e.z := rfl
  obtain ⟨hterms, hin⟩ := convolutionTerms_row pad stride (j % outX) (j / outX % outY)
    (j / outX / outY) b hplanes
  rw [hcx, hcy, hc, row_div hlt, row_mod hlt, Nat.div_eq_of_lt hlt, Nat.mod_eq_of_lt hlt, hterms,
    sumOfProducts_row hin]

omit [Scalar α] in
theorem Pooling.ofOperands_at {args : List (Operand α)}
    {i inX inY planes stride pad size outX outY : Nat}
    (hsmall : ∀ m ∈ [inX, inY, planes, stride, pad, size], m < 2 ^ 31)
    (houtX : pooledExtent? inX size pad stride = some outX)
    (houtY : pooledExtent? inY size pad stride = some outY) (ho : o.args = args)
    (h : args.drop i = [.scalar (.int inX), .scalar (.int inY), .scalar (.int planes),
      .scalar (.int stride), .scalar (.int pad), .scalar (.int pad), .scalar (.int size)]) :
    Pooling.ofOperands o i = .ok ⟨inX, inY, planes, stride, size, outX, outY⟩ := by
  simp only [List.mem_cons, List.not_mem_nil, or_false, forall_eq_or_imp, forall_eq] at hsmall
  obtain ⟨hinX, hinY, hplanes, hstride, hpad, hsize⟩ := hsmall
  have hat : ∀ j, args[i + j]? = (args.drop i)[j]? := fun j => (List.getElem?_drop ..).symm
  rw [h] at hat
  have h₀ := extent_at ho (hat 0) hinX
  have h₁ := extent_at ho (hat 1) hinY
  have h₂ := extent_at ho (hat 2) hplanes
  have h₃ := extent_at ho (hat 3) hstride
  have h₄ := extent_at ho (hat 4) hpad
  have h₅ := extent_at ho (hat 5) hpad
  have h₆ := extent_at ho (hat 6) hsize
  rw [Nat.add_zero] at h₀
  simp only [Pooling.ofOperands, h₀, h₁, h₂, h₃, h₄, h₅, h₆, Except.ok_bind, houtX, houtY,
    divisor_of_pos (pooledExtent?_stride_pos houtX)]
  rfl

theorem maxPooling_rowWise {inX inY planes stride pad size outX outY : Nat} (hb : b < B)
    (hsmall : ∀ m ∈ [inX, inY, planes * B, stride, pad, size], m < 2 ^ 31)
    (houtX : pooledExtent? inX size pad stride = some outX)
    (houtY : pooledExtent? inY size pad stride = some outY)
    (ho : o.args = [.words x, .words z, .scalar (.int inX), .scalar (.int inY),
      .scalar (.int (planes * B)), .scalar (.int stride), .scalar (.int pad), .scalar (.int pad),
      .scalar (.int size)])
    (ho' : o'.args = [.words (rowOf (inX * inY * planes) b x),
      .words (rowOf (outX * outY * planes) b z), .scalar (.int inX), .scalar (.int inY),
      .scalar (.int planes), .scalar (.int stride), .scalar (.int pad), .scalar (.int pad),
      .scalar (.int size)])
    (hx : x.size = inX * inY * planes * B) (hz : z.size = outX * outY * planes * B) :
    RowWise maxPooling o o' 1 (outX * outY * planes) b := by
  have hsmall' : ∀ m ∈ [inX, inY, planes, stride, pad, size], m < 2 ^ 31 := by
    simp only [List.mem_cons, List.not_mem_nil, or_false, forall_eq_or_imp, forall_eq] at hsmall ⊢
    exact ⟨hsmall.1, hsmall.2.1, lt_of_mul_lt hsmall.2.2.1 (by omega), hsmall.2.2.2⟩
  have hp := Pooling.ofOperands_at (i := 2) hsmall houtX houtY ho rfl
  have hp' := Pooling.ofOperands_at (i := 2) hsmall' houtX houtY ho' rfl
  have hout : outX * outY * (planes * B) = outX * outY * planes * B := (Nat.mul_assoc ..).symm
  have hin : inX * inY * (planes * B) = inX * inY * planes * B := (Nat.mul_assoc ..).symm
  have h := (maxPooling_replaces hp (words_at ho rfl (hout.trans hz.symm).le)
    (words_at ho rfl (hin.trans hx.symm).le)).congr hout
  have h' := maxPooling_replaces hp' (words_at ho' rfl (size_rowOf hb hz.ge).ge)
    (words_at ho' rfl (size_rowOf hb hx.ge).ge)
  refine h.rowWise hb h' hz fun j hj _ => ?_
  obtain ⟨hcx, hcy, hc⟩ := coordinates_row (b := b) hj
  have hlt := (Tiling.coordinates_lt hj).2.2
  obtain ⟨hwindow, hcells⟩ := Pooling.window_row (j % outX) (j / outX % outY) b
    (p := ⟨inX, inY, planes * B, stride, size, outX, outY⟩) rfl hlt
  obtain ⟨hmax, hcell⟩ := firstMax_row (x := x) (b := b) hcells
  simp only [Pooling.value, hcx, hcy, hc, hwindow, hmax]
  generalize hbest : firstMax (rowOf (inX * inY * planes) b x) _ = best at hcell
  obtain e | _ | cell := best
  · rfl
  · rfl
  · simp only [Except.map, Option.map_some, Except.ok_bind, read_rowOf (hcell cell rfl)]

theorem splitData_rowWise {tile tileX tileY imageX imageY planes : Nat} (hb : b < B)
    (hsmall : ∀ m ∈ [tileX, tileY, imageX, imageY, planes, B], m < 2 ^ 31)
    (ho : o.args = [.words x, .words z, .scalar (.int tile), .scalar (.int tileX),
      .scalar (.int tileY), .scalar (.int imageX), .scalar (.int imageY), .scalar (.int planes),
      .scalar (.int B)])
    (ho' : o'.args = [.words (rowOf (imageX * imageY * planes) b x),
      .words (rowOf (tileX * tileY * planes) b z), .scalar (.int tile), .scalar (.int tileX),
      .scalar (.int tileY), .scalar (.int imageX), .scalar (.int imageY), .scalar (.int planes),
      .scalar (.int 1)])
    (hx : x.size = imageX * imageY * planes * B) (hz : z.size = tileX * tileY * planes * B) :
    RowWise splitData o o' 1 (tileX * tileY * planes) b := by
  simp only [List.mem_cons, List.not_mem_nil, or_false, forall_eq_or_imp, forall_eq] at hsmall
  obtain ⟨htx, hty, hix, hiy, hp, hB⟩ := hsmall
  have hof : ∀ {o : Operands α} {args : List (Operand α)} {B : Nat}, B < 2 ^ 31 → o.args = args →
      args.drop 2 = [.scalar (.int tile), .scalar (.int tileX), .scalar (.int tileY),
        .scalar (.int imageX), .scalar (.int imageY), .scalar (.int planes), .scalar (.int B)] →
      Tiling.ofOperands o = .ok ⟨told tile, tileX, tileY, imageX, imageY, planes * B⟩ := by
    intro o args B hB ho h
    have hat : ∀ j, args[2 + j]? = (args.drop 2)[j]? := fun j => (List.getElem?_drop ..).symm
    rw [h] at hat
    have h₀ : o.extent 2 = .ok (told tile) := extent_int (ho ▸ hat 0)
    simp only [Tiling.ofOperands, h₀, extent_at ho (hat 1) htx, extent_at ho (hat 2) hty,
      extent_at ho (hat 3) hix, extent_at ho (hat 4) hiy, extent_at ho (hat 5) hp,
      extent_at ho (hat 6) hB, Except.ok_bind, Tiling.checked_eq]
  have htile : tileX * tileY * (planes * B) = tileX * tileY * planes * B := (Nat.mul_assoc ..).symm
  have himage : imageX * imageY * (planes * B) = imageX * imageY * planes * B :=
    (Nat.mul_assoc ..).symm
  have h := (splitData_replaces (hof hB ho rfl) (words_at ho rfl (htile.trans hz.symm).le)
    (words_at ho rfl (himage.trans hx.symm).le)).congr htile
  have h' := (splitData_replaces (hof (by norm_num) ho' rfl)
    (words_at ho' rfl (by rw [Nat.mul_one]; exact (size_rowOf hb hz.ge).ge))
    (words_at ho' rfl (by rw [Nat.mul_one]; exact (size_rowOf hb hx.ge).ge))).congr
    (by rw [Nat.mul_one])
  refine h.rowWise hb h' hz fun j hj _ => ?_
  obtain ⟨hlies, hsource⟩ := Tiling.source_row (b := b)
    (t := ⟨told tile, tileX, tileY, imageX, imageY, planes * B⟩) rfl hj
  by_cases hl : Tiling.Lies ⟨told tile, tileX, tileY, imageX, imageY, planes⟩ j
  · have hlt := Tiling.source_lt hj hl
    refine (if_pos hl).trans (Eq.trans ?_ (if_pos (hlies.mpr hl)).symm)
    rw [hsource]
    exact read_rowOf hlt
  · exact (if_neg hl).trans (if_neg fun h => hl (hlies.mp h)).symm

end Kernel

end Backprop
