import Mathlib
import Backprop.Proofs.Kernel.Safety
import Backprop.Proofs.Operator.Entries

/-! What kernels demand of their operands. Where a kernel finds its numbers, and behind them buffers
that are long enough, it succeeds: no kernel is at fault, and nothing else can keep it from an
answer. -/

namespace Backprop

variable {α β γ σ : Type}

def Willing (x : Except Error β) : Prop := ∀ e, x = .error e → ∃ f, f ≠ .overflow ∧ e = .fault f

theorem Willing.succeeds [Scalar α] {k : HostKernel} {o : Operands α} (h : Willing (k.run o)) :
    ∃ ws, k.run o = .ok ws := by
  cases hrun : k.run o with
  | ok ws => exact ⟨ws, rfl⟩
  | error e =>
    obtain ⟨f, hf, rfl⟩ := h e hrun
    exact absurd (k.run_faults hrun).1 hf

namespace Willing

variable {x : Except Error β}

theorem pure (b : β) : Willing (pure b) := fun _ h => nomatch h

theorem bind {f : β → Except Error γ} (hx : Willing x) (hf : ∀ b, Willing (f b)) :
    Willing (x >>= f) := by
  intro e h
  cases x with
  | error e' => exact hx e (congrArg _ (Except.error.inj h))
  | ok b => exact hf b e h

theorem answer {x : Except Error (Array α)} {i : Nat} (hx : Willing x) :
    Willing (x >>= fun data => Pure.pure [(i, data)]) :=
  .bind hx fun _ => .pure _

/-! ### Bodies -/

theorem read (a : Array α) (i : Nat) : Willing (read a i) := by
  intro e h
  unfold Backprop.read at h
  split at h
  · cases h
  · exact ⟨_, by decide, (Except.error.inj h).symm⟩

theorem write (a : Array α) (i : Nat) (v : α) : Willing (write a i v) := by
  intro e h
  unfold Backprop.write at h
  split at h
  · cases h
  · exact ⟨_, by decide, (Except.error.inj h).symm⟩

theorem divisor (n : Nat) : Willing (divisor n) := by
  intro e h
  unfold Backprop.divisor at h
  split at h
  · exact ⟨_, by decide, (Except.error.inj h).symm⟩
  · cases h

theorem quotient (a b : Nat) : Willing (quotient a b) := by
  intro e h
  unfold Backprop.quotient at h
  split at h
  · exact ⟨_, by decide, (Except.error.inj h).symm⟩
  · cases h

theorem remainder (a b : Nat) : Willing (remainder a b) := by
  intro e h
  unfold Backprop.remainder at h
  split at h
  · exact ⟨_, by decide, (Except.error.inj h).symm⟩
  · cases h

theorem update {a : Array α} {i : Nat} {f : α → Except Error α} (hf : ∀ v, Willing (f v)) :
    Willing (update a i f) :=
  .bind (.read a i) fun v => .bind (hf v) fun _ => .write a i _

theorem foldlM {f : σ → β → Except Error σ} {l : List β} {s : σ} (h : ∀ s b, Willing (f s b)) :
    Willing (l.foldlM f s) := by
  induction l generalizing s with
  | nil => exact .pure s
  | cons b l ih => exact .bind (h s b) fun _ => ih

theorem loop {step : Nat → σ → Except Error σ} {n : Nat} {s : σ} (h : ∀ i s, Willing (step i s)) :
    Willing (loop n s step) := by
  rw [loop_eq_foldlM]
  exact .foldlM fun s i => h i s

theorem updateSpan {base n : Nat} {a : Array α} {f : Nat → α → Except Error α}
    (hf : ∀ i v, Willing (f i v)) : Willing (updateSpan base n a f) :=
  .loop fun i _ => .update (hf i)

theorem updateFirst {n : Nat} {a : Array α} {f : Nat → α → Except Error α}
    (hf : ∀ i v, Willing (f i v)) : Willing (updateFirst n a f) := .updateSpan hf

/-! ### Operands -/

section

variable {o : Operands α} {args : List (Operand α)} {i n : Nat}

theorem extent {f : Nat → Except Error γ} (ho : o.args = args)
    (h : args[i]? = some (.scalar (.int n))) (hf : Willing (f (told n))) :
    Willing (o.extent i >>= f) := by
  rw [Operands.extent_told ho h]
  exact hf

theorem words {f : Array α → Except Error γ} {data : Array α} (ho : o.args = args)
    (h : args[i]? = some (.words data)) (hn : n ≤ data.size) (hf : Willing (f data)) :
    Willing (o.words i n >>= f) := by
  rw [Operands.words_at ho h hn]
  exact hf

theorem float [Scalar α] {c : α} {f : α → Except Error γ} (ho : o.args = args)
    (h : args[i]? = some (.scalar (.float c))) (hf : Willing (f c)) :
    Willing (o.float i >>= f) := by
  rw [Operands.float_at ho h]
  exact hf

theorem int {v : Int32} {f : Int → Except Error γ} (ho : o.args = args)
    (h : args[i]? = some (.scalar (.int32 v))) (hf : ∀ v, Willing (f v)) :
    Willing (o.int i >>= f) := by
  have hget : o.int i = .ok v.toInt := by
    rw [Operands.int, Operands.get, ho, h]
    rfl
  rw [hget]
  exact hf _

end

end Willing

namespace Kernel

variable {o : Operands α} {x y z : Array α} {n : Nat}

section

variable (ho : o.args = [.words x, .words z, .scalar (.int n)]) (hx : n ≤ x.size) (hz : n ≤ z.size)

include ho hx hz

theorem copy_willing : Willing (copy o) := by
  have hn := told_le n
  refine .extent ho rfl <| .words ho rfl (hn.trans hz) <| .words ho rfl (hn.trans hx) ?_
  exact .answer (.updateFirst fun i _ => .read _ _)

theorem activation_willing (f : α → α) : Willing (activation f o) := by
  have hn := told_le n
  refine .extent ho rfl <| .words ho rfl (hn.trans hz) <| .words ho rfl (hn.trans hx) ?_
  exact .answer (.updateFirst fun i _ => .bind (.read _ _) fun _ => .pure _)

theorem copyAdd_willing [Scalar α] : Willing (copyAdd o) := by
  have hn := told_le n
  refine .extent ho rfl <| .words ho rfl (hn.trans hz) <| .words ho rfl (hn.trans hx) ?_
  exact .answer (.updateFirst fun i _ => .bind (.read _ _) fun _ => .pure _)

theorem subtractFromConstGrad_willing [Scalar α] : Willing (subtractFromConstGrad o) := by
  have hn := told_le n
  refine .extent ho rfl <| .words ho rfl (hn.trans hz) <| .words ho rfl (hn.trans hx) ?_
  exact .answer (.updateFirst fun i _ => .bind (.read _ _) fun _ => .pure _)

end

section

variable (ho : o.args = [.words x, .words y, .words z, .scalar (.int n)]) (hx : n ≤ x.size)
  (hy : n ≤ y.size) (hz : n ≤ z.size)

include ho hx hy hz

theorem combine_willing (f : α → α → α → α) : Willing (combine f o) := by
  have hn := told_le n
  refine .extent ho rfl <| .words ho rfl (hn.trans hz) <| .words ho rfl (hn.trans hx) <|
    .words ho rfl (hn.trans hy) ?_
  refine .answer (.updateFirst fun i _ => ?_)
  exact .bind (.read _ _) fun _ => .bind (.read _ _) fun _ => .pure _

theorem activationGrad_willing [Scalar α] (f : α → α) : Willing (activationGrad f o) := by
  have hn := told_le n
  refine .extent ho rfl <| .words ho rfl (hn.trans hz) <| .words ho rfl (hn.trans hx) <|
    .words ho rfl (hn.trans hy) ?_
  refine .answer (.updateFirst fun i _ => ?_)
  exact .bind (.read _ _) fun _ => .bind (.read _ _) fun _ => .pure _

end

theorem transpose_willing {cols rows : Nat}
    (ho : o.args = [.words x, .words z, .scalar (.int cols), .scalar (.int rows)])
    (hx : rows * cols * max o.launch.global.z 1 ≤ x.size)
    (hz : rows * cols * max o.launch.global.z 1 ≤ z.size) : Willing (transpose o) := by
  have hn := Nat.mul_le_mul_right (max o.launch.global.z 1) (told_mul_told_le rows cols)
  have hsize := Operands.requireSize_of_words (Operands.words_at ho (i := 1) rfl (hn.trans hz))
  refine .extent ho rfl <| .extent ho rfl ?_
  simp only [hsize, Except.ok_bind]
  refine .words ho rfl (hn.trans hz) <| .words ho rfl (hn.trans hx) ?_
  exact .answer (.updateFirst fun i _ => .read _ _)

theorem rotateAndReorder_willing {kx ky kz kw : Nat}
    (ho : o.args = [.words x, .words z, .scalar (.int kx), .scalar (.int ky), .scalar (.int kz),
      .scalar (.int kw)])
    (hx : kx * ky * kz * kw ≤ x.size) (hz : kx * ky * kz * kw ≤ z.size) :
    Willing (rotateAndReorder o) := by
  have hn : told kx * told ky * told kz * told kw ≤ kx * ky * kz * kw := by gcongr <;> apply told_le
  refine .extent ho rfl <| .extent ho rfl <| .extent ho rfl <| .extent ho rfl <|
    .words ho rfl (hn.trans hz) <| .words ho rfl (hn.trans hx) ?_
  exact .answer (.updateFirst fun i _ => .read _ _)

variable [Scalar α]

theorem subtractFromConst_willing {c : α}
    (ho : o.args = [.words x, .words z, .scalar (.float c), .scalar (.int n)]) (hx : n ≤ x.size)
    (hz : n ≤ z.size) : Willing (subtractFromConst o) := by
  have hn := told_le n
  refine .float ho rfl <| .extent ho rfl <| .words ho rfl (hn.trans hz) <|
    .words ho rfl (hn.trans hx) ?_
  exact .answer (.updateFirst fun i _ => .bind (.read _ _) fun _ => .pure _)

theorem matrixProductWith_willing {beta : α} {m k : Nat}
    (ho : o.args = [.words x, .words y, .words z, .scalar (.int m), .scalar (.int n),
      .scalar (.int k)])
    (hx : m * k ≤ x.size) (hy : k * n ≤ y.size) (hz : m * n ≤ z.size) :
    Willing (matrixProductWith beta o) := by
  refine .extent ho rfl <| .extent ho rfl <| .extent ho rfl <|
    .words ho rfl ((told_mul_told_le m n).trans hz) <|
    .words ho rfl ((told_mul_told_le m k).trans hx) <|
    .words ho rfl ((told_mul_told_le k n).trans hy) ?_
  refine .answer (.loop fun i _ => .updateSpan fun j _ => .bind (.loop fun p _ => ?_)
    fun _ => .pure _)
  exact .bind (.read _ _) fun _ => .bind (.read _ _) fun _ => .pure _

/-! ### Biases -/

theorem addToMatrix_willing {cols rows : Nat}
    (ho : o.args = [.words x, .words y, .words z, .scalar (.int cols), .scalar (.int rows)])
    (hx : cols * rows ≤ x.size) (hy : cols ≤ y.size) (hz : cols * rows ≤ z.size) :
    Willing (addToMatrix o) := by
  have hn := told_mul_told_le cols rows
  refine .extent ho rfl <| .extent ho rfl <| .words ho rfl (hn.trans hz) <|
    .words ho rfl (hn.trans hx) <| .words ho rfl ((told_le cols).trans hy) ?_
  refine .answer (.updateFirst fun i _ => .bind (.read _ _) fun _ => ?_)
  exact .bind (.remainder _ _) fun _ => .bind (.read _ _) fun _ => .pure _

theorem addToMatrixGrad_willing {cols rows : Nat}
    (ho : o.args = [.words x, .words z, .scalar (.int cols), .scalar (.int rows)])
    (hx : cols * rows ≤ x.size) (hz : cols ≤ z.size) : Willing (addToMatrixGrad o) := by
  refine .extent ho rfl <| .extent ho rfl <| .words ho rfl ((told_le cols).trans hz) <|
    .words ho rfl ((told_mul_told_le cols rows).trans hx) ?_
  exact .answer (.updateFirst fun j _ => .loop fun r _ => .bind (.read _ _) fun _ => .pure _)

theorem told_volume_le (a b c : Nat) : told a * told b * told c ≤ a * b * c :=
  Nat.mul_le_mul (told_mul_told_le a b) (told_le c)

theorem addToImage_willing {plane channels batch : Nat}
    (ho : o.args = [.words x, .words y, .words z, .scalar (.int plane), .scalar (.int channels),
      .scalar (.int batch)])
    (hx : plane * channels * batch ≤ x.size) (hy : channels ≤ y.size)
    (hz : plane * channels * batch ≤ z.size) : Willing (addToImage o) := by
  have hn := told_volume_le plane channels batch
  refine .extent ho rfl <| .extent ho rfl <| .extent ho rfl <| .words ho rfl (hn.trans hz) <|
    .words ho rfl (hn.trans hx) <| .words ho rfl ((told_le channels).trans hy) ?_
  refine .answer (.updateFirst fun i _ => .bind (.read _ _) fun _ => .bind (.quotient _ _)
    fun _ => ?_)
  exact .bind (.remainder _ _) fun _ => .bind (.read _ _) fun _ => .pure _

theorem addToImageGrad_willing {plane channels batch : Nat}
    (ho : o.args = [.words x, .words z, .scalar (.int plane), .scalar (.int channels),
      .scalar (.int batch)])
    (hx : plane * channels * batch ≤ x.size) (hz : channels ≤ z.size) :
    Willing (addToImageGrad o) := by
  refine .extent ho rfl <| .extent ho rfl <| .extent ho rfl <|
    .words ho rfl ((told_le channels).trans hz) <|
    .words ho rfl ((told_volume_le plane channels batch).trans hx) ?_
  refine .answer (.updateFirst fun channel _ => .loop fun b _ => .bind (.loop fun i _ => ?_)
    fun _ => .pure _)
  exact .bind (.read _ _) fun _ => .pure _

/-! ### Rows -/

theorem softmax_willing {cols rows : Nat}
    (ho : o.args = [.words x, .words z, .scalar (.int cols), .scalar (.int rows)])
    (hx : cols * rows ≤ x.size) (hz : cols * rows ≤ z.size) : Willing (softmax o) := by
  have hn := told_mul_told_le cols rows
  refine .extent ho rfl <| .extent ho rfl <| .words ho rfl (hn.trans hz) <|
    .words ho rfl (hn.trans hx) ?_
  refine .answer (.loop fun r _ => .bind (.loop fun i _ => ?_) fun _ => .bind (.loop fun i _ => ?_)
    fun _ => .updateSpan fun i _ => ?_)
  all_goals exact .bind (.read _ _) fun _ => .pure _

theorem softmaxGrad_willing {cols rows : Nat}
    (ho : o.args = [.words x, .words y, .words z, .scalar (.int cols), .scalar (.int rows)])
    (hx : cols * rows ≤ x.size) (hy : cols * rows ≤ y.size) (hz : cols * rows ≤ z.size) :
    Willing (softmaxGrad o) := by
  have hn := told_mul_told_le cols rows
  refine .extent ho rfl <| .extent ho rfl <| .words ho rfl (hn.trans hz) <|
    .words ho rfl (hn.trans hx) <| .words ho rfl (hn.trans hy) ?_
  refine .answer (.loop fun r _ => .bind (.loop fun i _ => ?_) fun _ => .updateSpan fun i _ => ?_)
  all_goals exact .bind (.read _ _) fun _ => .bind (.read _ _) fun _ => .pure _

theorem meanSquaredError_willing {cols rows : Nat}
    (ho : o.args = [.words x, .words y, .words z, .scalar (.int cols), .scalar (.int rows)])
    (hx : cols * rows ≤ x.size) (hy : cols * rows ≤ y.size) (hz : 1 ≤ z.size) :
    Willing (meanSquaredError o) := by
  have hn := told_mul_told_le cols rows
  refine .extent ho rfl <| .extent ho rfl <| .words ho rfl hz <| .words ho rfl (hn.trans hx) <|
    .words ho rfl (hn.trans hy) <| .bind (.loop fun i _ => ?_) fun _ => .answer (.write _ _ _)
  exact .bind (.read _ _) fun _ => .bind (.read _ _) fun _ => .pure _

theorem meanSquaredErrorGrad_willing {rows : Nat}
    (ho : o.args = [.words x, .words y, .words z, .scalar (.int n), .scalar (.int rows)])
    (hx : n ≤ x.size) (hy : n ≤ y.size) (hz : n ≤ z.size) :
    Willing (meanSquaredErrorGrad o) := by
  have hn := told_le n
  refine .extent ho rfl <| .extent ho rfl <| .words ho rfl (hn.trans hz) <|
    .words ho rfl (hn.trans hx) <| .words ho rfl (hn.trans hy) ?_
  refine .answer (.updateFirst fun i _ => ?_)
  exact .bind (.read _ _) fun _ => .bind (.read _ _) fun _ => .pure _

theorem crossEntropy_willing {cols rows : Nat}
    (ho : o.args = [.words x, .words y, .words z, .scalar (.int cols), .scalar (.int rows)])
    (hx : cols * rows ≤ x.size) (hy : rows ≤ y.size) (hz : 1 ≤ z.size) :
    Willing (crossEntropy o) := by
  refine .extent ho rfl <| .extent ho rfl <| .words ho rfl hz <|
    .words ho rfl ((told_mul_told_le cols rows).trans hx) <|
    .words ho rfl ((told_le rows).trans hy) <| .bind (.loop fun r _ => ?_) fun _ =>
      .answer (.write _ _ _)
  refine .bind (.read _ _) fun label => ?_
  split
  · exact .bind (.read _ _) fun _ => .pure _
  · exact .pure _

theorem crossEntropyGrad_willing {cols rows : Nat}
    (ho : o.args = [.words x, .words y, .words z, .scalar (.int cols), .scalar (.int rows)])
    (hx : cols * rows ≤ x.size) (hy : rows ≤ y.size) (hz : cols * rows ≤ z.size) :
    Willing (crossEntropyGrad o) := by
  have hn := told_mul_told_le cols rows
  refine .extent ho rfl <| .extent ho rfl <| .words ho rfl (hn.trans hz) <|
    .words ho rfl (hn.trans hx) <| .words ho rfl ((told_le rows).trans hy) <|
    .answer (.loop fun r _ => .bind (.read _ _) fun label => ?_)
  split
  · exact .update fun _ => .bind (.read _ _) fun _ => .pure _
  · exact .pure _

theorem classificationAccuracy_willing {cols rows : Nat}
    (ho : o.args = [.words x, .words y, .words z, .scalar (.int cols), .scalar (.int rows)])
    (hx : cols * rows ≤ x.size) (hy : rows ≤ y.size) (hz : 1 ≤ z.size) :
    Willing (classificationAccuracy o) := by
  refine .extent ho rfl <| .extent ho rfl <| .words ho rfl hz <|
    .words ho rfl ((told_mul_told_le cols rows).trans hx) <|
    .words ho rfl ((told_le rows).trans hy) <| .bind (.loop fun r _ => ?_) fun _ =>
      .answer (.write _ _ _)
  refine .bind (.loop fun i _ => ?_) fun best => .bind (.read _ _) fun _ => .pure _
  exact .bind (.read _ _) fun _ => .bind (.read _ _) fun _ => .pure _

/-! ### Planes -/

theorem sumOfProducts_willing (a b : Array α) (terms : List (Option Nat × Nat)) :
    Willing (sumOfProducts a b terms) := by
  refine .foldlM fun sum term => ?_
  obtain ⟨_ | i, j⟩ := term
  · exact .bind (.pure 0) fun _ => .bind (.read _ _) fun _ => .pure _
  · exact .bind (.read _ _) fun _ => .bind (.read _ _) fun _ => .pure _

theorem told_cells_le (a b c d : Nat) : told a * told b * told c * told d ≤ a * b * c * d :=
  Nat.mul_le_mul (told_volume_le a b c) (told_le d)

theorem convolution_willing {inX inY kx ky kz kw pad stride batch outX outY : Nat}
    (ho : o.args = [.words x, .words y, .words z, .scalar (.int inX), .scalar (.int inY),
      .scalar (.int kx), .scalar (.int ky), .scalar (.int kz), .scalar (.int kw),
      .scalar (.int pad), .scalar (.int stride), .scalar (.int batch)])
    (houtX : convolvedExtent? (told inX) (told kx) (told pad) (told stride) = some outX)
    (houtY : convolvedExtent? (told inY) (told ky) (told pad) (told stride) = some outY)
    (hx : inX * inY * kz * batch ≤ x.size) (hy : kx * ky * kz * kw ≤ y.size)
    (hz : outX * outY * kw * batch ≤ z.size) : Willing (convolution o) := by
  have hout : outX * outY * told kw * told batch ≤ outX * outY * kw * batch := by
    gcongr <;> apply told_le
  refine .extent ho rfl <| .extent ho rfl <| .extent ho rfl <| .extent ho rfl <|
    .extent ho rfl <| .extent ho rfl <| .extent ho rfl <| .extent ho rfl <| .extent ho rfl ?_
  simp only [houtX, houtY]
  refine .bind (.divisor _) fun _ => .words ho rfl (hout.trans hz) <| .words ho rfl ((told_cells_le _ _ _ _).trans hx) <|
    .words ho rfl ((told_cells_le _ _ _ _).trans hy) ?_
  exact .answer (.updateFirst fun i _ => sumOfProducts_willing _ _ _)

theorem convolutionWeightGrad_willing {inX inY outX outY kx ky kz kw pad stride batch : Nat}
    (ho : o.args = [.words x, .words y, .words z, .scalar (.int inX), .scalar (.int inY),
      .scalar (.int outX), .scalar (.int outY), .scalar (.int kx), .scalar (.int ky),
      .scalar (.int kz), .scalar (.int kw), .scalar (.int pad), .scalar (.int stride),
      .scalar (.int batch)])
    (hx : inX * inY * kz * batch ≤ x.size) (hy : outX * outY * kw * batch ≤ y.size)
    (hz : kx * ky * kz * kw ≤ z.size) : Willing (convolutionWeightGrad o) := by
  refine .extent ho rfl <| .extent ho rfl <| .extent ho rfl <| .extent ho rfl <|
    .extent ho rfl <| .extent ho rfl <| .extent ho rfl <| .extent ho rfl <| .extent ho rfl <|
    .extent ho rfl <| .extent ho rfl <| .words ho rfl ((told_cells_le _ _ _ _).trans hz) <|
    .words ho rfl ((told_cells_le _ _ _ _).trans hx) <|
    .words ho rfl ((told_cells_le _ _ _ _).trans hy) ?_
  exact .answer (.updateFirst fun i _ => .bind (sumOfProducts_willing _ _ _) fun _ => .pure _)

theorem convolutionAdd_willing {inX inY kx ky kz kw dilation outX outY batch : Nat}
    {padX padY : Int}
    (ho : o.args = [.words x, .words y, .words z, .scalar (.int inX), .scalar (.int inY),
      .scalar (.int kx), .scalar (.int ky), .scalar (.int kz), .scalar (.int kw),
      .scalar (.signed padX), .scalar (.signed padY), .scalar (.int dilation),
      .scalar (.int outX), .scalar (.int outY), .scalar (.int batch)])
    (hx : inX * inY * kz * batch ≤ x.size) (hy : kx * ky * kz * kw ≤ y.size)
    (hz : outX * outY * kw * batch ≤ z.size) : Willing (convolutionAdd o) := by
  refine .extent ho rfl <| .extent ho rfl <| .extent ho rfl <| .extent ho rfl <|
    .extent ho rfl <| .extent ho rfl <| .int ho rfl fun _ => .int ho rfl fun _ =>
    .extent ho rfl <| .bind (.divisor _) fun _ =>
    .extent ho rfl <| .extent ho rfl <| .extent ho rfl <|
    .words ho rfl ((told_cells_le _ _ _ _).trans hz) <|
    .words ho rfl ((told_cells_le _ _ _ _).trans hx) <|
    .words ho rfl ((told_cells_le _ _ _ _).trans hy) ?_
  exact .answer (.updateFirst fun i _ => .bind (sumOfProducts_willing _ _ _) fun _ => .pure _)

theorem firstMax_willing (a : Array α) (cells : List Nat) : Willing (firstMax a cells) := by
  refine .foldlM fun best i => ?_
  cases best with
  | none => exact .pure _
  | some b => exact .bind (.read _ _) fun _ => .bind (.read _ _) fun _ => .pure _

section

variable {inX inY planes stride pad size outX outY : Nat}
  (houtX : pooledExtent? (told inX) (told size) (told pad) (told stride) = some outX)
  (houtY : pooledExtent? (told inY) (told size) (told pad) (told stride) = some outY)

include houtX houtY

omit [Scalar α] in
theorem Pooling.ofOperands_told {args : List (Operand α)} {first : Nat} (ho : o.args = args)
    (h : args.drop first = [inX, inY, planes, stride, pad, pad, size].map (.scalar <| .int ·)) :
    Pooling.ofOperands o first =
      .ok ⟨told inX, told inY, told planes, told stride, told size, outX, outY⟩ := by
  have hextent : ∀ j n : Nat, [inX, inY, planes, stride, pad, pad, size][j]? = some n →
      o.extent (first + j) = .ok (told n) := by
    intro j n hj
    refine Operands.extent_told ho ?_
    rw [← List.getElem?_drop, h, List.getElem?_map, hj]
    rfl
  have hfirst := hextent 0 inX rfl
  rw [Nat.add_zero] at hfirst
  simp only [Pooling.ofOperands, hfirst, hextent 1 inY rfl, hextent 2 planes rfl,
    hextent 3 stride rfl, hextent 4 pad rfl, hextent 5 pad rfl, hextent 6 size rfl, Except.ok_bind,
    houtX, houtY, divisor_of_pos (pooledExtent?_stride_pos houtX)]
  rfl

theorem maxPooling_willing
    (ho : o.args = [.words x, .words z, .scalar (.int inX), .scalar (.int inY),
      .scalar (.int planes), .scalar (.int stride), .scalar (.int pad), .scalar (.int pad),
      .scalar (.int size)])
    (hx : inX * inY * planes ≤ x.size) (hz : outX * outY * planes ≤ z.size) :
    Willing (maxPooling o) := by
  have hout : outX * outY * told planes ≤ outX * outY * planes :=
    Nat.mul_le_mul_left _ (told_le planes)
  rw [maxPooling, Pooling.ofOperands_told houtX houtY ho rfl]
  refine .words ho rfl (hout.trans hz) <| .words ho rfl ((told_volume_le _ _ _).trans hx) <|
    .answer (.updateFirst fun i _ => .bind (firstMax_willing _ _) fun best => ?_)
  cases best with
  | none => exact .pure _
  | some cell => exact .read _ _

theorem maxPoolingGrad_willing
    (ho : o.args = [.words x, .words y, .words z, .scalar (.int inX), .scalar (.int inY),
      .scalar (.int planes), .scalar (.int stride), .scalar (.int pad), .scalar (.int pad),
      .scalar (.int size)])
    (hx : inX * inY * planes ≤ x.size) (hy : outX * outY * planes ≤ y.size)
    (hz : inX * inY * planes ≤ z.size) : Willing (maxPoolingGrad o) := by
  have hin := told_volume_le inX inY planes
  have hout : outX * outY * told planes ≤ outX * outY * planes :=
    Nat.mul_le_mul_left _ (told_le planes)
  rw [maxPoolingGrad, Pooling.ofOperands_told houtX houtY ho rfl]
  refine .words ho rfl (hin.trans hz) <| .words ho rfl (hin.trans hx) <|
    .words ho rfl (hout.trans hy) <| .answer (.updateFirst fun i _ =>
    .bind (.foldlM fun sum cell => ?_) fun _ => .pure _)
  refine .bind (firstMax_willing _ _) fun best => ?_
  split
  · exact .bind (.read _ _) fun _ => .pure _
  · exact .pure _

end

section

variable {tile tileX tileY imageX imageY depth rows : Nat}
  (ho : o.args = [.words x, .words z, .scalar (.int tile), .scalar (.int tileX),
    .scalar (.int tileY), .scalar (.int imageX), .scalar (.int imageY), .scalar (.int depth),
    .scalar (.int rows)])

include ho

omit [Scalar α] in
theorem Tiling.ofOperands_told : Tiling.ofOperands o =
    .ok ⟨told tile, told tileX, told tileY, told imageX, told imageY, told depth * told rows⟩ := by
  rw [Tiling.ofOperands, Operands.extent_told ho (i := 2) rfl, Except.ok_bind,
    Operands.extent_told ho (i := 3) rfl, Except.ok_bind,
    Operands.extent_told ho (i := 4) rfl, Except.ok_bind,
    Operands.extent_told ho (i := 5) rfl, Except.ok_bind,
    Operands.extent_told ho (i := 6) rfl, Except.ok_bind,
    Operands.extent_told ho (i := 7) rfl, Except.ok_bind,
    Operands.extent_told ho (i := 8) rfl, Except.ok_bind, Tiling.checked_eq]

theorem splitData_willing (hx : imageX * imageY * depth * rows ≤ x.size)
    (hz : tileX * tileY * depth * rows ≤ z.size) : Willing (splitData o) := by
  have hcells : ∀ a b : Nat, told a * told b * (told depth * told rows) ≤ a * b * depth * rows :=
    fun a b => (Nat.mul_assoc _ _ _).symm.trans_le (told_cells_le a b depth rows)
  rw [splitData, Tiling.ofOperands_told ho]
  refine .words ho rfl ((hcells _ _).trans hz) <| .words ho rfl ((hcells _ _).trans hx) <|
    .answer (.foldlM fun out pair => ?_)
  exact .bind (.read _ _) fun _ => .write _ _ _

theorem splitDataGrad_willing (hx : tileX * tileY * depth * rows ≤ x.size)
    (hz : imageX * imageY * depth * rows ≤ z.size) : Willing (splitDataGrad o) := by
  have hcells : ∀ a b : Nat, told a * told b * (told depth * told rows) ≤ a * b * depth * rows :=
    fun a b => (Nat.mul_assoc _ _ _).symm.trans_le (told_cells_le a b depth rows)
  rw [splitDataGrad, Tiling.ofOperands_told ho]
  refine .words ho rfl ((hcells _ _).trans hz) <| .words ho rfl ((hcells _ _).trans hx) <|
    .answer (.foldlM fun out pair => ?_)
  exact .update fun _ => .bind (.read _ _) fun _ => .pure _

end

/-! ### Steps of weights -/

theorem gradientDescent_willing {alpha : α}
    (ho : o.args = [.words x, .words z, .scalar (.float alpha), .scalar (.int n)])
    (hx : n ≤ x.size) (hz : n ≤ z.size) : Willing (gradientDescent o) := by
  have hn := told_le n
  refine .float ho rfl <| .extent ho rfl <| .words ho rfl (hn.trans hz) <|
    .words ho rfl (hn.trans hx) ?_
  exact .answer (.updateFirst fun i _ => .bind (.read _ _) fun _ => .pure _)

theorem adam_willing {alpha beta₁ beta₂ epsilon : α} {grad first second weight : Array α}
    {t : Int32}
    (ho : o.args = [.words grad, .words first, .words second, .words weight,
      .scalar (.float alpha), .scalar (.float beta₁), .scalar (.float beta₂),
      .scalar (.float epsilon), .scalar (.int n), .scalar (.int32 t)])
    (hgrad : n ≤ grad.size) (hfirst : n ≤ first.size) (hsecond : n ≤ second.size)
    (hweight : n ≤ weight.size) : Willing (adam o) := by
  have hn := told_le n
  refine .float ho rfl <| .float ho rfl <| .float ho rfl <| .float ho rfl <| .extent ho rfl <|
    .int ho rfl fun _ => .words ho rfl (hn.trans hfirst) <|
    .words ho rfl (hn.trans hsecond) <| .words ho rfl (hn.trans hweight) <|
    .words ho rfl (hn.trans hgrad) <| .bind (.updateFirst fun i _ => ?_) fun _ =>
    .bind (.updateFirst fun i _ => ?_) fun _ => .bind (.updateFirst fun i _ => ?_) fun _ => .pure _
  · exact .bind (.read _ _) fun _ => .pure _
  · exact .bind (.read _ _) fun _ => .pure _
  · exact .bind (.read _ _) fun _ => .bind (.read _ _) fun _ => .pure _

end Kernel

end Backprop
