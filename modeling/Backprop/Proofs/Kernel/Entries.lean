import Mathlib
import Backprop.Kernel.Catalogue
import Backprop.Proofs.Kernel.Loop
import Backprop.Proofs.Lockstep

/-! What a kernel puts into each entry of its output, and when it succeeds. -/

namespace Backprop

variable {α : Type}

def Replaced (n : Nat) (z : Array α) (f : Nat → α → Except Error α) (data : Array α) : Prop :=
  data.size = z.size ∧ ∀ i < n, ∃ old new, z[i]? = some old ∧ f i old = .ok new ∧
    data[i]? = some new

/-- The kernel replaces the first entries of argument `i`, and no other argument. It succeeds when
all the new entries can be computed. -/
structure Kernel.Replaces (k : Kernel α) (o : Operands α) (i n : Nat) (z : Array α)
    (f : Nat → α → Except Error α) : Prop where
  replaced : ∀ ws, k o = .ok ws → ∃ data, ws = [(i, data)] ∧ Replaced n z f data
  total : (∀ j < n, ∀ old, ∃ new, f j old = .ok new) → ∃ ws, k o = .ok ws

theorem Operands.size_words {o : Operands α} {i n : Nat} {x : Array α} (h : o.words i n = .ok x) :
    n ≤ x.size := (words_ok_iff.mp h).2

namespace Kernel

variable {k : Kernel α} {o : Operands α} {i n : Nat} {x y z : Array α}

theorem Replaces.of_bind {f : Nat → α → Except Error α} {e : Except Error (Array α)}
    (hk : k o = e >>= fun data => pure [(i, data)])
    (replaced : ∀ data, e = .ok data → Replaced n z f data)
    (total : (∀ j < n, ∀ old, ∃ new, f j old = .ok new) → ∃ data, e = .ok data) :
    Replaces k o i n z f := by
  refine ⟨fun ws h => ?_, fun hf => ?_⟩
  · simp only [hk, Except.bind_ok_iff, Except.pure_ok_iff] at h
    obtain ⟨data, hd, rfl⟩ := h
    exact ⟨data, rfl, replaced data hd⟩
  · obtain ⟨data, hd⟩ := total hf
    exact ⟨_, by rw [hk, hd]; rfl⟩

theorem Replaces.of_update {f : Nat → α → Except Error α}
    (hk : k o = updateFirst n z f >>= fun data => pure [(i, data)]) (hn : n ≤ z.size) :
    Replaces k o i n z f := by
  refine .of_bind hk (fun data hd => ?_) fun hf => updateFirst_succeeds hn hf
  obtain ⟨hsize, hall, -⟩ := updateFirst_entries hd
  exact ⟨hsize, hall⟩

theorem Replaces.answers {f : Nat → α → Except Error α} (h : Replaces k o i n z f)
    (total : ∀ j < n, ∀ old, ∃ new, f j old = .ok new) :
    ∃ data, k o = .ok [(i, data)] ∧ Replaced n z f data := by
  obtain ⟨ws, hws⟩ := h.total total
  obtain ⟨data, rfl, hdata⟩ := h.replaced ws hws
  exact ⟨data, hws, hdata⟩

theorem Replaces.of_entries {f g : Nat → α → Except Error α} (h : Replaces k o i n z f)
    (hfg : ∀ j < n, ∀ old, f j old = g j old) : Replaces k o i n z g := by
  refine ⟨fun ws hws => ?_, fun hg => ?_⟩
  · obtain ⟨data, rfl, hsize, hentries⟩ := h.replaced ws hws
    refine ⟨data, rfl, hsize, fun j hj => ?_⟩
    obtain ⟨old, new, hold, hnew, hdata⟩ := hentries j hj
    exact ⟨old, new, hold, (hfg j hj old).symm.trans hnew, hdata⟩
  · refine h.total fun j hj old => ?_
    rw [hfg j hj old]
    exact hg j hj old

/-! ### Entry by entry -/

theorem copy_replaces (hn : o.extent 2 = .ok n) (hz : o.words 1 n = .ok z)
    (hx : o.words 0 n = .ok x) : Replaces copy o 1 n z fun j _ => read x j := by
  refine .of_update ?_ (Operands.size_words hz)
  simp only [copy, hn, hz, hx, Except.ok_bind]

theorem copy_rest {o : Operands α} {n i : Nat} {z data : Array α}
    (ho : o.args[1]? = some (.words z)) (hn : o.extent 2 = .ok n)
    (hrun : copy o = .ok [(1, data)]) (hi : n ≤ i) : data[i]? = z[i]? := by
  simp only [copy, hn, Except.ok_bind, Except.bind_ok_iff, Except.pure_ok_iff, List.cons.injEq,
    Prod.mk.injEq, and_true, true_and, Operands.words_ok_iff, ho] at hrun
  obtain ⟨_, ⟨hz, -⟩, _, -, _, hdata, rfl⟩ := hrun
  cases hz
  exact (updateFirst_entries hdata).2.2 i hi

theorem transpose_replaces {cols rows : Nat} (hc : o.extent 2 = .ok cols)
    (hr : o.extent 3 = .ok rows) (hn : n = rows * cols * max o.launch.global.z 1)
    (hz : o.words 1 n = .ok z) (hx : o.words 0 n = .ok x) :
    Replaces transpose o 1 n z fun j _ => read x (transposeSource rows cols j) := by
  refine .of_update ?_ (Operands.size_words hz)
  simp only [transpose, hc, hr, ← hn, Operands.requireSize_of_words hz, hz, hx, Except.ok_bind]

theorem rotateAndReorder_replaces {e : KernelExtents} (hx' : o.extent 2 = .ok e.x)
    (hy' : o.extent 3 = .ok e.y) (hz' : o.extent 4 = .ok e.z) (hw' : o.extent 5 = .ok e.w)
    (hz : o.words 1 e.size = .ok z) (hx : o.words 0 e.size = .ok x) :
    Replaces rotateAndReorder o 1 e.size z fun j _ => read x (rotationSource e j) := by
  refine .of_update ?_ (Operands.size_words hz)
  simp only [rotateAndReorder, hx', hy', hz', hw', hz, hx, Except.ok_bind]

variable [Scalar α]

omit [Scalar α] in
theorem activation_replaces {f : α → α} (hn : o.extent 2 = .ok n) (hz : o.words 1 n = .ok z)
    (hx : o.words 0 n = .ok x) :
    Replaces (activation f) o 1 n z fun j _ => do return f (← read x j) := by
  refine .of_update ?_ (Operands.size_words hz)
  simp only [activation, hn, hz, hx, Except.ok_bind]

omit [Scalar α] in
theorem combine_replaces {f : α → α → α → α} (hn : o.extent 3 = .ok n) (hz : o.words 2 n = .ok z)
    (hx : o.words 0 n = .ok x) (hy : o.words 1 n = .ok y) :
    Replaces (combine f) o 2 n z fun j old => do
      return f old (← read x j) (← read y j) := by
  refine .of_update ?_ (Operands.size_words hz)
  simp only [combine, hn, hz, hx, hy, Except.ok_bind]

theorem subtractFromConst_replaces {constant : α} (hc : o.float 2 = .ok constant)
    (hn : o.extent 3 = .ok n) (hz : o.words 1 n = .ok z) (hx : o.words 0 n = .ok x) :
    Replaces subtractFromConst o 1 n z fun j _ => do return constant - (← read x j) := by
  refine .of_update ?_ (Operands.size_words hz)
  simp only [subtractFromConst, hc, hn, hz, hx, Except.ok_bind]

theorem addToMatrix_replaces {cols rows : Nat} (hc : o.extent 3 = .ok cols)
    (hr : o.extent 4 = .ok rows) (hz : o.words 2 (cols * rows) = .ok z)
    (hx : o.words 0 (cols * rows) = .ok x) (hy : o.words 1 cols = .ok y) :
    Replaces addToMatrix o 2 (cols * rows) z fun j _ => do
      return (← read x j) + (← read y (← remainder j cols)) := by
  refine .of_update ?_ (Operands.size_words hz)
  simp only [addToMatrix, hc, hr, hz, hx, hy, Except.ok_bind]

theorem addToImage_replaces {plane channels batch : Nat} (hp : o.extent 3 = .ok plane)
    (hc : o.extent 4 = .ok channels) (hb : o.extent 5 = .ok batch)
    (hz : o.words 2 (plane * channels * batch) = .ok z)
    (hx : o.words 0 (plane * channels * batch) = .ok x) (hy : o.words 1 channels = .ok y) :
    Replaces addToImage o 2 (plane * channels * batch) z fun j _ => do
      return (← read x j) + (← read y (← remainder (← quotient j plane) channels)) := by
  refine .of_update ?_ (Operands.size_words hz)
  simp only [addToImage, hp, hc, hb, hz, hx, hy, Except.ok_bind]

/-! ### Convolutions -/

omit [Scalar α] in
theorem convolvedExtent?_stride_pos {input kernel pad stride out : Nat}
    (h : convolvedExtent? input kernel pad stride = some out) : 0 < stride := by
  refine Nat.pos_of_ne_zero fun hzero => ?_
  simp [convolvedExtent?, hzero] at h

theorem convolution_replaces {inX inY : Nat} {e : KernelExtents} {pad stride batch outX outY : Nat}
    (hinX : o.extent 3 = .ok inX) (hinY : o.extent 4 = .ok inY) (hkx : o.extent 5 = .ok e.x)
    (hky : o.extent 6 = .ok e.y) (hkz : o.extent 7 = .ok e.z) (hkw : o.extent 8 = .ok e.w)
    (hpad : o.extent 9 = .ok pad) (hstride : o.extent 10 = .ok stride)
    (hbatch : o.extent 11 = .ok batch)
    (houtX : convolvedExtent? inX e.x pad stride = some outX)
    (houtY : convolvedExtent? inY e.y pad stride = some outY)
    (hz : o.words 2 (outX * outY * e.w * batch) = .ok z)
    (hx : o.words 0 (inX * inY * e.z * batch) = .ok x) (hy : o.words 1 e.size = .ok y) :
    Replaces convolution o 2 (outX * outY * e.w * batch) z fun j _ =>
      sumOfProducts x y (convolutionTerms ⟨inX, inY, e.z⟩ e pad stride (j % outX)
        (j / outX % outY) (j / outX / outY % e.w) (j / outX / outY / e.w)) := by
  refine .of_update ?_ (Operands.size_words hz)
  simp only [convolution, hinX, hinY, hkx, hky, hkz, hkw, hpad, hstride, hbatch, houtX, houtY,
    divisor_of_pos (convolvedExtent?_stride_pos houtX), hz, hx, hy, coordinates, Except.ok_bind]

theorem convolutionAdd_replaces {inX inY : Nat} {e : KernelExtents} {padX padY : Int}
    {dilation outX outY batch : Nat} (hinX : o.extent 3 = .ok inX)
    (hinY : o.extent 4 = .ok inY) (hkx : o.extent 5 = .ok e.x) (hky : o.extent 6 = .ok e.y)
    (hkz : o.extent 7 = .ok e.z) (hkw : o.extent 8 = .ok e.w) (hpadX : o.int 9 = .ok padX)
    (hpadY : o.int 10 = .ok padY) (hdilation : o.extent 11 = .ok dilation)
    (houtX : o.extent 12 = .ok outX) (houtY : o.extent 13 = .ok outY)
    (hbatch : o.extent 14 = .ok batch)
    (hz : o.words 2 (outX * outY * e.w * batch) = .ok z)
    (hx : o.words 0 (inX * inY * e.z * batch) = .ok x) (hy : o.words 1 e.size = .ok y) :
    Replaces convolutionAdd o 2 (outX * outY * e.w * batch) z fun j old => do
      return old + (← sumOfProducts x y (dilatedTerms ⟨inX, inY, e.z⟩ e padX padY (max dilation 1) (j % outX)
        (j / outX % outY) (j / outX / outY % e.w) (j / outX / outY / e.w))) := by
  refine .of_update ?_ (Operands.size_words hz)
  simp only [convolutionAdd, hinX, hinY, hkx, hky, hkz, hkw, hpadX, hpadY, hdilation,
    divisor_of_pos (lt_max_of_lt_right one_pos), houtX, houtY, hbatch, hz, hx, hy, coordinates,
    Except.ok_bind]

theorem convolutionWeightGrad_replaces {inX inY : Nat} {e : KernelExtents}
    {outX outY pad stride batch : Nat} (hinX : o.extent 3 = .ok inX)
    (hinY : o.extent 4 = .ok inY) (houtX : o.extent 5 = .ok outX) (houtY : o.extent 6 = .ok outY)
    (hkx : o.extent 7 = .ok e.x) (hky : o.extent 8 = .ok e.y) (hkz : o.extent 9 = .ok e.z)
    (hkw : o.extent 10 = .ok e.w) (hpad : o.extent 11 = .ok pad) (hstride : o.extent 12 = .ok stride)
    (hbatch : o.extent 13 = .ok batch) (hz : o.words 2 e.size = .ok z)
    (hx : o.words 0 (inX * inY * e.z * batch) = .ok x)
    (hy : o.words 1 (outX * outY * e.w * batch) = .ok y) :
    Replaces convolutionWeightGrad o 2 e.size z fun j old => do
      return old + (← sumOfProducts x y (weightTerms ⟨inX, inY, e.z⟩ outX outY e.w pad stride batch (j % e.x)
        (j / e.x % e.y) (j / e.x / e.y % e.z) (j / e.x / e.y / e.z))) := by
  refine .of_update ?_ (Operands.size_words hz)
  simp only [convolutionWeightGrad, hinX, hinY, houtX, houtY, hkx, hky, hkz, hkw, hpad, hstride,
    hbatch, hz, hx, hy, coordinates, Except.ok_bind]

theorem sumOfProducts_succeeds {terms : List (Option Nat × Nat)} {n m : Nat}
    (h : ∀ t ∈ terms, (∀ p, t.1 = some p → p < n) ∧ t.2 < m) (hx : n ≤ x.size) (hy : m ≤ y.size) :
    ∃ s, sumOfProducts x y terms = .ok s := by
  have hall : ∃ s, sumOfProducts x y terms = .ok s ∧ True := by
    refine foldlM_succeeds trivial fun s t ht _ => ?_
    obtain ⟨hfirst, hsecond⟩ := h t ht
    obtain ⟨_ | p, q⟩ := t
    · exact ⟨_, by simp only [read_of_lt (hsecond.trans_le hy)]; rfl, trivial⟩
    · have hp : p < x.size := (hfirst p rfl).trans_le hx
      exact ⟨_, by simp only [read_of_lt hp, read_of_lt (hsecond.trans_le hy)]; rfl, trivial⟩
  obtain ⟨s, hs, -⟩ := hall
  exact ⟨s, hs⟩

/-! ### Pooling -/

omit [Scalar α] in
theorem pooledExtent?_stride_pos {input size pad stride out : Nat}
    (h : pooledExtent? input size pad stride = some out) : 0 < stride := by
  refine Nat.pos_of_ne_zero fun hzero => ?_
  simp [pooledExtent?, hzero] at h

def Pooling.value (p : Pooling) (x : Array α) (j : Nat) : Except Error α := do
  match ← firstMax x (p.window (j / p.outX / p.outY) (j % p.outX) (j / p.outX % p.outY)) with
  | some cell => read x cell
  | none => return 0

theorem maxPooling_replaces {p : Pooling} (hp : Pooling.ofOperands o 2 = .ok p)
    (hz : o.words 1 p.outputCells = .ok z) (hx : o.words 0 p.inputCells = .ok x) :
    Replaces maxPooling o 1 p.outputCells z fun j _ => p.value x j := by
  refine .of_update ?_ (Operands.size_words hz)
  simp only [maxPooling, hp, hz, hx, Except.ok_bind]
  rfl

theorem maxPoolingGrad_replaces {p : Pooling} (hp : Pooling.ofOperands o 3 = .ok p)
    (hz : o.words 2 p.inputCells = .ok z) (hx : o.words 0 p.inputCells = .ok x)
    (hy : o.words 1 p.outputCells = .ok y) :
    Replaces maxPoolingGrad o 2 p.inputCells z fun j old => do
      let plane := j / p.inX / p.inY
      let sum ← (p.coveringCells (j % p.inX) (j / p.inX % p.inY)).foldlM (fun sum (ox, oy) => do
        if (← firstMax x (p.window plane ox oy)) = some j then
          return sum + (← read y ((plane * p.outY + oy) * p.outX + ox))
        else return sum) 0
      return old + sum := by
  refine .of_update ?_ (Operands.size_words hz)
  simp only [maxPoolingGrad, hp, hz, hx, hy, Except.ok_bind]

/-! ### Row by row -/

omit [Scalar α] in
theorem row_div {cols r j : Nat} (hj : j < cols) : (r * cols + j) / cols = r := by
  rw [Nat.mul_comm, Nat.mul_add_div (by omega), Nat.div_eq_of_lt hj, Nat.add_zero]

omit [Scalar α] in
theorem row_mod {cols r j : Nat} (hj : j < cols) : (r * cols + j) % cols = j := by
  rw [Nat.mul_comm, Nat.mul_add_mod, Nat.mod_eq_of_lt hj]

omit [Scalar α] in
theorem row_lt {rows cols r j : Nat} (hr : r < rows) (hj : j < cols) :
    r * cols + j < rows * cols := by
  have h := Nat.mul_le_mul_right cols hr
  rw [Nat.succ_mul] at h
  omega

omit [Scalar α] in
theorem nonemptyRows_mul (rows cols : Nat) : nonemptyRows rows cols * cols = rows * cols := by
  unfold nonemptyRows
  split
  · next h => rw [h, Nat.mul_zero, Nat.mul_zero]
  · rfl

omit [Scalar α] in
/-- A loop whose round `i` reaches the entries of row `i` and no other. -/
theorem loop_replaced {rows cols : Nat} {step : Nat → Array α → Except Error (Array α)}
    {f : Nat → Nat → α → Except Error α} {data : Array α}
    (hz : rows * cols ≤ z.size)
    (hstep : ∀ i < rows, ∀ a d, i * cols + cols ≤ a.size → step i a = .ok d → d.size = a.size ∧
      (∀ j < cols, ∃ old new, a[i * cols + j]? = some old ∧ f i j old = .ok new ∧
        d[i * cols + j]? = some new) ∧
      ∀ p, p < i * cols ∨ i * cols + cols ≤ p → d[p]? = a[p]?)
    (h : loop rows z step = .ok data) :
    Replaced (rows * cols) z (fun p => f (p / cols) (p % cols)) data := by
  suffices hall : data.size = z.size ∧ (∀ p < rows * cols, ∃ old new, z[p]? = some old ∧
      f (p / cols) (p % cols) old = .ok new ∧ data[p]? = some new) ∧
      ∀ p, rows * cols ≤ p → data[p]? = z[p]? from ⟨hall.1, hall.2.1⟩
  refine loop_induct (P := fun i (d : Array α) => d.size = z.size ∧
    (∀ p < i * cols, ∃ old new, z[p]? = some old ∧ f (p / cols) (p % cols) old = .ok new ∧
      d[p]? = some new) ∧ ∀ p, i * cols ≤ p → d[p]? = z[p]?) ⟨rfl, by simp, by simp⟩ ?_ h
  rintro i c d hi ⟨hsize, hdone, hrest⟩ hd
  have hmul := Nat.mul_le_mul_right cols hi
  rw [Nat.succ_mul] at hmul
  obtain ⟨hsize', hrow, hother⟩ := hstep i hi c d (by omega) hd
  refine ⟨hsize'.trans hsize, fun p hp => ?_, fun p hp => ?_⟩
  · rw [Nat.succ_mul] at hp
    by_cases hlt : p < i * cols
    · obtain ⟨old, new, hold, hnew, hp'⟩ := hdone p hlt
      exact ⟨old, new, hold, hnew, by rw [hother p (.inl hlt), hp']⟩
    · obtain ⟨j, rfl⟩ := Nat.exists_eq_add_of_le (Nat.le_of_not_lt hlt)
      have hj : j < cols := by omega
      obtain ⟨old, new, hold, hnew, hp'⟩ := hrow j hj
      rw [hrest _ (Nat.le_add_right _ _)] at hold
      exact ⟨old, new, hold, by rw [row_div hj, row_mod hj]; exact hnew, hp'⟩
  · rw [Nat.succ_mul] at hp
    rw [hother p (.inr hp), hrest p (by omega)]

omit [Scalar α] in
theorem loop_rows_succeeds {rows cols : Nat} {step : Nat → Array α → Except Error (Array α)}
    (hz : rows * cols ≤ z.size)
    (hstep : ∀ i < rows, ∀ c : Array α, i * cols + cols ≤ c.size →
      ∃ d, step i c = .ok d ∧ d.size = c.size) : ∃ data, loop rows z step = .ok data := by
  obtain ⟨data, hd, -⟩ := loop_succeeds (P := fun _ (d : Array α) => d.size = z.size) rfl
    fun i c hi hc => by
      have hmul := Nat.mul_le_mul_right cols hi
      rw [Nat.succ_mul] at hmul
      obtain ⟨d, hd, hsize⟩ := hstep i hi c (by omega)
      exact ⟨d, hd, hsize.trans hc⟩
  exact ⟨data, hd⟩

omit [Scalar α] in
theorem Replaces.of_rows {γ : Type} {rows cols : Nat} {g : Nat → Except Error γ}
    {f : γ → Nat → Nat → α → Except Error α}
    (hk : k o = loop (nonemptyRows rows cols) z (fun r data =>
      g r >>= fun c => updateSpan (r * cols) cols data (f c r)) >>= fun data => pure [(i, data)])
    (hz : rows * cols ≤ z.size) :
    Replaces k o i (rows * cols) z fun p old =>
      g (p / cols) >>= fun c => f c (p / cols) (p % cols) old := by
  have hrows := nonemptyRows_mul rows cols
  have hz' : nonemptyRows rows cols * cols ≤ z.size := hrows.trans_le hz
  refine .of_bind hk (fun data hd => ?_) fun hf => ?_
  · rw [← hrows]
    refine loop_replaced (f := fun r j old => g r >>= fun c => f c r j old) hz'
      (fun r _ a d _ hd => ?_) hd
    obtain ⟨c, hc, hd⟩ := Except.bind_ok_iff.mp hd
    simp only [hc, Except.ok_bind]
    exact updateSpan_entries hd
  · refine loop_rows_succeeds hz' fun r hr a ha => ?_
    have hall : ∀ j < cols, ∀ old, ∃ new, (g r >>= fun c => f c r j old) = .ok new := by
      intro j hj old
      have h := hf (r * cols + j) (hrows ▸ row_lt hr hj) old
      rwa [row_div hj, row_mod hj] at h
    have hpos : 0 < cols := by
      unfold nonemptyRows at hr
      split at hr <;> omega
    have hlt : r * cols < a.size := by omega
    obtain ⟨new, hnew⟩ := hall 0 hpos a[r * cols]
    obtain ⟨c, hc, -⟩ := Except.bind_ok_iff.mp hnew
    simp only [hc, Except.ok_bind] at hall ⊢
    obtain ⟨d, hd⟩ := updateSpan_succeeds ha hall
    exact ⟨d, hd, updateSpan_size hd⟩

theorem matrixProductWith_replaces {beta : α} {m k' : Nat} (hm : o.extent 3 = .ok m)
    (hn : o.extent 4 = .ok n) (hk : o.extent 5 = .ok k') (hz : o.words 2 (m * n) = .ok z)
    (hx : o.words 0 (m * k') = .ok x) (hy : o.words 1 (k' * n) = .ok y) :
    Replaces (matrixProductWith beta) o 2 (m * n) z fun p old => do
      return 1 * (← dotProduct x y n k' (p / n) (p % n)) + beta * old := by
  refine .of_rows (g := fun _ => .ok PUnit.unit) (f := fun _ r j old => do
    return 1 * (← dotProduct x y n k' r j) + beta * old) ?_ (Operands.size_words hz)
  simp only [matrixProductWith, hm, hn, hk, hz, hx, hy, Except.ok_bind, product]

def rowScale (a : Array α) (start cols : Nat) : Except Error (α × α) := do
  let top ← rowMax a start cols
  let sum ← loop cols 0 fun i sum => do return sum + Scalar.exp ((← read a (start + i)) - top)
  return (top, sum)

theorem softmax_replaces {cols rows : Nat} (hc : o.extent 2 = .ok cols) (hr : o.extent 3 = .ok rows)
    (hz : o.words 1 (cols * rows) = .ok z) (hx : o.words 0 (cols * rows) = .ok x) :
    Replaces softmax o 1 (rows * cols) z fun p _ => do
      let (top, sum) ← rowScale x (p / cols * cols) cols
      return Scalar.exp ((← read x (p / cols * cols + p % cols)) - top) / sum := by
  have hsize := Operands.size_words hz
  rw [Nat.mul_comm] at hsize
  refine .of_rows (g := fun r => rowScale x (r * cols) cols) (f := fun (top, sum) r j _ => do
    return Scalar.exp ((← read x (r * cols + j)) - top) / sum) ?_ hsize
  simp only [softmax, softmaxRow, rowScale, hc, hr, hz, hx, Except.ok_bind, bind_assoc, pure_bind]

def rowDot (dy y : Array α) (start cols : Nat) : Except Error α :=
  loop cols Scalar.emptySum fun i sum => do
    return sum + (← read dy (start + i)) * (← read y (start + i))

theorem softmaxGrad_replaces {cols rows : Nat} (hc : o.extent 3 = .ok cols)
    (hr : o.extent 4 = .ok rows) (hz : o.words 2 (cols * rows) = .ok z)
    (hx : o.words 0 (cols * rows) = .ok x) (hy : o.words 1 (cols * rows) = .ok y) :
    Replaces softmaxGrad o 2 (rows * cols) z fun p old => do
      let dot ← rowDot x y (p / cols * cols) cols
      return old + (← read y (p / cols * cols + p % cols)) *
        ((← read x (p / cols * cols + p % cols)) - dot) := by
  have hsize := Operands.size_words hz
  rw [Nat.mul_comm] at hsize
  refine .of_rows (g := fun r => rowDot x y (r * cols) cols) (f := fun dot r j old => do
    return old + (← read y (r * cols + j)) * ((← read x (r * cols + j)) - dot)) ?_ hsize
  simp only [softmaxGrad, rowDot, hc, hr, hz, hx, hy, Except.ok_bind]

/-! ### Losses -/

theorem labelClass?_lt {label : α} {cols c : Nat} (h : labelClass? label cols = some c) :
    c < cols := by
  unfold labelClass? at h
  split at h
  · split at h
    · cases h
      assumption
    · cases h
  · cases h

/-- What a row's share of the cross entropy adds to the gradient in column `j`. -/
def labelledEntry (x y : Array α) (cols rows r j : Nat) (old : α) : Except Error α := do
  if labelClass? (← read y r) cols = some j then
    let p := Scalar.larger (← read x (r * cols + j)) Scalar.probabilityFloor
    return old - 1 / (Scalar.ofNat (max rows 1) * p)
  else return old

theorem crossEntropyGrad_replaces {cols rows : Nat} (hc : o.extent 3 = .ok cols)
    (hr : o.extent 4 = .ok rows) (hz : o.words 2 (cols * rows) = .ok z)
    (hx : o.words 0 (cols * rows) = .ok x) (hy : o.words 1 rows = .ok y) :
    Replaces crossEntropyGrad o 2 (rows * cols) z fun p =>
      labelledEntry x y cols rows (p / cols) (p % cols) := by
  have hsize := Operands.size_words hz
  rw [Nat.mul_comm] at hsize
  let step (r : Nat) (dx : Array α) : Except Error (Array α) := do
    match labelClass? (← read y r) cols with
    | some c => update dx (r * cols + c) fun old => do
      let p := Scalar.larger (← read x (r * cols + c)) Scalar.probabilityFloor
      return old - 1 / (Scalar.ofNat (max rows 1) * p)
    | none => return dx
  refine .of_bind (e := loop rows z step) ?_ (fun data hd => ?_) fun hf => ?_
  · simp only [crossEntropyGrad, hc, hr, hz, hx, hy, Except.ok_bind]
    rfl
  · refine loop_replaced (f := labelledEntry x y cols rows) hsize (fun r _ a d ha hd => ?_) hd
    obtain ⟨label, hlabel, hd⟩ := Except.bind_ok_iff.mp hd
    have hkeep : ∀ j < cols, labelClass? label cols ≠ some j → ∃ old,
        a[r * cols + j]? = some old ∧ labelledEntry x y cols rows r j old = .ok old := by
      intro j hj hne
      have hlt : r * cols + j < a.size := by omega
      refine ⟨_, Array.getElem?_eq_getElem hlt, ?_⟩
      simp only [labelledEntry, hlabel, Except.ok_bind, if_neg hne]
      rfl
    cases hclass : labelClass? label cols with
    | none =>
      simp only [hclass, Except.pure_ok_iff] at hd
      subst hd
      refine ⟨rfl, fun j hj => ?_, fun _ _ => rfl⟩
      obtain ⟨old, hold, hentry⟩ := hkeep j hj (by simp [hclass])
      exact ⟨old, old, hold, hentry, hold⟩
    | some c =>
      have hlt := labelClass?_lt hclass
      simp only [hclass, update_ok_iff] at hd
      obtain ⟨old, new, hold, hnew, rfl⟩ := hd
      refine ⟨Array.size_setIfInBounds, fun j hj => ?_, fun p hp => ?_⟩
      · by_cases hjc : j = c
        · subst hjc
          refine ⟨old, new, hold, ?_, by
            rw [Array.getElem?_setIfInBounds_self_of_lt (by omega)]⟩
          simp only [labelledEntry, hlabel, hclass, Except.ok_bind, if_true]
          exact hnew
        · obtain ⟨old', hold', hentry⟩ := hkeep j hj (by simp [hclass, Ne.symm hjc])
          exact ⟨old', old', hold', hentry, by
            rw [Array.getElem?_setIfInBounds_ne (by omega), hold']⟩
      · rw [Array.getElem?_setIfInBounds_ne (by omega)]
  · refine loop_rows_succeeds hsize fun r hr a ha => ?_
    have hlt : r < y.size := (Operands.size_words hy).trans_lt' hr
    have hlabel := read_of_lt hlt
    simp only [step, hlabel, Except.ok_bind]
    cases hclass : labelClass? y[r] cols with
    | none => exact ⟨a, rfl, rfl⟩
    | some c =>
      have hlt := labelClass?_lt hclass
      have hlt' : r * cols + c < a.size := by omega
      obtain ⟨new, hnew⟩ := hf (r * cols + c) (row_lt hr hlt) a[r * cols + c]
      rw [row_div hlt, row_mod hlt] at hnew
      simp only [labelledEntry, hlabel, hclass, Except.ok_bind, if_true] at hnew
      refine ⟨a.setIfInBounds (r * cols + c) new, update_ok_iff.mpr ?_, Array.size_setIfInBounds⟩
      exact ⟨_, new, Array.getElem?_eq_getElem hlt', hnew, rfl⟩

end Kernel

end Backprop
