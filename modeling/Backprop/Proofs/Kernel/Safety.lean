import Mathlib
import Backprop.Proofs.Kernel.ConvolutionProducts
import Backprop.Proofs.Kernel.Pooling

/-! No kernel reaches outside an array or divides by zero, whatever its arguments are: what it has
not checked at its start follows from what it has. Two kernels compute a size from something else
than their extents, and are at fault where it is none. -/

namespace Backprop

variable {α β γ σ : Type}

/-- A computation that ends in a result, or in an error that says what is wrong with its input. -/
def Faultless (x : Except Error β) : Prop := ∀ f, x ≠ .error (.fault f)

namespace Faultless

variable {x : Except Error β} {a : Array α} {i n : Nat}

theorem pure (b : β) : Faultless (pure b) := fun _ h => nomatch h

theorem throw {e : Error} (h : ∀ f, e ≠ .fault f) : Faultless (throw e : Except Error β) :=
  fun f he => h f (Except.error.inj he)

theorem of_ok (h : ∃ b, x = .ok b) : Faultless x := by
  obtain ⟨b, rfl⟩ := h
  exact fun _ h => nomatch h

theorem bind {f : β → Except Error γ} (hx : Faultless x) (hf : ∀ b, x = .ok b → Faultless (f b)) :
    Faultless (x >>= f) := by
  intro fault h
  cases x with
  | error e => exact hx fault (congrArg _ (Except.error.inj h))
  | ok b => exact hf b rfl fault h

theorem fault_after {f : β → Except Error γ} {fault : Fault} (hx : Faultless x)
    (h : (x >>= f) = .error (.fault fault)) : ∃ b, x = .ok b ∧ f b = .error (.fault fault) := by
  cases x with
  | error e => exact absurd (congrArg _ (Except.error.inj h)) (hx fault)
  | ok b => exact ⟨b, rfl, h⟩

theorem answer {x : Except Error (Array α)} (hx : Faultless x) :
    Faultless (x >>= fun data => Pure.pure [(i, data)]) :=
  .bind hx fun _ _ => .pure _

/-! ### Accesses -/

theorem read (h : i < a.size) : Faultless (read a i) := .of_ok ⟨_, read_of_lt h⟩

theorem write (h : i < a.size) (x : α) : Faultless (write a i x) := .of_ok ⟨_, write_of_lt h x⟩

theorem update {f : α → Except Error α} (h : i < a.size) (hf : ∀ x, Faultless (f x)) :
    Faultless (update a i f) :=
  .bind (.read h) fun x _ => .bind (hf x) fun y _ => .write h y

theorem divisor (hn : 0 < n) : Faultless (divisor n) := .of_ok ⟨n, divisor_of_pos hn⟩

theorem quotient {b : Nat} (hb : 0 < b) : Faultless (quotient i b) :=
  .of_ok ⟨i / b, if_neg hb.ne'⟩

theorem remainder {b : Nat} (hb : 0 < b) : Faultless (remainder i b) :=
  .of_ok ⟨i % b, if_neg hb.ne'⟩

/-! ### Loops -/

theorem loopFrom_keeping {P : Nat → σ → Prop} {step : Nat → σ → Except Error σ} {count i : Nat}
    {s : σ} (start : P i s)
    (next : ∀ j s, i ≤ j → j < i + count → P j s →
      Faultless (step j s) ∧ ∀ s', step j s = .ok s' → P (j + 1) s') :
    Faultless (loopFrom step count i s) := by
  induction count generalizing i s with
  | zero => exact .of_ok ⟨s, rfl⟩
  | succ count ih =>
    obtain ⟨hstep, hnext⟩ := next i s le_rfl (by omega) start
    rw [loopFrom]
    cases hs : step i s with
    | error e =>
      rw [hs] at hstep
      exact fun f he => hstep f (congrArg _ (Except.error.inj he))
    | ok t => exact ih (hnext t hs) fun j s hj hj' => next j s (by omega) (by omega)

theorem loop_keeping {P : Nat → σ → Prop} {step : Nat → σ → Except Error σ} {s : σ}
    (start : P 0 s)
    (next : ∀ i s, i < n → P i s → Faultless (step i s) ∧ ∀ s', step i s = .ok s' → P (i + 1) s') :
    Faultless (loop n s step) :=
  loopFrom_keeping start fun i s _ hi => next i s (by omega)

theorem loop {step : Nat → σ → Except Error σ} {s : σ} (h : ∀ i s, i < n → Faultless (step i s)) :
    Faultless (loop n s step) :=
  loop_keeping (P := fun _ _ => True) trivial fun i s hi _ => ⟨h i s hi, fun _ _ => trivial⟩

theorem foldlM_keeping {P : σ → Prop} {f : σ → β → Except Error σ} {l : List β} {s : σ} (start : P s)
    (next : ∀ s, ∀ b ∈ l, P s → Faultless (f s b) ∧ ∀ s', f s b = .ok s' → P s') :
    Faultless (l.foldlM f s) := by
  induction l generalizing s with
  | nil => exact .pure s
  | cons b l ih =>
    obtain ⟨hstep, hnext⟩ := next s b List.mem_cons_self start
    rw [List.foldlM_cons]
    exact .bind hstep fun t ht =>
      ih (hnext t ht) fun s c hc => next s c (List.mem_cons_of_mem b hc)

theorem updateSpan {base : Nat} {f : Nat → α → Except Error α} (room : base + n ≤ a.size)
    (hf : ∀ i < n, ∀ x, Faultless (f i x)) : Faultless (updateSpan base n a f) := by
  refine loop_keeping (P := fun _ (b : Array α) => b.size = a.size) rfl fun i b hi hb => ?_
  have hlt : base + i < b.size := by omega
  exact ⟨.update hlt (hf i hi), fun c hc => (update_size hc).trans hb⟩

theorem updateFirst {f : Nat → α → Except Error α} (room : n ≤ a.size)
    (hf : ∀ i < n, ∀ x, Faultless (f i x)) : Faultless (updateFirst n a f) :=
  .updateSpan (by omega) hf

theorem loop_rows {rows cols : Nat} {step : Nat → Array α → Except Error (Array α)}
    (hn : n ≤ rows) (room : rows * cols ≤ a.size)
    (h : ∀ r < rows, ∀ c : Array α, r * cols + cols ≤ c.size →
      Faultless (step r c) ∧ ∀ d, step r c = .ok d → d.size = c.size) :
    Faultless (Backprop.loop n a step) := by
  refine loop_keeping (P := fun _ (c : Array α) => c.size = a.size) rfl fun r c hr hc => ?_
  have hrow := Nat.mul_le_mul_right cols (hr.trans_le hn)
  rw [Nat.succ_mul] at hrow
  obtain ⟨hstep, hsize⟩ := h r (by omega) c (by omega)
  exact ⟨hstep, fun d hd => (hsize d hd).trans hc⟩

/-! ### Arguments -/

variable {o : Operands α}

theorem get (o : Operands α) (i : Nat) : Faultless (o.get i) := by
  unfold Operands.get
  split
  · exact .pure _
  · exact .throw fun _ h => nomatch h

theorem integer (o : Operands α) (i : Nat) : Faultless (o.int i) := by
  refine .bind (.get o i) fun operand _ => ?_
  split
  · exact .pure _
  · exact .pure _
  · exact .throw fun _ h => nomatch h

theorem int {f : Int → Except Error γ} (hf : ∀ v, Faultless (f v)) : Faultless (o.int i >>= f) :=
  .bind (.integer o i) fun v _ => hf v

theorem natural (o : Operands α) (i : Nat) : Faultless (o.extent i) := by
  refine .int fun v => ?_
  by_cases hv : v < 0
  · rw [if_pos hv]
    exact .throw fun _ h => nomatch h
  · rw [if_neg hv]
    exact .pure _

theorem extent {f : Nat → Except Error γ} (hf : ∀ n, Faultless (f n)) :
    Faultless (o.extent i >>= f) :=
  .bind (.natural o i) fun n _ => hf n

theorem number [Scalar α] (o : Operands α) (i : Nat) : Faultless (o.float i) := by
  refine .bind (.get o i) fun operand _ => ?_
  split
  · exact .pure _
  · exact .pure _
  · exact .pure _
  · exact .throw fun _ h => nomatch h

theorem float [Scalar α] {f : α → Except Error γ} (hf : ∀ x, Faultless (f x)) :
    Faultless (o.float i >>= f) :=
  .bind (.number o i) fun x _ => hf x

theorem buffer (o : Operands α) (i n : Nat) : Faultless (o.words i n) := by
  refine .bind (.get o i) fun operand _ => ?_
  split
  · split
    · exact .pure _
    · exact .throw fun _ h => nomatch h
  · exact .throw fun _ h => nomatch h

theorem words {f : Array α → Except Error γ} (hf : ∀ x, n ≤ x.size → Faultless (f x)) :
    Faultless (o.words i n >>= f) :=
  .bind (.buffer o i n) fun x hx => hf x (Operands.size_words hx)

end Faultless

namespace Kernel

/-! ### Entry by entry -/

theorem copy_faultless (o : Operands α) : Faultless (copy o) := by
  refine .extent fun n => .words fun z hz => .words fun x hx => ?_
  exact .answer (.updateFirst hz fun j hj _ => .read (by omega))

theorem combine_faultless (f : α → α → α → α) (o : Operands α) : Faultless (combine f o) := by
  refine .extent fun n => .words fun z hz => .words fun x hx => .words fun y hy => ?_
  refine .answer (.updateFirst hz fun j hj old => ?_)
  exact .bind (.read (by omega)) fun a _ => .bind (.read (by omega)) fun b _ => .pure _

theorem activation_faultless (f : α → α) (o : Operands α) : Faultless (activation f o) := by
  refine .extent fun n => .words fun z hz => .words fun x hx => ?_
  exact .answer (.updateFirst hz fun j hj _ => .bind (.read (by omega)) fun _ _ => .pure _)

theorem transpose_faults {o : Operands α} {f : Fault} (h : transpose o = .error (.fault f)) :
    f = .overflow ∧ ∃ cols rows, o.extent 2 = .ok cols ∧ o.extent 3 = .ok rows ∧
      UInt64.size ≤ rows * cols * max o.launch.global.z 1 := by
  obtain ⟨cols, hcols, h⟩ := Faultless.fault_after (.natural o 2) h
  obtain ⟨rows, hrows, h⟩ := Faultless.fault_after (.natural o 3) h
  have hrest : Faultless (o.words 1 (rows * cols * max o.launch.global.z 1) >>= fun out => do
      let a ← o.words 0 (rows * cols * max o.launch.global.z 1)
      return [(1, ← updateFirst (rows * cols * max o.launch.global.z 1) out fun i _ =>
        read a (transposeSource rows cols i))]) := by
    refine .words fun z hz => .words fun x hx => .answer (.updateFirst hz fun j hj _ => .read ?_)
    exact (transposeSource_row (b := 0) hj).1.trans_le hx
  cases hsize : requireSize (rows * cols * max o.launch.global.z 1) (o.held 1) with
  | ok u =>
    simp only [hsize, Except.ok_bind] at h
    exact absurd h (hrest f)
  | error e =>
    simp only [hsize] at h
    obtain ⟨rfl, -, hlarge⟩ := requireSize_error_iff.mp hsize
    cases h
    exact ⟨rfl, cols, rows, hcols, hrows, hlarge⟩

theorem rotateAndReorder_faultless (o : Operands α) : Faultless (rotateAndReorder o) := by
  refine .extent fun kx => .extent fun ky => .extent fun kz => .extent fun kw => ?_
  refine .words fun z hz => .words fun x hx => .answer (.updateFirst hz fun j hj _ => .read ?_)
  exact (rotationSource_lt hj).trans_le hx

variable [Scalar α]

theorem copyAdd_faultless (o : Operands α) : Faultless (copyAdd o) := by
  refine .extent fun n => .words fun z hz => .words fun x hx => ?_
  exact .answer (.updateFirst hz fun j hj _ => .bind (.read (by omega)) fun _ _ => .pure _)

theorem activationGrad_faultless (f : α → α) (o : Operands α) : Faultless (activationGrad f o) := by
  refine .extent fun n => .words fun z hz => .words fun x hx => .words fun y hy => ?_
  refine .answer (.updateFirst hz fun j hj old => ?_)
  exact .bind (.read (by omega)) fun a _ => .bind (.read (by omega)) fun b _ => .pure _

theorem subtractFromConst_faultless (o : Operands α) : Faultless (subtractFromConst o) := by
  refine .float fun c => .extent fun n => .words fun z hz => .words fun x hx => ?_
  exact .answer (.updateFirst hz fun j hj _ => .bind (.read (by omega)) fun _ _ => .pure _)

theorem subtractFromConstGrad_faultless (o : Operands α) : Faultless (subtractFromConstGrad o) := by
  refine .extent fun n => .words fun z hz => .words fun x hx => ?_
  exact .answer (.updateFirst hz fun j hj _ => .bind (.read (by omega)) fun _ _ => .pure _)

theorem meanSquaredErrorGrad_faultless (o : Operands α) : Faultless (meanSquaredErrorGrad o) := by
  refine .extent fun n => .extent fun rows => ?_
  refine .words fun z hz => .words fun x hx => .words fun y hy => ?_
  refine .answer (.updateFirst hz fun j hj old => ?_)
  exact .bind (.read (by omega)) fun a _ => .bind (.read (by omega)) fun b _ => .pure _

theorem gradientDescent_faultless (o : Operands α) : Faultless (gradientDescent o) := by
  refine .float fun c => .extent fun n => .words fun z hz => .words fun x hx => ?_
  exact .answer (.updateFirst hz fun j hj _ => .bind (.read (by omega)) fun _ _ => .pure _)

theorem adam_faultless (o : Operands α) : Faultless (adam o) := by
  refine .float fun alpha => .float fun beta₁ => .float fun beta₂ => .float fun epsilon => ?_
  refine .extent fun n => .int fun t => ?_
  refine .words fun m hm => .words fun v hv => .words fun w hw => .words fun g hg => ?_
  refine .bind (.updateFirst hm fun j hj _ => ?_) fun m' hm' => ?_
  · exact .bind (.read (by omega)) fun _ _ => .pure _
  refine .bind (.updateFirst hv fun j hj _ => ?_) fun v' hv' => ?_
  · exact .bind (.read (by omega)) fun _ _ => .pure _
  -- the new moments are as long as those that were given
  have hm' := updateFirst_size hm'
  have hv' := updateFirst_size hv'
  refine .bind (.updateFirst hw fun j hj _ => ?_) fun _ _ => .pure _
  exact .bind (.read (by omega)) fun _ _ => .bind (.read (by omega)) fun _ _ => .pure _

/-! ### Biases -/

theorem addToMatrix_faultless (o : Operands α) : Faultless (addToMatrix o) := by
  refine .extent fun cols => .extent fun rows => ?_
  refine .words fun z hz => .words fun x hx => .words fun y hy => ?_
  refine .answer (.updateFirst hz fun j hj old => ?_)
  have hcols : 0 < cols := Nat.pos_of_ne_zero fun h => by simp [h] at hj
  refine .bind (.read (by omega)) fun a _ => .bind (.remainder hcols) fun c hc => ?_
  rw [remainder, if_neg hcols.ne', Except.ok.injEq] at hc
  have hlt : c < cols := hc ▸ Nat.mod_lt j hcols
  exact .bind (.read (by omega)) fun b _ => .pure _

theorem addToMatrixGrad_faultless (o : Operands α) : Faultless (addToMatrixGrad o) := by
  refine .extent fun cols => .extent fun rows => .words fun z hz => .words fun x hx => ?_
  refine .answer (.updateFirst hz fun j hj old => .loop fun r sum hr => ?_)
  have hlt : r * cols + j < cols * rows := (row_lt hr hj).trans_eq (Nat.mul_comm rows cols)
  exact .bind (.read (by omega)) fun _ _ => .pure _

theorem addToImage_faultless (o : Operands α) : Faultless (addToImage o) := by
  refine .extent fun plane => .extent fun channels => .extent fun batch => ?_
  refine .words fun z hz => .words fun x hx => .words fun y hy => ?_
  refine .answer (.updateFirst hz fun j hj old => ?_)
  have hplane : 0 < plane := Nat.pos_of_ne_zero fun h => by simp [h] at hj
  have hchannels : 0 < channels := Nat.pos_of_ne_zero fun h => by simp [h] at hj
  refine .bind (.read (by omega)) fun a _ => .bind (.quotient hplane) fun q _ => ?_
  refine .bind (.remainder hchannels) fun c hc => ?_
  rw [remainder, if_neg hchannels.ne', Except.ok.injEq] at hc
  have hlt : c < channels := hc ▸ Nat.mod_lt q hchannels
  exact .bind (.read (by omega)) fun b _ => .pure _

theorem addToImageGrad_faultless (o : Operands α) : Faultless (addToImageGrad o) := by
  refine .extent fun plane => .extent fun channels => .extent fun batch => ?_
  refine .words fun z hz => .words fun x hx => ?_
  refine .answer (.updateFirst hz fun channel hchannel old => .loop fun b total hb => ?_)
  refine .bind (.loop fun i sum hi => ?_) fun sum _ => .pure _
  have hrow : b < batch := by split at hb <;> omega
  have hlt := (Tiling.coordinates_bound hi hchannel hrow).trans_le hx
  exact .bind (.read hlt) fun _ _ => .pure _

/-- Only a count that is the largest size can keep a log from the next. -/
theorem appendId_faults {o : Operands α} {f : Fault} (h : appendId o = .error (.fault f)) :
    f = .overflow ∧ ∃ log head, o.args[0]? = some (.words log) ∧ log[0]? = some head ∧
      UInt64.size ≤ (Scalar.wholePart? head).getD 0 + 1 := by
  obtain ⟨id, -, h⟩ := Faultless.fault_after (.number o 1) h
  obtain ⟨log, hlog, h⟩ := Faultless.fault_after (.buffer o 0 1) h
  obtain ⟨hwords, hpos⟩ := Operands.words_ok_iff.mp hlog
  obtain ⟨head, hhead, h⟩ := Faultless.fault_after (.read hpos) h
  cases hsize : requireSize ((Scalar.wholePart? head).getD 0 + 1) log.size with
  | ok u =>
    simp only [hsize, Except.ok_bind] at h
    refine absurd h ?_
    split
    · next hslot =>
      refine Faultless.bind (.write hslot id) (fun once honce => .answer (.update ?_ fun _ => .pure _)) f
      obtain ⟨-, rfl⟩ := write_ok_iff.mp honce
      rwa [Array.size_setIfInBounds]
    · exact Faultless.pure _ f
  | error e =>
    simp only [hsize] at h
    obtain ⟨rfl, -, hlarge⟩ := requireSize_error_iff.mp hsize
    cases h
    exact ⟨rfl, log, head, hwords, read_ok_iff.mp hhead, hlarge⟩

/-! ### Row by row -/

omit [Scalar α] in
theorem nonemptyRows_le (rows cols : Nat) : nonemptyRows rows cols ≤ rows := by
  unfold nonemptyRows
  split <;> omega

theorem dotProduct_faultless {x y : Array α} {m n k i j : Nat} (hx : m * k ≤ x.size)
    (hy : k * n ≤ y.size) (hi : i < m) (hj : j < n) : Faultless (dotProduct x y n k i j) := by
  refine .loop fun p sum hp => ?_
  exact .bind (.read ((row_lt hi hp).trans_le hx)) fun _ _ =>
    .bind (.read ((row_lt hp hj).trans_le hy)) fun _ _ => .pure _

theorem matrixProductWith_faultless (beta : α) (o : Operands α) :
    Faultless (matrixProductWith beta o) := by
  refine .extent fun m => .extent fun n => .extent fun k => ?_
  refine .words fun z hz => .words fun x hx => .words fun y hy => .answer ?_
  refine .loop_rows (nonemptyRows_le m n) hz fun r hr c hc => ⟨.updateSpan hc fun j hj old => ?_, ?_⟩
  · exact .bind (dotProduct_faultless hx hy hr hj) fun _ _ => .pure _
  · exact fun d hd => updateSpan_size hd

theorem rowMax_faultless {x : Array α} {start cols : Nat} (hx : start + cols ≤ x.size) :
    Faultless (rowMax x start cols) :=
  .loop fun i best hi => .bind (.read (by omega)) fun _ _ => .pure _

theorem softmaxRow_faultless {x z : Array α} {start cols : Nat} (hx : start + cols ≤ x.size)
    (hz : start + cols ≤ z.size) : Faultless (softmaxRow x z start cols) := by
  refine .bind (rowMax_faultless hx) fun top _ => .bind (.loop fun i sum hi => ?_) fun sum _ => ?_
  · exact .bind (.read (by omega)) fun _ _ => .pure _
  · exact .updateSpan hz fun i hi _ => .bind (.read (by omega)) fun _ _ => .pure _

theorem softmax_faultless (o : Operands α) : Faultless (softmax o) := by
  refine .extent fun cols => .extent fun rows => .words fun z hz => .words fun x hx => .answer ?_
  rw [Nat.mul_comm] at hz
  refine .loop_rows (nonemptyRows_le rows cols) hz fun r hr c hc => ⟨softmaxRow_faultless ?_ hc, ?_⟩
  · exact (row_end_le hr).trans hx
  · exact fun d hd => softmaxRow_size hd

theorem softmaxGrad_faultless (o : Operands α) : Faultless (softmaxGrad o) := by
  refine .extent fun cols => .extent fun rows => ?_
  refine .words fun z hz => .words fun x hx => .words fun y hy => .answer ?_
  rw [Nat.mul_comm] at hz
  refine .loop_rows (nonemptyRows_le rows cols) hz fun r hr c hc => ?_
  have hrow : r * cols + cols ≤ cols * rows := row_end_le hr
  refine ⟨.bind (.loop fun i sum hi => ?_) fun dot _ => .updateSpan hc fun i hi old => ?_, ?_⟩
  · exact .bind (.read (by omega)) fun _ _ => .bind (.read (by omega)) fun _ _ => .pure _
  · exact .bind (.read (by omega)) fun _ _ => .bind (.read (by omega)) fun _ _ => .pure _
  · intro d hd
    obtain ⟨dot, -, hd⟩ := Except.bind_ok_iff.mp hd
    exact updateSpan_size hd

/-! ### Losses -/

theorem meanSquaredError_faultless (o : Operands α) : Faultless (meanSquaredError o) := by
  refine .extent fun cols => .extent fun rows => ?_
  refine .words fun z hz => .words fun x hx => .words fun y hy => ?_
  refine .bind (.loop fun i sum hi => ?_) fun sum _ => .answer (.write hz _)
  exact .bind (.read (by omega)) fun _ _ => .bind (.read (by omega)) fun _ _ => .pure _

theorem crossEntropy_faultless (o : Operands α) : Faultless (crossEntropy o) := by
  refine .extent fun cols => .extent fun rows => ?_
  refine .words fun z hz => .words fun x hx => .words fun y hy => ?_
  refine .bind (.loop fun r total hr => .bind (.read (by omega)) fun label _ => ?_) fun total _ =>
    .answer (.write hz _)
  split
  · next c hc =>
    have hcell := Nat.add_lt_add_left (labelClass?_lt hc) (r * cols)
    have hrow : r * cols + cols ≤ cols * rows := row_end_le hr
    exact .bind (.read (by omega)) fun _ _ => .pure _
  · exact .pure _

theorem crossEntropyGrad_faultless (o : Operands α) : Faultless (crossEntropyGrad o) := by
  refine .extent fun cols => .extent fun rows => ?_
  refine .words fun z hz => .words fun x hx => .words fun y hy => .answer ?_
  rw [Nat.mul_comm] at hz
  refine .loop_rows le_rfl hz fun r hr d hd => ?_
  have hrow : r * cols + cols ≤ cols * rows := row_end_le hr
  refine ⟨.bind (.read (by omega)) fun label _ => ?_, fun d' hd' => ?_⟩
  · split
    · next c hc =>
      have hcell := Nat.add_lt_add_left (labelClass?_lt hc) (r * cols)
      exact .update (by omega) fun old => .bind (.read (by omega)) fun _ _ => .pure _
    · exact .pure _
  · obtain ⟨label, -, hd'⟩ := Except.bind_ok_iff.mp hd'
    split at hd'
    · exact update_size hd'
    · rw [Except.pure_ok_iff.mp hd']

theorem rowArgmax_faultless {x : Array α} {start cols : Nat} (hx : start + cols ≤ x.size) :
    Faultless (rowArgmax x start cols) := by
  -- the best column so far is a column of the row, where the row has any
  refine .loop_keeping (P := fun _ best => 0 < cols → best < cols) id fun i best hi hbest => ?_
  have hlt := hbest (by omega)
  refine ⟨.bind (.read (by omega)) fun _ _ => .bind (.read (by omega)) fun _ _ => .pure _, ?_⟩
  intro best' h _
  simp only [Except.bind_ok_iff, Except.pure_ok_iff] at h
  obtain ⟨a, -, b, -, rfl⟩ := h
  split <;> assumption

theorem classificationAccuracy_faultless (o : Operands α) :
    Faultless (classificationAccuracy o) := by
  refine .extent fun cols => .extent fun rows => ?_
  refine .words fun z hz => .words fun x hx => .words fun y hy => ?_
  refine .bind (.loop fun r correct hr => ?_) fun correct _ => .answer (.write hz _)
  refine .bind (rowArgmax_faultless ((row_end_le hr).trans hx)) fun best _ => ?_
  exact .bind (.read (by omega)) fun _ _ => .pure _

/-! ### Convolutions -/

theorem sumOfProducts_faultless {x y : Array α} {terms : List (Option Nat × Nat)} {n m : Nat}
    (h : ∀ t ∈ terms, (∀ p, t.1 = some p → p < n) ∧ t.2 < m) (hx : n ≤ x.size) (hy : m ≤ y.size) :
    Faultless (sumOfProducts x y terms) := .of_ok (sumOfProducts_succeeds h hx hy)

theorem convolution_faultless (o : Operands α) : Faultless (convolution o) := by
  refine .extent fun inX => .extent fun inY => .extent fun kx => .extent fun ky => ?_
  refine .extent fun kz => .extent fun kw => .extent fun pad => .extent fun stride => ?_
  refine .extent fun batch => ?_
  dsimp only
  split
  · next outX outY houtX _ =>
    refine .bind (.divisor (convolvedExtent?_stride_pos houtX)) fun stride _ => ?_
    let c : Convolution := ⟨inX, inY, outX, outY, ⟨kx, ky, kz, kw⟩, pad, stride, batch⟩
    refine .words fun z hz => .words fun x hx => .words fun y hy => ?_
    refine .answer (.updateFirst hz fun j hj _ => ?_)
    exact sumOfProducts_faultless (Convolution.products_lt (c := c) hj) hx hy
  · exact .throw fun _ h => nomatch h

theorem convolutionAdd_faultless (o : Operands α) : Faultless (convolutionAdd o) := by
  refine .extent fun inX => .extent fun inY => .extent fun kx => .extent fun ky => ?_
  refine .extent fun kz => .extent fun kw => .int fun padX => .int fun padY => ?_
  refine .extent fun told => .bind (.divisor (lt_max_of_lt_right one_pos)) fun dilation _ => ?_
  refine .extent fun outX => .extent fun outY => .extent fun batch => ?_
  refine .words fun z hz => .words fun x hx => .words fun y hy => ?_
  refine .answer (.updateFirst hz fun j hj old => .bind ?_ fun _ _ => .pure _)
  obtain ⟨-, -, hchannel, hb⟩ := coordinates_lt hj
  exact sumOfProducts_faultless (dilatedTerms_bounds rfl hchannel hb) hx hy

theorem convolutionWeightGrad_faultless (o : Operands α) : Faultless (convolutionWeightGrad o) := by
  refine .extent fun inX => .extent fun inY => .extent fun outX => .extent fun outY => ?_
  refine .extent fun kx => .extent fun ky => .extent fun kz => .extent fun kw => ?_
  refine .extent fun pad => .extent fun stride => .extent fun batch => ?_
  let c : Convolution := ⟨inX, inY, outX, outY, ⟨kx, ky, kz, kw⟩, pad, stride, batch⟩
  refine .words fun z hz => .words fun x hx => .words fun y hy => ?_
  refine .answer (.updateFirst hz fun j hj old => .bind ?_ fun _ _ => .pure _)
  exact sumOfProducts_faultless (Convolution.kernelProducts_lt (c := c) hj) hx hy

/-! ### Windows and tiles -/

omit [Scalar α] in
theorem Pooling.ofOperands_faultless (o : Operands α) (first : Nat) :
    Faultless (Pooling.ofOperands o first) := by
  refine .extent fun inX => .extent fun inY => .extent fun planes => .extent fun stride => ?_
  refine .extent fun padX => .extent fun padY => .extent fun size => ?_
  split
  · next houtX _ => exact .bind (.divisor (pooledExtent?_stride_pos houtX)) fun _ _ => .pure _
  · exact .throw fun _ h => nomatch h

theorem maxPooling_faultless (o : Operands α) : Faultless (maxPooling o) := by
  refine .bind (Pooling.ofOperands_faultless o 2) fun p _ => ?_
  refine .words fun z hz => .words fun x hx => .answer (.updateFirst hz fun j hj _ => ?_)
  exact .of_ok (Pooling.value_succeeds hj hx)

theorem maxPoolingGrad_faultless (o : Operands α) : Faultless (maxPoolingGrad o) := by
  refine .bind (Pooling.ofOperands_faultless o 3) fun p hp => ?_
  refine .words fun z hz => .words fun x hx => .words fun y hy => ?_
  refine .answer (.updateFirst hz fun j hj old => ?_)
  simp only [Pooling.gathered_eq (Pooling.stride_pos hp) hj hx]
  exact .bind (.of_ok (Pooling.gathered_succeeds (Pooling.stride_pos hp) hj hy)) fun _ _ => .pure _

omit [Scalar α] in
theorem Tiling.ofOperands_faultless (o : Operands α) : Faultless (Tiling.ofOperands o) := by
  refine .extent fun tile => .extent fun tileX => .extent fun tileY => .extent fun imageX => ?_
  exact .extent fun imageY => .extent fun z => .extent fun w => .of_ok ⟨_, Tiling.checked_eq _⟩

theorem splitData_faultless (o : Operands α) : Faultless (splitData o) := by
  refine .bind (Tiling.ofOperands_faultless o) fun t _ => .words fun z hz => .words fun x hx => ?_
  refine .answer (.foldlM_keeping (P := fun (d : Array α) => d.size = z.size) (by simp) ?_)
  rintro d ⟨i, j⟩ hpair hd
  obtain ⟨hi, hl, rfl⟩ := Tiling.mem_pairs.mp hpair
  have hlt := Tiling.source_lt hi hl
  refine ⟨.bind (.read (by omega)) fun v _ => .write (by omega) v, fun d' h => ?_⟩
  obtain ⟨v, -, h⟩ := Except.bind_ok_iff.mp h
  obtain ⟨-, rfl⟩ := write_ok_iff.mp h
  rwa [Array.size_setIfInBounds]

theorem splitDataGrad_faultless (o : Operands α) : Faultless (splitDataGrad o) := by
  refine .bind (Tiling.ofOperands_faultless o) fun t _ => .words fun z hz => .words fun x hx => ?_
  refine .answer (.foldlM_keeping (P := fun (d : Array α) => d.size = z.size) rfl ?_)
  rintro d ⟨i, j⟩ hpair hd
  obtain ⟨hi, hl, rfl⟩ := Tiling.mem_pairs.mp hpair
  have hlt := Tiling.source_lt hi hl
  refine ⟨.update (by omega) fun old => .bind (.read (by omega)) fun _ _ => .pure _, ?_⟩
  exact fun d' h => (update_size h).trans hd

end Kernel

/-- A launch that makes its kernel compute a size which is no number of 64 bits: a log that counts
up to the largest number, or more planes to transpose than there are sizes. That extents alone
multiply to a size is taken for granted. -/
def HostKernel.Overflows [Scalar α] (k : HostKernel) (o : Operands α) : Prop :=
  match k with
  | appendId => ∃ log head, o.args[0]? = some (.words log) ∧ log[0]? = some head ∧
      UInt64.size ≤ (Scalar.wholePart? head).getD 0 + 1
  | transpose => ∃ cols rows, o.extent 2 = .ok cols ∧ o.extent 3 = .ok rows ∧
      UInt64.size ≤ rows * cols * max o.launch.global.z 1
  | _ => False

/-- A buffer may be as short as the kernel admits, so no access relies on a longer one. -/
theorem HostKernel.run_faults [Scalar α] (k : HostKernel) {o : Operands α} {f : Fault}
    (h : k.run o = .error (.fault f)) : f = .overflow ∧ k.Overflows o := by
  cases k with
  | copy => exact absurd h (Kernel.copy_faultless o f)
  | copyAdd => exact absurd h (Kernel.copyAdd_faultless o f)
  | add => exact absurd h (Kernel.combine_faultless _ o f)
  | elementwiseProduct => exact absurd h (Kernel.combine_faultless _ o f)
  | elementwiseProductAdd => exact absurd h (Kernel.combine_faultless _ o f)
  | subtractFromConst => exact absurd h (Kernel.subtractFromConst_faultless o f)
  | subtractFromConstGrad => exact absurd h (Kernel.subtractFromConstGrad_faultless o f)
  | addToMatrix => exact absurd h (Kernel.addToMatrix_faultless o f)
  | addToMatrixGrad => exact absurd h (Kernel.addToMatrixGrad_faultless o f)
  | addToImage => exact absurd h (Kernel.addToImage_faultless o f)
  | addToImageGrad => exact absurd h (Kernel.addToImageGrad_faultless o f)
  | splitData => exact absurd h (Kernel.splitData_faultless o f)
  | splitDataGrad => exact absurd h (Kernel.splitDataGrad_faultless o f)
  | appendId => exact Kernel.appendId_faults h
  | relu => exact absurd h (Kernel.activation_faultless _ o f)
  | reluGrad => exact absurd h (Kernel.activationGrad_faultless _ o f)
  | sigmoid => exact absurd h (Kernel.activation_faultless _ o f)
  | sigmoidGrad => exact absurd h (Kernel.activationGrad_faultless _ o f)
  | tanh => exact absurd h (Kernel.activation_faultless _ o f)
  | tanhGrad => exact absurd h (Kernel.activationGrad_faultless _ o f)
  | matrixProduct => exact absurd h (Kernel.matrixProductWith_faultless _ o f)
  | matrixProductAdd => exact absurd h (Kernel.matrixProductWith_faultless _ o f)
  | transpose => exact Kernel.transpose_faults h
  | softmax => exact absurd h (Kernel.softmax_faultless o f)
  | softmaxGrad => exact absurd h (Kernel.softmaxGrad_faultless o f)
  | meanSquaredError => exact absurd h (Kernel.meanSquaredError_faultless o f)
  | meanSquaredErrorGrad => exact absurd h (Kernel.meanSquaredErrorGrad_faultless o f)
  | crossEntropy => exact absurd h (Kernel.crossEntropy_faultless o f)
  | crossEntropyGrad => exact absurd h (Kernel.crossEntropyGrad_faultless o f)
  | classificationAccuracy => exact absurd h (Kernel.classificationAccuracy_faultless o f)
  | convolution => exact absurd h (Kernel.convolution_faultless o f)
  | convolutionAdd => exact absurd h (Kernel.convolutionAdd_faultless o f)
  | convolutionWeightGrad => exact absurd h (Kernel.convolutionWeightGrad_faultless o f)
  | rotateAndReorder => exact absurd h (Kernel.rotateAndReorder_faultless o f)
  | maxPooling => exact absurd h (Kernel.maxPooling_faultless o f)
  | maxPoolingGrad => exact absurd h (Kernel.maxPoolingGrad_faultless o f)
  | gradientDescent => exact absurd h (Kernel.gradientDescent_faultless o f)
  | adam => exact absurd h (Kernel.adam_faultless o f)

end Backprop
