import Mathlib
import Backprop.Proofs.Operator.Rows

/-! What the forward kernels of operators put into the entries of an output. Given operands of the
right shapes they succeed, and no entry is left out that they can be told of. -/

namespace Backprop

variable {α : Type}

/-- The array has `count` entries, and the first `shown` of them are what `f` answers. -/
def Computed (shown count : Nat) (f : Nat → Except Error α) (a : Array α) : Prop :=
  a.size = count ∧ ∀ i < shown, ∃ x, f i = .ok x ∧ a[i]? = some x

theorem Computed.read {shown count i : Nat} {f : Nat → Except Error α} {a : Array α}
    (h : Computed shown count f a) (hi : i < shown) : read a i = f i := by
  obtain ⟨x, hf, ha⟩ := h.2 i hi
  rw [hf, read_ok_iff]
  exact ha

theorem Computed.congr {shown count : Nat} {f g : Nat → Except Error α} {a : Array α}
    (h : Computed shown count f a) (hfg : ∀ i < shown, f i = g i) : Computed shown count g a :=
  ⟨h.1, fun i hi => hfg i hi ▸ h.2 i hi⟩

theorem told_mul_le (a b : Nat) : told (a * b) ≤ told a * told b := by
  unfold told
  obtain rfl | ha := Nat.eq_zero_or_pos a
  · simp
  obtain rfl | hb := Nat.eq_zero_or_pos b
  · simp
  obtain ha' | ha' := Nat.le_total a 2147483647
  · obtain hb' | hb' := Nat.le_total b 2147483647
    · rw [min_eq_left ha', min_eq_left hb']
      exact min_le_left _ _
    · rw [min_eq_right hb']
      exact (min_le_right _ _).trans (Nat.le_mul_of_pos_left _ (by omega))
  · rw [min_eq_right ha']
    exact (min_le_right _ _).trans (Nat.le_mul_of_pos_right _ (by omega))

theorem told_mul_told_le (a b : Nat) : told a * told b ≤ a * b :=
  Nat.mul_le_mul (told_le a) (told_le b)

theorem Operands.extent_told {o : Operands α} {args : List (Operand α)} {i n : Nat}
    (ho : o.args = args) (h : args[i]? = some (.scalar (.int n))) : o.extent i = .ok (told n) :=
  extent_int (ho ▸ h)

theorem Kernel.dotProduct_succeeds [Scalar α] {x y : Array α} {m n k i j : Nat}
    (hx : m * k ≤ x.size) (hy : k * n ≤ y.size) (hi : i < m) (hj : j < n) :
    ∃ v, dotProduct x y n k i j = .ok v := by
  refine loop_total fun p sum hp => ?_
  have hleft : i * k + p < x.size := (row_lt hi hp).trans_le hx
  have hright : p * n + j < y.size := (row_lt hp hj).trans_le hy
  exact ⟨_, by rw [read_of_lt hleft, read_of_lt hright]; rfl⟩

variable [Scalar α]

/-- The activation of a number. -/
def Activation.value : Activation → α → α
  | relu => fun x => Scalar.larger x 0
  | sigmoid => fun x => 1 / (1 + Scalar.exp (-x))
  | tanh => Scalar.tanh

namespace Operator

open Operands Kernel

/-- On operands and an output of the given shapes the forward kernel succeeds, and replaces the
entries of the output, as many as it can be told of, each by `f` of the operands, of its index and
of what it was. -/
def Gives (op : Operator α) (a b out : Shape) (f : Array α → Array α → Nat → α → Except Error α) :
    Prop :=
  ∀ (tile : Nat) (x y z : Array α), x.size = a.elements → y.size = b.elements →
    z.size = out.elements → ∃ n, told out.elements ≤ n ∧
      (∀ j < n, ∀ old, ∃ new, f x y j old = .ok new) ∧
      Replaces op.forwardKernel.run (op.forwardOperands a b out tile x y z) op.arity n z (f x y)

section

variable {op : Operator α} {a b out : Shape} {f : Array α → Array α → Nat → α → Except Error α}
  {tile : Nat} {x y z : Array α}

theorem Gives.succeeds (h : op.Gives a b out f) (hx : x.size = a.elements)
    (hy : y.size = b.elements) (hz : z.size = out.elements) :
    ∃ ws, op.forwardKernel.run (op.forwardOperands a b out tile x y z) = .ok ws := by
  obtain ⟨n, -, htotal, hreplaces⟩ := h tile x y z hx hy hz
  exact hreplaces.total htotal

theorem Gives.computed (h : op.Gives a b out f) (hx : x.size = a.elements)
    (hy : y.size = b.elements) (hz : z.size = out.elements) {data : Array α}
    (hrun : op.forwardKernel.run (op.forwardOperands a b out tile x y z) =
      .ok [(op.arity, data)]) {g : Nat → Except Error α}
    (fresh : ∀ j old, z[j]? = some old → f x y j old = g j) :
    Computed (told out.elements) out.elements g data := by
  obtain ⟨n, hn, -, hreplaces⟩ := h tile x y z hx hy hz
  obtain ⟨_, heq, hsize, hall⟩ := hreplaces.replaced _ hrun
  cases heq
  refine ⟨hsize.trans hz, fun j hj => ?_⟩
  obtain ⟨old, new, hold, hnew, hdata⟩ := hall j (hj.trans_le hn)
  exact ⟨new, (fresh j old hold).symm.trans hnew, hdata⟩

/-! ### Operators of one operand -/

theorem copy_gives (hop : op = .copyInit ∨ ∃ k, op = .copy k) (hout : out.elements = a.elements) :
    op.Gives a b out fun x _ j _ => read x j := by
  intro tile x y z hx hy hz
  have hle := told_le a.elements
  have ho : (op.forwardOperands a b out tile x y z).args =
      [.words x, .words z, .scalar (.int a.elements)] := by
    obtain rfl | ⟨k, rfl⟩ := hop <;> rfl
  have hkernel : op.forwardKernel.run = (Kernel.copy : Kernel α) ∧ op.arity = 1 := by
    obtain rfl | ⟨k, rfl⟩ := hop <;> exact ⟨rfl, rfl⟩
  refine ⟨told a.elements, by rw [hout], fun j hj old => ⟨_, read_of_lt (by omega)⟩, ?_⟩
  rw [hkernel.1, hkernel.2]
  exact copy_replaces (extent_told ho rfl) (words_at ho rfl (by omega))
    (words_at ho rfl (by omega))

theorem activation_gives (kind : Activation) (hout : out.elements = a.elements) :
    (activation kind : Operator α).Gives a b out fun x _ j _ => do
      return kind.value (← read x j) := by
  intro tile x y z hx hy hz
  have hle := told_le a.elements
  have ho : ((activation kind : Operator α).forwardOperands a b out tile x y z).args =
      [.words x, .words z, .scalar (.int a.elements)] := rfl
  have hkernel : (activation kind : Operator α).forwardKernel.run =
      Kernel.activation (kind.value : α → α) := by
    cases kind <;> rfl
  refine ⟨told a.elements, by rw [hout], fun j hj old => ?_, ?_⟩
  · have hlt : j < x.size := by omega
    simp only [read_of_lt hlt, Except.ok_bind]
    exact ⟨_, rfl⟩
  · rw [hkernel]
    exact activation_replaces (extent_told ho rfl) (words_at ho rfl (by omega))
      (words_at ho rfl (by omega))

theorem subtractFromConst_gives (c : α) (hout : out.elements = a.elements) :
    (subtractFromConst c).Gives a b out fun x _ j _ => do return c - (← read x j) := by
  intro tile x y z hx hy hz
  have hle := told_le a.elements
  have ho : ((subtractFromConst c).forwardOperands a b out tile x y z).args =
      [.words x, .words z, .scalar (.float c), .scalar (.int a.elements)] := rfl
  refine ⟨told a.elements, by rw [hout], fun j hj old => ?_, ?_⟩
  · have hlt : j < x.size := by omega
    simp only [read_of_lt hlt, Except.ok_bind]
    exact ⟨_, rfl⟩
  · exact subtractFromConst_replaces (float_at ho rfl) (extent_told ho rfl)
      (words_at ho rfl (by omega)) (words_at ho rfl (by omega))

/-! ### Operators of two operands -/

theorem combine_gives {g : α → α → α} (hkernel : op.forwardKernel.run = combine fun _ => g)
    (harity : op.arity = 2) (hnumbers : ∀ tile, op.numbers a b tile = [.int a.elements])
    (hb : b.elements = a.elements) (hout : out.elements = a.elements) :
    op.Gives a b out fun x y j _ => do return g (← read x j) (← read y j) := by
  intro tile x y z hx hy hz
  have hle := told_le a.elements
  have ho : (op.forwardOperands a b out tile x y z).args =
      [.words x, .words y, .words z, .scalar (.int a.elements)] := by
    simp only [forwardOperands, harity, hnumbers]
    rfl
  refine ⟨told a.elements, by rw [hout], fun j hj old => ?_, ?_⟩
  · have hlt : j < x.size := by omega
    have hlt' : j < y.size := by omega
    simp only [read_of_lt hlt, read_of_lt hlt', Except.ok_bind]
    exact ⟨_, rfl⟩
  · rw [hkernel, harity]
    exact combine_replaces (extent_told ho rfl) (words_at ho rfl (by omega))
      (words_at ho rfl (by omega)) (words_at ho rfl (by omega))

theorem addBias_gives (hb : b.elements = a.rowElements) (hout : out.elements = a.elements) :
    (addBias : Operator α).Gives a b out fun x y j _ => do
      return (← read x j) + (← read y (← remainder j (told a.rowElements))) := by
  intro tile x y z hx hy hz
  have hle : told a.rowElements * told a.w ≤ a.elements := told_mul_told_le _ _
  have hrow := told_le a.rowElements
  have ho : ((addBias : Operator α).forwardOperands a b out tile x y z).args =
      [.words x, .words y, .words z, .scalar (.int a.rowElements), .scalar (.int a.w)] := rfl
  refine ⟨told a.rowElements * told a.w, ?_, fun j hj old => ?_, ?_⟩
  · rw [hout]
    exact told_mul_le _ _
  · have hpos : 0 < told a.rowElements := Nat.pos_of_ne_zero fun h => by simp [h] at hj
    have hmod := Nat.mod_lt j hpos
    have hlt : j < x.size := by omega
    have hlt' : j % told a.rowElements < y.size := by omega
    simp only [read_of_lt hlt, remainder, if_neg hpos.ne', read_of_lt hlt', Except.ok_bind]
    exact ⟨_, rfl⟩
  · exact addToMatrix_replaces (extent_told ho rfl) (extent_told ho rfl)
      (words_at ho rfl (by omega)) (words_at ho rfl (by omega)) (words_at ho rfl (by omega))

theorem product_gives (hop : op = .matMul ∨ op = .matMulFlat)
    (ha : a.elements = op.productRows a * op.contraction a)
    (hb : b.elements = op.contraction a * b.x) (hout : out.elements = op.productRows a * b.x) :
    op.Gives a b out fun x y j old => do
      return 1 * (← dotProduct x y (told b.x) (told (op.contraction a)) (j / told b.x)
        (j % told b.x)) + 0 * old := by
  intro tile x y z hx hy hz
  have ho : (op.forwardOperands a b out tile x y z).args = [.words x, .words y, .words z,
      .scalar (.int (op.productRows a)), .scalar (.int b.x), .scalar (.int (op.contraction a))] := by
    obtain rfl | rfl := hop <;> rfl
  have hkernel : op.forwardKernel.run = matrixProductWith (0 : α) ∧ op.arity = 2 := by
    obtain rfl | rfl := hop <;> exact ⟨rfl, rfl⟩
  have hleft : told (op.productRows a) * told (op.contraction a) ≤ x.size :=
    (told_mul_told_le _ _).trans (ha.symm.trans hx.symm).le
  have hright : told (op.contraction a) * told b.x ≤ y.size :=
    (told_mul_told_le _ _).trans (hb.symm.trans hy.symm).le
  refine ⟨told (op.productRows a) * told b.x, ?_, fun j hj old => ?_, ?_⟩
  · rw [hout]
    exact told_mul_le _ _
  · have hpos : 0 < told b.x := Nat.pos_of_ne_zero fun h => by simp [h] at hj
    obtain ⟨v, hv⟩ := dotProduct_succeeds hleft hright
      ((Nat.div_lt_iff_lt_mul hpos).mpr hj) (Nat.mod_lt j hpos)
    simp only [hv, Except.ok_bind]
    exact ⟨_, rfl⟩
  · rw [hkernel.1, hkernel.2]
    exact matrixProductWith_replaces (extent_told ho rfl) (extent_told ho rfl)
      (extent_told ho rfl)
      (words_at ho rfl ((told_mul_told_le _ _).trans (hout.symm.trans hz.symm).le))
      (words_at ho rfl hleft) (words_at ho rfl hright)

end

/-! ### Operators that work entry by entry -/

/-- Operators of matrices and of entries. -/
def entrywise : Operator α → Bool
  | matMul | matMulFlat | activation _ | elementwiseProduct | add _ | copy _ | copyInit
  | subtractFromConst _ | addBias => true
  | _ => false

/-- Entry `j` of the output, from operands of the given shapes and what the entry was. -/
def entry (op : Operator α) (a b : Shape) (x y : Array α) (j : Nat) (old : α) : Except Error α :=
  match op with
  | matMul | matMulFlat => do
    return 1 * (← dotProduct x y (told b.x) (told (op.contraction a)) (j / told b.x)
      (j % told b.x)) + 0 * old
  | activation kind => do return kind.value (← read x j)
  | elementwiseProduct => do return (← read x j) * (← read y j)
  | add _ => do return (← read x j) + (← read y j)
  | copy _ | copyInit => read x j
  | subtractFromConst c => do return c - (← read x j)
  | addBias => do return (← read x j) + (← read y (← remainder j (told a.rowElements)))
  | _ => return old

variable {op : Operator α} {a b out : Shape}

omit [Scalar α] in
theorem contraction_fits (hop : op = .matMul ∨ op = .matMulFlat) (hshape : op.shapeOf a b = .ok out)
    (ha : 0 < a.elements) : 0 < op.contraction a ∧ op.contraction a ∣ a.elements ∧
      b.elements = op.contraction a * b.x ∧
      out.elements * op.contraction a = a.elements * b.x := by
  have hb : ∀ k, b.y = k → b.z * b.w = 1 → b.elements = k * b.x := by
    rintro _ rfl hone
    rw [Shape.elements, Nat.mul_assoc, hone, Nat.mul_one, Nat.mul_comm]
  obtain rfl | rfl := hop
  · simp only [shapeOf] at hshape
    split at hshape
    · next hfit =>
      cases hshape
      refine ⟨(Shape.extents_pos ha).1, ⟨a.y * a.z * a.w, ?_⟩, hb _ hfit.1 hfit.2, ?_⟩
      · simp only [Shape.elements, contraction]
        ring
      · simp only [Shape.elements, contraction]
        ring
    · cases hshape
  · simp only [shapeOf] at hshape
    split at hshape
    · next hfit =>
      cases hshape
      refine ⟨Nat.pos_of_mul_pos_right ha, ⟨a.w, rfl⟩, hb _ hfit.1 hfit.2, ?_⟩
      simp only [Shape.elements, contraction, Shape.rowElements]
      ring
    · cases hshape

/-- Shapes that fit for one row give the output of a batch entry by entry. -/
theorem OnRows.gives {o : Shape} {rows : Nat} (h : op.OnRows a b out) (hop : op.entrywise = true)
    (ho : o.elements = out.elements * rows) :
    op.Gives (a.withRows rows) (op.second b rows) o
      (op.entry (a.withRows rows) (op.second b rows)) := by
  have hrows := h.elements_withRows rows
  have hproduct : op = .matMul ∨ op = .matMulFlat →
      (a.withRows rows).elements = op.productRows (a.withRows rows) * op.contraction a ∧
        b.elements = op.contraction a * b.x ∧
        o.elements = op.productRows (a.withRows rows) * b.x := by
    intro hop
    obtain ⟨hpos, hdvd, hb, hout⟩ := contraction_fits hop h.shape h.pos.1
    have hsame : op.contraction (a.withRows rows) = op.contraction a := by
      obtain rfl | rfl := hop <;> rfl
    have hfirst : (a.withRows rows).elements =
        op.productRows (a.withRows rows) * op.contraction a := by
      rw [productRows, hsame, Nat.max_eq_left hpos, hrows,
        Nat.div_mul_cancel (hdvd.mul_right rows)]
    refine ⟨hfirst, hb, Nat.eq_of_mul_eq_mul_right hpos ?_⟩
    rw [Nat.mul_right_comm, ← hfirst, hrows, ho, Nat.mul_right_comm, hout, Nat.mul_right_comm]
  have hsame : op.requireEqualElements a b = .ok ⟨⟩ → op.takesParameter = false →
      (op.second b rows).elements = (a.withRows rows).elements := by
    intro hequal htakes
    unfold requireEqualElements at hequal
    split at hequal
    · next he => rw [h.elements_second htakes, hrows, he]
    · cases hequal
  have hshape := h.shape
  cases op with
  | matMul =>
    obtain ⟨hfirst, hb, hout⟩ := hproduct (.inl rfl)
    exact product_gives (.inl rfl) hfirst hb hout
  | matMulFlat =>
    obtain ⟨hfirst, hb, hout⟩ := hproduct (.inr rfl)
    exact product_gives (.inr rfl) hfirst hb hout
  | activation kind =>
    cases hshape
    exact activation_gives kind (ho.trans hrows.symm)
  | elementwiseProduct =>
    simp only [shapeOf, Except.bind_ok_iff, Except.pure_ok_iff] at hshape
    obtain ⟨_, hequal, rfl⟩ := hshape
    exact combine_gives rfl rfl (fun _ => rfl) (hsame hequal rfl) (ho.trans hrows.symm)
  | add k =>
    simp only [shapeOf, Except.bind_ok_iff, Except.pure_ok_iff] at hshape
    obtain ⟨_, hequal, rfl⟩ := hshape
    exact combine_gives rfl rfl (fun _ => rfl) (hsame hequal rfl) (ho.trans hrows.symm)
  | copy k =>
    cases hshape
    exact copy_gives (.inr ⟨k, rfl⟩) (ho.trans hrows.symm)
  | copyInit =>
    cases hshape
    exact copy_gives (.inl rfl) (ho.trans hrows.symm)
  | subtractFromConst c =>
    cases hshape
    exact subtractFromConst_gives c (ho.trans hrows.symm)
  | addBias =>
    simp only [shapeOf] at hshape
    split at hshape
    · next hbias =>
      cases hshape
      exact addBias_gives hbias (ho.trans hrows.symm)
    · cases hshape
  | _ => cases hop

end Operator

end Backprop
