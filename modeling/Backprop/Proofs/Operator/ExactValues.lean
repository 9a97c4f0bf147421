import Mathlib
import Backprop.Proofs.Kernel.ExactProducts
import Backprop.Proofs.Operator.Demands
import Backprop.Proofs.Operator.Images

/-! Forward kernels of operators in exact arithmetic: where a kernel succeeds, its buffers are long
enough for it, and then it succeeds on all values; what it leaves is the image of its operands. -/

namespace Backprop.Operator

open Kernel

/-- The kernels are told the numbers of the operator as they are. -/
structure Told {α : Type} (op : Operator α) (a b : Shape) : Prop where
  first : 0 < a.elements ∧ a.elements < 2 ^ 31
  second : 0 < b.elements ∧ b.elements < 2 ^ 31
  filter : ∀ pad stride, op = .conv2d pad stride →
    (filtering pad stride a b).Fits ∧ (filtering pad stride a b).Tellable

/-- The buffers of the operands and of the output are long enough for the operator. -/
structure Reaches {α : Type} (op : Operator α) (a b : Shape) (x y z : Nat) : Prop where
  first : (op.reach a b).1 ≤ x
  second : (op.reach a b).2.1 ≤ y
  output : (op.reach a b).2.2 ≤ z

section

variable {α : Type} {op : Operator α} {a b : Shape}

theorem Told.extents_lt (h : op.Told a b) :
    (a.x < 2 ^ 31 ∧ a.y < 2 ^ 31 ∧ a.z < 2 ^ 31 ∧ a.w < 2 ^ 31) ∧ b.x < 2 ^ 31 := by
  have ha := Shape.extents_le h.first.1
  have hb := Shape.extents_le h.second.1
  have hfirst := h.first.2
  have hsecond := h.second.2
  omega

theorem Told.rowElements_lt (h : op.Told a b) : a.rowElements < 2 ^ 31 := by
  have hle : a.rowElements ≤ a.elements :=
    Nat.le_mul_of_pos_right _ (Shape.extents_pos h.first.1).2.2.2
  exact hle.trans_lt h.first.2

theorem Told.plane_lt (h : op.Told a b) : a.x * a.y < 2 ^ 31 := by
  obtain ⟨-, -, hz, -⟩ := Shape.extents_pos h.first.1
  exact (Nat.le_mul_of_pos_right _ hz).trans_lt h.rowElements_lt

theorem Told.product_lt (h : op.Told a b) :
    op.productRows a < 2 ^ 31 ∧ op.contraction a < 2 ^ 31 := by
  refine ⟨(Nat.div_le_self ..).trans_lt h.first.2, ?_⟩
  obtain hrow | hx : op.contraction a = a.rowElements ∨ op.contraction a = a.x := by
    cases op <;> simp [contraction]
  · exact hrow ▸ h.rowElements_lt
  · exact hx ▸ h.extents_lt.1.1

end

variable [Inexact] {op : Operator ℚ} {a b out : Shape} {tile : Nat} {x y z : Array ℚ}

/-- A forward kernel that succeeds in exact arithmetic makes the image of its operands. -/
theorem Told.forward_exact {ws : Writes ℚ} (h : op.Told a b) (hop : op.Algebraic)
    (blank : ∀ i, Backprop.entry z i = 0)
    (hrun : op.forwardKernel.run (op.forwardOperands a b out tile x y z) = .ok ws) :
    ∃ data, ws = [(op.arity, data)] ∧ op.Reaches a b x.size y.size z.size ∧
      Backprop.entry data = op.image a b tile (Backprop.entry x) (Backprop.entry y) := by
  obtain ⟨⟨hax, hay, haz, haw⟩, hbx⟩ := h.extents_lt
  obtain ⟨hrows, hk⟩ := h.product_lt
  cases op with
  | matMul | matMulFlat =>
    obtain ⟨data, rfl, ⟨hx, hy, hz⟩, hdata⟩ :=
      matrixProduct_exact (o := ⟨_, _⟩) hrows hbx hk rfl blank hrun
    exact ⟨data, rfl, ⟨hx, hy, hz⟩, hdata⟩
  | conv2d pad stride =>
    obtain ⟨fits, told⟩ := h.filter pad stride rfl
    obtain ⟨data, rfl, ⟨hx, hy, hz⟩, hdata⟩ :=
      Convolution.convolution_exact (o := ⟨_, _⟩) fits told rfl blank hrun
    exact ⟨data, rfl, ⟨hx, hy, hz⟩, hdata⟩
  | elementwiseProduct =>
    obtain ⟨data, rfl, ⟨hx, hy, hz⟩, hdata⟩ :=
      elementwiseProduct_exact (o := ⟨_, _⟩) rfl h.first.2 blank hrun
    exact ⟨data, rfl, ⟨hx, hy, hz⟩, hdata⟩
  | add timeResult =>
    obtain ⟨data, rfl, ⟨hx, hy, hz⟩, hdata⟩ := add_exact (o := ⟨_, _⟩) rfl h.first.2 blank hrun
    exact ⟨data, rfl, ⟨hx, hy, hz⟩, hdata⟩
  | copy timeResult =>
    obtain ⟨data, rfl, ⟨hx, hz⟩, hdata⟩ := copy_exact (o := ⟨_, _⟩) rfl h.first.2 blank hrun
    exact ⟨data, rfl, ⟨hx, Nat.zero_le _, hz⟩, hdata⟩
  | subtractFromConst constant =>
    obtain ⟨data, rfl, ⟨hx, hz⟩, hdata⟩ :=
      subtractFromConst_exact (o := ⟨_, _⟩) rfl h.first.2 blank hrun
    exact ⟨data, rfl, ⟨hx, Nat.zero_le _, hz⟩, hdata⟩
  | addBias =>
    obtain ⟨data, rfl, ⟨hx, hy, hz⟩, hdata⟩ :=
      addToMatrix_exact (o := ⟨_, _⟩) h.rowElements_lt haw rfl blank hrun
    exact ⟨data, rfl, ⟨hx, hy, hz⟩, hdata⟩
  | addBiasConv =>
    obtain ⟨data, rfl, ⟨hx, hy, hz⟩, hdata⟩ :=
      addToImage_exact (o := ⟨_, _⟩) h.plane_lt haz haw rfl blank hrun
    exact ⟨data, rfl, ⟨hx, hy, hz⟩, hdata⟩
  | split tileX tileY =>
    obtain ⟨data, rfl, ⟨hx, hz⟩, hdata⟩ := splitData_exact (o := ⟨_, _⟩)
      (Tiling.ofOperands_told rfl) rfl hrun
    exact ⟨data, rfl, ⟨hx, Nat.zero_le _, hz⟩, hdata⟩
  | leastSquares =>
    obtain ⟨data, rfl, ⟨hx, hy, hz⟩, hdata⟩ :=
      meanSquaredError_exact (o := ⟨_, _⟩) h.rowElements_lt haw rfl blank hrun
    exact ⟨data, rfl, ⟨hx, hy, hz⟩, hdata⟩
  | _ => exact hop.elim

/-- Where the buffers are long enough, the forward kernel succeeds on all values. -/
theorem Told.forward_succeeds (h : op.Told a b) (hop : op.Algebraic)
    (reaches : op.Reaches a b x.size y.size z.size) :
    ∃ ws, op.forwardKernel.run (op.forwardOperands a b out tile x y z) = .ok ws := by
  obtain ⟨hx, hy, hz⟩ := reaches
  refine Willing.succeeds ?_
  cases op with
  | matMul | matMulFlat => exact matrixProductWith_willing rfl hx hy hz
  | conv2d pad stride =>
    obtain ⟨fits, tellable⟩ := h.filter pad stride rfl
    have htold : ∀ n ∈ [a.x, a.y, b.x, b.y, (plane a b pad stride).2.2, stride], told n = n := by
      simp only [Convolution.Tellable, filtering, List.mem_cons, List.not_mem_nil, or_false,
        forall_eq_or_imp, forall_eq] at tellable ⊢
      refine ⟨?_, ?_, ?_, ?_, ?_, ?_⟩ <;> exact told_eq (by omega)
    simp only [List.mem_cons, List.not_mem_nil, or_false, forall_eq_or_imp, forall_eq] at htold
    obtain ⟨hax, hay, hbx, hby, hpad, hstride⟩ := htold
    refine convolution_willing rfl ?_ ?_ hx hy hz
    · rw [hax, hbx, hpad, hstride]
      exact fits.width
    · rw [hay, hby, hpad, hstride]
      exact fits.height
  | elementwiseProduct | add => exact combine_willing rfl hx hy hz _
  | copy => exact copy_willing rfl hx hz
  | subtractFromConst => exact subtractFromConst_willing rfl hx hz
  | addBias => exact addToMatrix_willing rfl hx hy hz
  | addBiasConv => exact addToImage_willing rfl hx hy hz
  | split tileX tileY =>
    change Willing (splitData _)
    rw [splitData, Tiling.ofOperands_told rfl]
    refine .words rfl rfl hz <| .words rfl rfl hx <| .answer (.foldlM fun out pair => ?_)
    exact .bind (.read _ _) fun _ => .write _ _ _
  | leastSquares => exact meanSquaredError_willing rfl hx hy hz
  | _ => exact hop.elim

end Backprop.Operator
