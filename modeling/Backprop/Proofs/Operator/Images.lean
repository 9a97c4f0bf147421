import Mathlib
import Backprop.Proofs.Kernel.Images
import Backprop.Proofs.Operator.Emission
import Backprop.Proofs.Operator.Entries

/-! Operators whose outputs are polynomials of their operands. A derivation of the output, weighted
by the gradient there, is one of the operands, weighted by what the backward pass gives to them. -/

namespace Backprop.Operator

open Finset Kernel

/-- Every entry of the output is a polynomial of entries of the operands, at the same timestep. -/
def Algebraic {α : Type} : Operator α → Prop
  | matMul | matMulFlat | conv2d .. | elementwiseProduct | subtractFromConst _ | addBias
  | addBiasConv | split .. | leastSquares => True
  | add timeResult | copy timeResult => timeResult = 0
  | activation _ | softmax | maxPool .. | transpose | crossEntropy | accuracy | copyInit => False

def filtering (pad : Padding) (stride : Nat) (a b : Shape) : Convolution :=
  ⟨a.x, a.y, (plane a b pad stride).1, (plane a b pad stride).2.1, ⟨b.x, b.y, b.z, b.w⟩,
    (plane a b pad stride).2.2, stride, a.w⟩

def toldTiling (tileX tileY : Nat) (a : Shape) (tile : Nat) : Tiling :=
  ⟨told tile, told tileX, told tileY, told a.x, told a.y, told a.z * told a.w⟩

/-- How many entries of the operands and of the output an operator reaches. -/
def reach {α : Type} (op : Operator α) (a b : Shape) : Nat × Nat × Nat :=
  match op with
  | matMul | matMulFlat =>
    (op.productRows a * op.contraction a, op.contraction a * b.x, op.productRows a * b.x)
  | conv2d pad stride =>
    ((filtering pad stride a b).inputs, (filtering pad stride a b).k.size,
      (filtering pad stride a b).outputs)
  | elementwiseProduct | add _ => (a.elements, a.elements, a.elements)
  | addBias => (a.elements, a.rowElements, a.elements)
  | addBiasConv => (a.elements, a.z, a.elements)
  | leastSquares => (a.elements, a.elements, 1)
  | split tileX tileY =>
    ((toldTiling tileX tileY a 0).imageCells, 0, (toldTiling tileX tileY a 0).tileCells)
  | _ => (a.elements, 0, a.elements)

/-- The output of an operator, where its operands have entries in an algebra. -/
def image {R : Type} [CommRing R] [Algebra ℚ R] (op : Operator ℚ) (a b : Shape) (tile : Nat)
    (x y : Nat → R) : Nat → R :=
  match op with
  | matMul | matMulFlat => productImage (op.productRows a) (op.contraction a) b.x x y
  | conv2d pad stride => convolutionImage (filtering pad stride a b) x y
  | elementwiseProduct => cut a.elements fun i => x i * y i
  | add _ => cut a.elements fun i => x i + y i
  | copy _ => cut a.elements x
  | subtractFromConst constant => cut a.elements fun i => algebraMap ℚ R constant - x i
  | addBias => columnBiasImage a.rowElements a.w x y
  | addBiasConv => channelBiasImage (a.x * a.y) a.z a.w x y
  | split tileX tileY => tileImage (toldTiling tileX tileY a tile) x
  | leastSquares => squaredErrorImage a.elements a.w x y
  | _ => 0

/-- What the gradient of the output adds to that of the first operand. -/
def left (op : Operator ℚ) (a b : Shape) (tile : Nat) (x y g : Nat → ℚ) : Nat → ℚ :=
  match op with
  | matMul | matMulFlat => productLeft (op.productRows a) (op.contraction a) b.x y g
  | conv2d pad stride => convolutionLeft (filtering pad stride a b) y g
  | elementwiseProduct => cut a.elements fun i => y i * g i
  | subtractFromConst _ => cut a.elements fun i => -g i
  | add _ | copy _ | addBias | addBiasConv => cut a.elements g
  | split tileX tileY => tileLeft (toldTiling tileX tileY a tile) g
  | leastSquares => cut a.elements fun i => (x i - y i) / (max a.w 1 : Nat) * g 0
  | _ => 0

/-- What the gradient of the output adds to that of the second operand. -/
def right (op : Operator ℚ) (a b : Shape) (x y g : Nat → ℚ) : Nat → ℚ :=
  match op with
  | matMul | matMulFlat => productRight (op.productRows a) (op.contraction a) b.x x g
  | conv2d pad stride => convolutionRight (filtering pad stride a b) x g
  | elementwiseProduct => cut a.elements fun i => x i * g i
  | add _ => cut a.elements g
  | addBias => columnBiasRight a.rowElements a.w g
  | addBiasConv => channelBiasRight (a.x * a.y) a.z a.w g
  | leastSquares => cut a.elements fun i => -((x i - y i) / (max a.w 1 : Nat) * g 0)
  | _ => 0

section

variable {R S : Type} [CommRing R] [Algebra ℚ R] [CommRing S] [Algebra ℚ S]
  {op : Operator ℚ} {a b : Shape} {tile : Nat}

omit [Algebra ℚ R] [Algebra ℚ S] in
theorem map_cut {F : Type} [FunLike F R S] [ZeroHomClass F R S] (f : F) (n i : Nat) (x : Nat → R) :
    f (cut n x i) = cut n (fun i => f (x i)) i := by
  unfold cut
  split
  · rfl
  · exact map_zero f

/-- An output is the same expression of the operands in every algebra. -/
theorem map_image (φ : R →ₐ[ℚ] S) (x y : Nat → R) (i : Nat) :
    φ (op.image a b tile x y i) = op.image a b tile (fun p => φ (x p)) (fun p => φ (y p)) i := by
  cases op with
  | matMul | matMulFlat =>
    simp only [image, productImage, map_cut, map_sum, map_mul]
  | conv2d pad stride =>
    simp only [image, convolutionImage, map_cut, map_sum, apply_ite φ, map_mul, map_zero]
  | elementwiseProduct => simp only [image, map_cut, map_mul]
  | add _ => simp only [image, map_cut, map_add]
  | copy _ => simp only [image, map_cut]
  | subtractFromConst constant => simp only [image, map_cut, map_sub, AlgHom.commutes]
  | addBias => simp only [image, columnBiasImage, map_cut, map_add]
  | addBiasConv => simp only [image, channelBiasImage, map_cut, map_add]
  | split tileX tileY => simp only [image, tileImage, map_cut, apply_ite φ, map_zero]
  | leastSquares =>
    simp only [image, squaredErrorImage, map_cut, map_smul, map_sum, map_mul, map_sub]
  | _ => exact map_zero φ

end

section

variable {R : Type} [CommRing R] [Algebra ℚ R] {φ : R →ₐ[ℚ] ℚ} {D : R →ₗ[ℚ] ℚ}
  (leibniz : ∀ p q, D (p * q) = D p * φ q + φ p * D q)

include leibniz

theorem derivation_constant (c : ℚ) : D (algebraMap ℚ R c) = 0 := by
  have hone := leibniz 1 1
  rw [mul_one, map_one φ, mul_one, one_mul, left_eq_add] at hone
  rw [Algebra.algebraMap_eq_smul_one, map_smul, hone, smul_zero]

theorem derivation_product (m k n : Nat) (x y : Nat → R) (i : Nat) :
    D (productImage m k n x y i) =
      productImage m k n (fun p => D (x p)) (fun q => φ (y q)) i +
        productImage m k n (fun p => φ (x p)) (fun q => D (y q)) i := by
  simp only [productImage, map_cut, map_sum, leibniz, sum_add_distrib]
  unfold cut
  split
  · rfl
  · rw [add_zero]

theorem derivation_convolution (c : Convolution) (x y : Nat → R) (i : Nat) :
    D (convolutionImage c x y i) =
      convolutionImage c (fun p => D (x p)) (fun q => φ (y q)) i +
        convolutionImage c (fun p => φ (x p)) (fun q => D (y q)) i := by
  simp only [convolutionImage, map_cut, map_sum]
  unfold cut
  split
  · rw [← sum_add_distrib]
    refine sum_congr rfl fun p _ => ?_
    rw [← sum_add_distrib]
    refine sum_congr rfl fun q _ => ?_
    split
    · exact leibniz _ _
    · rw [map_zero, add_zero]
  · rw [add_zero]

variable {op : Operator ℚ} {a b : Shape} {X Y Z : Nat} {x y : Nat → R} {g : Nat → ℚ}

/-- The backward pass of an operator is the transpose of the derivative of its forward pass. -/
theorem sum_derivation (tile : Nat) (hx : (op.reach a b).1 ≤ X) (hy : (op.reach a b).2.1 ≤ Y)
    (hz : (op.reach a b).2.2 ≤ Z) :
    ∑ i ∈ range Z, D (op.image a b tile x y i) * g i =
      ∑ p ∈ range X, op.left a b tile (fun p => φ (x p)) (fun q => φ (y q)) g p * D (x p) +
        ∑ q ∈ range Y, op.right a b (fun p => φ (x p)) (fun q => φ (y q)) g q * D (y q) := by
  cases op with
  | matMul | matMulFlat =>
    simp only [image, left, right, derivation_product leibniz, add_mul, sum_add_distrib]
    rw [product_transpose_left hx hz, product_transpose_right hy hz]
  | conv2d pad stride =>
    simp only [image, left, right, derivation_convolution leibniz, add_mul, sum_add_distrib]
    rw [convolution_transpose_left hx hz, convolution_transpose_right hy hz]
  | elementwiseProduct =>
    simp only [reach] at hx hy hz
    simp only [image, left, right, map_cut, leibniz]
    rw [sum_cut hx, sum_cut hy, sum_cut hz, ← sum_add_distrib]
    exact sum_congr rfl fun i _ => by ring
  | add _ =>
    simp only [reach] at hx hy hz
    simp only [image, left, right, map_cut, map_add]
    rw [sum_cut hx, sum_cut hy, sum_cut hz, ← sum_add_distrib]
    exact sum_congr rfl fun i _ => by ring
  | copy _ =>
    simp only [image, left, right, map_cut, Pi.zero_apply, zero_mul, sum_const_zero, add_zero]
    exact cut_transpose hx hz
  | subtractFromConst constant =>
    simp only [reach] at hx hy hz
    simp only [image, left, right, map_cut, map_sub, derivation_constant leibniz, zero_sub,
      Pi.zero_apply, zero_mul, sum_const_zero, add_zero]
    rw [sum_cut hx, sum_cut hz]
    exact sum_congr rfl fun i _ => by ring
  | addBias =>
    have hderivation : ∀ i, D (columnBiasImage a.rowElements a.w x y i) =
        columnBiasImage a.rowElements a.w (fun p => D (x p)) (fun q => D (y q)) i := fun i => by
      simp only [columnBiasImage, map_cut, map_add]
    simp only [image, hderivation]
    exact columnBias_transpose hx hy hz
  | addBiasConv =>
    have hderivation : ∀ i, D (channelBiasImage (a.x * a.y) a.z a.w x y i) =
        channelBiasImage (a.x * a.y) a.z a.w (fun p => D (x p)) (fun q => D (y q)) i := fun i => by
      simp only [channelBiasImage, map_cut, map_add]
    simp only [image, hderivation]
    exact channelBias_transpose hx hy hz
  | split tileX tileY =>
    have hderivation : ∀ i, D (tileImage (toldTiling tileX tileY a tile) x i) =
        tileImage (toldTiling tileX tileY a tile) (fun p => D (x p)) i := fun i => by
      simp only [tileImage, map_cut, apply_ite D, map_zero]
    simp only [image, hderivation, right, Pi.zero_apply, zero_mul, sum_const_zero, add_zero]
    exact tile_transpose hx hz
  | leastSquares =>
    simp only [reach] at hx hy hz
    simp only [image, left, right, squaredErrorImage, map_cut, map_smul, map_sum, leibniz, map_sub]
    rw [sum_cut hx, sum_cut hy, sum_cut hz, ← sum_add_distrib, sum_range_one, smul_eq_mul, mul_sum,
      sum_mul]
    have hrows : ((max a.w 1 : Nat) : ℚ) ≠ 0 := by positivity
    refine sum_congr rfl fun i _ => ?_
    field_simp
    ring
  | _ =>
    simp only [image, left, right, Pi.zero_apply, map_zero, zero_mul, sum_const_zero, add_zero]

end

end Backprop.Operator
