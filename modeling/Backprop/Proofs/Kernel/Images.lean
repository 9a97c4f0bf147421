import Mathlib
import Backprop.Proofs.Kernel.ConvolutionProducts
import Backprop.Proofs.Kernel.Tiles

/-! What forward kernels make of their operands when entries are taken from any commutative algebra.
Over dual numbers the second components are derivatives; a weighted sum of them is one over the
derivatives of the operands, and the weights there are what the backward kernels compute. -/

namespace Backprop.Kernel

open Finset

/-- Entries of an output of `n` entries. -/
def cut {R : Type} [Zero R] (n : Nat) (f : Nat → R) (i : Nat) : R := if i < n then f i else 0

section

variable {R : Type} [CommRing R]

theorem cut_of_lt {n i : Nat} {f : Nat → R} (hi : i < n) : cut n f i = f i := if_pos hi

theorem cut_of_le {n i : Nat} {f : Nat → R} (hi : n ≤ i) : cut n f i = 0 := if_neg hi.not_gt

theorem sum_cut {n m : Nat} (h : n ≤ m) (f g : Nat → R) :
    ∑ i ∈ range m, cut n f i * g i = ∑ i ∈ range n, f i * g i := by
  rw [← sum_subset (range_subset_range.mpr h)]
  · exact sum_congr rfl fun i hi => by rw [cut_of_lt (mem_range.mp hi)]
  · intro i _ hi
    rw [cut_of_le (not_lt.mp (mem_range.not.mp hi)), zero_mul]

theorem sum_rows (m n : Nat) (f : Nat → Nat → Nat → R) :
    ∑ p ∈ range (m * n), f (p / n) (p % n) p =
      ∑ i ∈ range m, ∑ j ∈ range n, f i j (i * n + j) := by
  induction m with
  | zero => simp
  | succ m ih =>
    rw [Nat.succ_mul, sum_range_add, ih, sum_range_succ]
    refine congrArg _ (sum_congr rfl fun j hj => ?_)
    rw [row_div (mem_range.mp hj), row_mod (mem_range.mp hj)]

/-! ### Images -/

def productImage (m k n : Nat) (x y : Nat → R) : Nat → R :=
  cut (m * n) fun i => ∑ s ∈ range k, x (i / n * k + s) * y (s * n + i % n)

def convolutionImage (c : Convolution) (x y : Nat → R) : Nat → R :=
  cut c.outputs fun r => ∑ p ∈ range c.inputs, ∑ q ∈ range c.k.size,
    if c.Live p q r then x p * y q else 0

def columnBiasImage (cols rows : Nat) (x y : Nat → R) : Nat → R :=
  cut (cols * rows) fun i => x i + y (i % cols)

def channelBiasImage (plane channels batch : Nat) (x y : Nat → R) : Nat → R :=
  cut (plane * channels * batch) fun i => x i + y (i / plane % channels)

/-- The part of a tile that lies on the image, and zeros beside it. -/
def tileImage (t : Tiling) (x : Nat → R) : Nat → R :=
  cut t.tileCells fun d => if t.Lies d then x (t.source d) else 0

/-- Half of the squared distance, averaged over rows. -/
def squaredErrorImage [Algebra ℚ R] (n rows : Nat) (x y : Nat → R) : Nat → R :=
  cut 1 fun _ => (1 / (2 * (max rows 1 : Nat)) : ℚ) •
    ∑ p ∈ range n, (x p - y p) * (x p - y p)

/-! ### Gradients -/

def productLeft (m k n : Nat) (y g : Nat → R) : Nat → R :=
  cut (m * k) fun p => ∑ j ∈ range n, g (p / k * n + j) * y (p % k * n + j)

def productRight (m k n : Nat) (x g : Nat → R) : Nat → R :=
  cut (k * n) fun q => ∑ i ∈ range m, x (i * k + q / n) * g (i * n + q % n)

def convolutionLeft (c : Convolution) (y g : Nat → R) : Nat → R :=
  cut c.inputs fun p => ∑ r ∈ range c.outputs, ∑ q ∈ range c.k.size,
    if c.Live p q r then g r * y q else 0

def convolutionRight (c : Convolution) (x g : Nat → R) : Nat → R :=
  cut c.k.size fun q => ∑ p ∈ range c.inputs, ∑ r ∈ range c.outputs,
    if c.Live p q r then x p * g r else 0

def columnBiasRight (cols rows : Nat) (g : Nat → R) : Nat → R :=
  cut cols fun j => ∑ r ∈ range rows, g (r * cols + j)

def channelBiasRight (plane channels batch : Nat) (g : Nat → R) : Nat → R :=
  cut channels fun c => ∑ b ∈ range batch, ∑ i ∈ range plane, g ((b * channels + c) * plane + i)

def tileLeft (t : Tiling) (g : Nat → R) : Nat → R :=
  cut t.imageCells fun s => if t.Covers s then g (t.target s) else 0

/-! ### Transposes -/

variable {x y g : Nat → R} {X Y Z : Nat}

theorem cut_transpose {n : Nat} (hx : n ≤ X) (hz : n ≤ Z) :
    ∑ i ∈ range Z, cut n x i * g i = ∑ p ∈ range X, cut n g p * x p := by
  rw [sum_cut hz, sum_cut hx]
  exact sum_congr rfl fun i _ => mul_comm ..

theorem product_transpose_left {m k n : Nat} (hx : m * k ≤ X) (hz : m * n ≤ Z) :
    ∑ i ∈ range Z, productImage m k n x y i * g i =
      ∑ p ∈ range X, productLeft m k n y g p * x p := by
  rw [productImage, productLeft, sum_cut hz, sum_cut hx,
    sum_rows m n fun i j p => (∑ s ∈ range k, x (i * k + s) * y (s * n + j)) * g p,
    sum_rows m k fun i s p => (∑ j ∈ range n, g (i * n + j) * y (s * n + j)) * x p]
  refine sum_congr rfl fun i _ => ?_
  simp only [sum_mul]
  rw [sum_comm]
  exact sum_congr rfl fun s _ => sum_congr rfl fun j _ => by ring

theorem product_transpose_right {m k n : Nat} (hy : k * n ≤ Y) (hz : m * n ≤ Z) :
    ∑ i ∈ range Z, productImage m k n x y i * g i =
      ∑ q ∈ range Y, productRight m k n x g q * y q := by
  rw [productImage, productRight, sum_cut hz, sum_cut hy,
    sum_rows m n fun i j p => (∑ s ∈ range k, x (i * k + s) * y (s * n + j)) * g p,
    sum_rows k n fun s j q => (∑ i ∈ range m, x (i * k + s) * g (i * n + j)) * y q]
  refine sum_comm.trans (Eq.trans ?_ sum_comm)
  refine sum_congr rfl fun j _ => ?_
  simp only [sum_mul]
  rw [sum_comm]
  exact sum_congr rfl fun s _ => sum_congr rfl fun i _ => by ring

theorem convolution_transpose_left {c : Convolution} (hx : c.inputs ≤ X) (hz : c.outputs ≤ Z) :
    ∑ r ∈ range Z, convolutionImage c x y r * g r =
      ∑ p ∈ range X, convolutionLeft c y g p * x p := by
  rw [convolutionImage, convolutionLeft, sum_cut hz, sum_cut hx]
  simp only [sum_mul]
  rw [sum_comm]
  exact sum_congr rfl fun p _ => sum_congr rfl fun r _ => sum_congr rfl fun q _ => by
    split <;> ring

theorem convolution_transpose_right {c : Convolution} (hy : c.k.size ≤ Y) (hz : c.outputs ≤ Z) :
    ∑ r ∈ range Z, convolutionImage c x y r * g r =
      ∑ q ∈ range Y, convolutionRight c x g q * y q := by
  rw [convolutionImage, convolutionRight, sum_cut hz, sum_cut hy]
  simp only [sum_mul]
  rw [sum_comm]
  refine Eq.trans (sum_congr rfl fun p _ => sum_comm) ?_
  rw [sum_comm]
  exact sum_congr rfl fun q _ => sum_congr rfl fun p _ => sum_congr rfl fun r _ => by
    split <;> ring

theorem columnBias_transpose {cols rows : Nat} (hx : cols * rows ≤ X) (hy : cols ≤ Y)
    (hz : cols * rows ≤ Z) :
    ∑ i ∈ range Z, columnBiasImage cols rows x y i * g i =
      ∑ p ∈ range X, cut (cols * rows) g p * x p +
        ∑ q ∈ range Y, columnBiasRight cols rows g q * y q := by
  rw [columnBiasImage, columnBiasRight, sum_cut hz, sum_cut hx, sum_cut hy]
  refine (sum_congr rfl fun i _ => add_mul ..).trans (sum_add_distrib.trans ?_)
  refine congrArg₂ _ (sum_congr rfl fun i _ => mul_comm ..) ?_
  rw [Nat.mul_comm, sum_rows rows cols fun _ j p => y j * g p, sum_comm]
  refine sum_congr rfl fun j _ => ?_
  rw [sum_mul]
  exact sum_congr rfl fun r _ => mul_comm ..

theorem channelBias_transpose {plane channels batch : Nat} (hx : plane * channels * batch ≤ X)
    (hy : channels ≤ Y) (hz : plane * channels * batch ≤ Z) :
    ∑ i ∈ range Z, channelBiasImage plane channels batch x y i * g i =
      ∑ p ∈ range X, cut (plane * channels * batch) g p * x p +
        ∑ q ∈ range Y, channelBiasRight plane channels batch g q * y q := by
  rw [channelBiasImage, channelBiasRight, sum_cut hz, sum_cut hx, sum_cut hy]
  refine (sum_congr rfl fun i _ => add_mul ..).trans (sum_add_distrib.trans ?_)
  refine congrArg₂ _ (sum_congr rfl fun i _ => mul_comm ..) ?_
  rw [show plane * channels * batch = batch * channels * plane by ring,
    sum_rows (batch * channels) plane fun i _ p => y (i % channels) * g p,
    sum_rows batch channels fun _ c i => ∑ j ∈ range plane, y c * g (i * plane + j), sum_comm]
  refine sum_congr rfl fun c _ => ?_
  rw [sum_mul]
  refine sum_congr rfl fun b _ => ?_
  rw [sum_mul]
  exact sum_congr rfl fun j _ => mul_comm ..

theorem tile_transpose {t : Tiling} (hx : t.imageCells ≤ X) (hz : t.tileCells ≤ Z) :
    ∑ d ∈ range Z, tileImage t x d * g d = ∑ s ∈ range X, tileLeft t g s * x s := by
  rw [tileImage, tileLeft, sum_cut hz, sum_cut hx]
  simp only [ite_mul, zero_mul]
  rw [← sum_filter, ← sum_filter]
  refine sum_nbij' t.source t.target ?_ ?_ ?_ ?_ ?_
  all_goals
    intro d hd
    simp only [mem_filter, mem_range] at hd ⊢
  · obtain ⟨hs, hc, -⟩ := Tiling.source_eq_iff.mp ⟨hd.1, hd.2, rfl⟩
    exact ⟨hs, hc⟩
  · obtain ⟨hs, hl, -⟩ := Tiling.source_eq_iff.mpr ⟨hd.1, hd.2, rfl⟩
    exact ⟨hs, hl⟩
  · exact (Tiling.source_eq_iff.mp ⟨hd.1, hd.2, rfl⟩).2.2
  · exact (Tiling.source_eq_iff.mpr ⟨hd.1, hd.2, rfl⟩).2.2
  · rw [(Tiling.source_eq_iff.mp ⟨hd.1, hd.2, rfl⟩).2.2, mul_comm]

end

end Backprop.Kernel
