import Mathlib
import Backprop.Proofs.Kernel.Rearrangement
import Backprop.Proofs.Operator.Entries

/-! Products with a matrix that has been transposed before: a row of one matrix times a row of the
other, or a column times a column. -/

namespace Backprop

variable {α : Type}

theorem read_congr {x y : Array α} {i j : Nat} (h : x[i]? = y[j]?) : read x i = read y j := by
  by_cases hj : j < y.size
  · rw [Array.getElem?_eq_getElem hj] at h
    rw [read_of_lt hj, read_ok_iff, h]
  · have hi : ¬i < x.size := by
      rw [Array.getElem?_eq_none (Nat.le_of_not_lt hj), Array.getElem?_eq_none_iff] at h
      omega
    simp only [read, dif_neg hi, dif_neg hj]

namespace Kernel

open Operands

def Transposed (rows cols : Nat) (x data : Array α) : Prop :=
  ∀ r < rows, ∀ c < cols, data[c * rows + r]? = x[r * cols + c]?

variable {o : Operands α} {x y z : Array α} {m n k i j rows cols : Nat}

theorem transpose_answers
    (ho : o.args = [.words x, .words z, .scalar (.int cols), .scalar (.int rows)])
    (hlaunch : max o.launch.global.z 1 = 1) (hx : rows * cols ≤ x.size) (hz : rows * cols ≤ z.size) :
    ∃ data, transpose o = .ok [(1, data)] ∧ data.size = z.size ∧
      Transposed (told rows) (told cols) x data := by
  have htold : told rows * told cols * 1 ≤ rows * cols :=
    (Nat.mul_one _).trans_le (told_mul_told_le rows cols)
  have operands : TranspositionOperands (told rows) (told cols) 1 o x z :=
    ⟨extent_told ho rfl, extent_told ho rfl, hlaunch, words_at ho rfl (htold.trans hx),
      words_at ho rfl (htold.trans hz)⟩
  have hfetches := transpose_fetches operands
  obtain ⟨data, hdata, hsize⟩ := hfetches.answers (transposition_inverse ..).source_lt
  refine ⟨data, hdata, hsize, fun r hr c hc => ?_⟩
  have hj : c * told rows + r < told rows * told cols * 1 := by
    rw [Nat.mul_one, Nat.mul_comm (told rows)]
    exact row_lt hc hr
  have hindex := transposeSource_index (p := 0) hr hc
  rw [Nat.zero_mul, Nat.zero_add, Nat.zero_add] at hindex
  rw [hfetches.entries hdata _ hj, hindex]

variable [Scalar α]

def rowProduct (x y : Array α) (n i p : Nat) : Except Error α :=
  loop n 0 fun j sum => do return sum + (← read x (i * n + j)) * (← read y (p * n + j))

def columnProduct (x y : Array α) (rows k n p j : Nat) : Except Error α :=
  loop rows 0 fun i sum => do return sum + (← read x (i * k + p)) * (← read y (i * n + j))

theorem dotProduct_transposed (h : Transposed rows cols y z) (hj : j < rows) :
    dotProduct x z rows cols i j = rowProduct x y cols i j := by
  refine loop_congr 0 fun p sum hp => ?_
  rw [read_congr (h j hj p hp)]

theorem transposed_dotProduct (h : Transposed rows cols x z) (hi : i < cols) :
    dotProduct z y n rows i j = columnProduct x y rows cols n i j := by
  refine loop_congr 0 fun p sum hp => ?_
  rw [read_congr (h p hp i hi)]

/-- To each entry of a matrix of `m` rows of `n` a sum has been added. What is stored behind the
matrix has stayed. -/
structure Accumulates (m n : Nat) (sum : Nat → Nat → Except Error α) (old new : Array α) : Prop where
  size : new.size = old.size
  entries : ∀ i < m, ∀ j < n, ∃ x s, old[i * n + j]? = some x ∧ sum i j = .ok s ∧
    new[i * n + j]? = some (1 * s + 1 * x)
  rest : ∀ q, m * n ≤ q → new[q]? = old[q]?

theorem Accumulates.congr {sum sum' : Nat → Nat → Except Error α} {old new : Array α}
    (h : Accumulates m n sum old new) (hsum : ∀ i < m, ∀ j < n, sum i j = sum' i j) :
    Accumulates m n sum' old new := by
  refine ⟨h.size, fun i hi j hj => ?_, h.rest⟩
  obtain ⟨x, s, hold, hs, hnew⟩ := h.entries i hi j hj
  exact ⟨x, s, hold, (hsum i hi j hj).symm.trans hs, hnew⟩

theorem product_rest {q : Nat} {data : Array α} {alpha beta : α}
    (h : product x y z m n k alpha beta = .ok data) (hq : m * n ≤ q) : data[q]? = z[q]? := by
  refine loop_induct (P := fun _ d => d[q]? = z[q]?) rfl (fun i d e hi hd he => ?_) h
  have hrow : i * n + n ≤ q := by
    rw [← nonemptyRows_mul m n] at hq
    rw [← Nat.succ_mul]
    exact (Nat.mul_le_mul_right n hi).trans hq
  rw [(updateSpan_entries he).2.2 q (.inr hrow), hd]

theorem matrixProductAdd_answers (ho : o.args = [.words x, .words y, .words z, .scalar (.int m),
      .scalar (.int n), .scalar (.int k)])
    (hx : m * k ≤ x.size) (hy : k * n ≤ y.size) (hz : m * n ≤ z.size) :
    ∃ data, matrixProductAdd o = .ok [(2, data)] ∧
      Accumulates (told m) (told n) (dotProduct x y (told n) (told k)) z data := by
  have hm : o.extent 3 = .ok (told m) := extent_told ho rfl
  have hn : o.extent 4 = .ok (told n) := extent_told ho rfl
  have hk : o.extent 5 = .ok (told k) := extent_told ho rfl
  have hleft := (told_mul_told_le m k).trans hx
  have hright := (told_mul_told_le k n).trans hy
  have hout : o.words 2 (told m * told n) = .ok z :=
    words_at ho rfl ((told_mul_told_le m n).trans hz)
  have ha : o.words 0 (told m * told k) = .ok x := words_at ho rfl hleft
  have hb : o.words 1 (told k * told n) = .ok y := words_at ho rfl hright
  have hreplaces : Replaces (matrixProductWith 1) o 2 (told m * told n) z fun p old => do
      return 1 * (← dotProduct x y (told n) (told k) (p / told n) (p % told n)) + 1 * old :=
    matrixProductWith_replaces hm hn hk hout ha hb
  obtain ⟨data, hdata, hsize, hentries⟩ := hreplaces.answers fun q hq old => by
    have hpos : 0 < told n := Nat.pos_of_ne_zero fun h => by simp [h] at hq
    obtain ⟨v, hv⟩ := dotProduct_succeeds hleft hright ((Nat.div_lt_iff_lt_mul hpos).mpr hq)
      (Nat.mod_lt q hpos)
    exact ⟨1 * v + 1 * old, by rw [hv]; rfl⟩
  refine ⟨data, hdata, hsize, fun i hi j hj => ?_, fun q hq => ?_⟩
  · obtain ⟨old, new, hold, hnew, hget⟩ := hentries _ (row_lt hi hj)
    simp only [row_div hj, row_mod hj, Except.bind_ok_iff] at hnew
    obtain ⟨s, hs, hnew⟩ := hnew
    cases hnew
    exact ⟨old, s, hold, hs, hget⟩
  · simp only [matrixProductWith, hm, hn, hk, hout, ha, hb, Except.ok_bind, Except.bind_ok_iff,
      Except.pure_ok_iff, List.cons.injEq, Prod.mk.injEq, and_true, true_and, exists_eq_right] at hdata
    exact product_rest hdata hq

end Kernel

end Backprop
