import Mathlib
import Backprop.Proofs.Kernel.ClassGradients
import Backprop.Proofs.Kernel.Demands
import Backprop.Proofs.Kernel.Images

/-! Kernels in exact arithmetic. A launch that succeeds has found its operands long enough; the
entries of its output are those of an image of the operands, or a gradient is added to them. -/

namespace Backprop

def entry (a : Array ℚ) (i : Nat) : ℚ := a.getD i 0

theorem entry_of_getElem? {a : Array ℚ} {i : Nat} {v : ℚ} (h : a[i]? = some v) : entry a i = v := by
  rw [entry, Array.getD_eq_getD_getElem?, h, Option.getD_some]

theorem entry_congr {a b : Array ℚ} {i j : Nat} (h : a[i]? = b[j]?) : entry a i = entry b j := by
  rw [entry, entry, Array.getD_eq_getD_getElem?, Array.getD_eq_getD_getElem?, h]

theorem entry_replicate (n i : Nat) : entry (Array.replicate n 0) i = 0 := by
  rw [entry, Array.getD_eq_getD_getElem?, Array.getElem?_replicate]
  split <;> rfl

theorem entry_of_read {a : Array ℚ} {i : Nat} {v : ℚ} (h : read a i = .ok v) : v = entry a i :=
  (entry_of_getElem? (read_ok_iff.mp h)).symm

theorem sum_of_foldlM {β : Type} {f : β → ℚ} {step : ℚ → β → Except Error ℚ} {l : List β}
    {start total : ℚ} (hstep : ∀ b ∈ l, ∀ sum sum', step sum b = .ok sum' → sum' = sum + f b)
    (h : l.foldlM step start = .ok total) : total = start + (l.map f).sum := by
  induction l generalizing start with
  | nil =>
    cases h
    simp
  | cons b l ih =>
    rw [List.foldlM_cons, Except.bind_ok_iff] at h
    obtain ⟨sum, hsum, h⟩ := h
    rw [ih (fun c hc => hstep c (List.mem_cons_of_mem _ hc)) h,
      hstep b List.mem_cons_self _ _ hsum, List.map_cons, List.sum_cons, add_assoc]

theorem sum_of_loop {f : Nat → ℚ} {step : Nat → ℚ → Except Error ℚ} {n : Nat} {start total : ℚ}
    (hstep : ∀ i < n, ∀ sum sum', step i sum = .ok sum' → sum' = sum + f i)
    (h : loop n start step = .ok total) : total = start + ∑ i ∈ Finset.range n, f i := by
  rw [loop_eq_foldlM] at h
  exact sum_of_foldlM (fun i hi => hstep i (List.mem_range.mp hi)) h

namespace Operands

variable {α : Type} {o : Operands α} {args : List (Operand α)} {i n : Nat} {x y : Array α}

theorem words_eq (ho : o.args = args) (hget : args[i]? = some (.words x))
    (h : o.words i n = .ok y) : y = x ∧ n ≤ x.size := by
  obtain ⟨hy, hn⟩ := words_ok_iff.mp h
  rw [ho, hget] at hy
  cases hy
  exact ⟨rfl, hn⟩

end Operands

namespace Kernel

open Finset Operands

section

variable {n : Nat} {z data : Array ℚ} {f : Nat → ℚ → Except Error ℚ} {g : Nat → ℚ}

theorem updateFirst_entry (h : updateFirst n z f = .ok data)
    (hg : ∀ i < n, ∀ new, f i (entry z i) = .ok new → new = g i) (i : Nat) :
    entry data i = if i < n then g i else entry z i := by
  obtain ⟨-, hdone, hrest⟩ := updateSpan_entries h
  split
  · next hi =>
    obtain ⟨old, new, hold, hnew, hdata⟩ := hdone i hi
    rw [Nat.zero_add] at hold hdata
    rw [← entry_of_getElem? hold] at hnew
    exact (entry_of_getElem? hdata).trans (hg i hi new hnew)
  · next hi => exact entry_congr (hrest i (by omega))

theorem updateFirst_blank (h : updateFirst n z f = .ok data) (blank : ∀ i, entry z i = 0)
    (hg : ∀ i < n, ∀ new, f i (entry z i) = .ok new → new = g i) : entry data = cut n g := by
  funext i
  rw [updateFirst_entry h hg, blank]
  rfl

theorem updateFirst_adds (h : updateFirst n z f = .ok data)
    (hg : ∀ i < n, ∀ new, f i (entry z i) = .ok new → new = entry z i + g i) (i : Nat) :
    entry data i = entry z i + cut n g i := by
  rw [updateFirst_entry h hg, cut]
  split <;> simp

end

variable [Inexact] {o : Operands ℚ} {ws : Writes ℚ} {x y z : Array ℚ} {n : Nat}

/-! ### Entry by entry -/

section

variable (ho : o.args = [.words x, .words z, .scalar (.int n)]) (hn : n < 2 ^ 31)

include ho hn

theorem copy_exact (blank : ∀ i, entry z i = 0) (h : copy o = .ok ws) :
    ∃ data, ws = [(1, data)] ∧ (n ≤ x.size ∧ n ≤ z.size) ∧ entry data = cut n (entry x) := by
  have htold : o.extent 2 = .ok n := extent_at ho rfl hn
  simp only [copy, htold, Except.ok_bind, Except.bind_ok_iff, Except.pure_ok_iff] at h
  obtain ⟨out, hout, a, ha, data, hdata, rfl⟩ := h
  obtain ⟨rfl, hz⟩ := words_eq ho rfl hout
  obtain ⟨rfl, hx⟩ := words_eq ho rfl ha
  exact ⟨data, rfl, ⟨hx, hz⟩, updateFirst_blank hdata blank fun i _ new hnew => entry_of_read hnew⟩

theorem copyAdd_exact (h : copyAdd o = .ok ws) : ∃ data, ws = [(1, data)] ∧
    ∀ i, entry data i = entry z i + cut n (entry x) i := by
  have htold : o.extent 2 = .ok n := extent_at ho rfl hn
  simp only [copyAdd, htold, Except.ok_bind, Except.bind_ok_iff, Except.pure_ok_iff] at h
  obtain ⟨out, hout, a, ha, data, hdata, rfl⟩ := h
  obtain ⟨rfl, -⟩ := words_eq ho rfl hout
  obtain ⟨rfl, -⟩ := words_eq ho rfl ha
  refine ⟨data, rfl, updateFirst_adds hdata fun i _ new hnew => ?_⟩
  simp only [Except.bind_ok_iff, Except.pure_ok_iff] at hnew
  obtain ⟨v, hv, rfl⟩ := hnew
  rw [entry_of_read hv]

theorem subtractFromConstGrad_exact (h : subtractFromConstGrad o = .ok ws) :
    ∃ data, ws = [(1, data)] ∧ ∀ i, entry data i = entry z i + cut n (fun i => -entry x i) i := by
  have htold : o.extent 2 = .ok n := extent_at ho rfl hn
  simp only [subtractFromConstGrad, htold, Except.ok_bind, Except.bind_ok_iff,
    Except.pure_ok_iff] at h
  obtain ⟨out, hout, a, ha, data, hdata, rfl⟩ := h
  obtain ⟨rfl, -⟩ := words_eq ho rfl hout
  obtain ⟨rfl, -⟩ := words_eq ho rfl ha
  refine ⟨data, rfl, updateFirst_adds hdata fun i _ new hnew => ?_⟩
  simp only [Except.bind_ok_iff, Except.pure_ok_iff] at hnew
  obtain ⟨v, hv, rfl⟩ := hnew
  rw [entry_of_read hv, sub_eq_add_neg]

end

section

variable (ho : o.args = [.words x, .words y, .words z, .scalar (.int n)]) (hn : n < 2 ^ 31)

include ho hn

omit [Inexact] in
theorem combine_exact {f : ℚ → ℚ → ℚ → ℚ} (h : combine f o = .ok ws) :
    ∃ data, ws = [(2, data)] ∧ (n ≤ x.size ∧ n ≤ y.size ∧ n ≤ z.size) ∧ ∀ i, entry data i =
      if i < n then f (entry z i) (entry x i) (entry y i) else entry z i := by
  have htold : o.extent 3 = .ok n := extent_at ho rfl hn
  simp only [combine, htold, Except.ok_bind, Except.bind_ok_iff, Except.pure_ok_iff] at h
  obtain ⟨out, hout, a, ha, b, hb, data, hdata, rfl⟩ := h
  obtain ⟨rfl, hz⟩ := words_eq ho rfl hout
  obtain ⟨rfl, hx⟩ := words_eq ho rfl ha
  obtain ⟨rfl, hy⟩ := words_eq ho rfl hb
  refine ⟨data, rfl, ⟨hx, hy, hz⟩, updateFirst_entry hdata fun i _ new hnew => ?_⟩
  simp only [Except.bind_ok_iff, Except.pure_ok_iff] at hnew
  obtain ⟨v, hv, w, hw, rfl⟩ := hnew
  rw [entry_of_read hv, entry_of_read hw]

theorem add_exact (blank : ∀ i, entry z i = 0) (h : add o = .ok ws) :
    ∃ data, ws = [(2, data)] ∧ (n ≤ x.size ∧ n ≤ y.size ∧ n ≤ z.size) ∧
      entry data = cut n fun i => entry x i + entry y i := by
  obtain ⟨data, rfl, hsizes, hentry⟩ := combine_exact ho hn h
  refine ⟨data, rfl, hsizes, funext fun i => ?_⟩
  rw [hentry, blank]
  rfl

theorem elementwiseProduct_exact (blank : ∀ i, entry z i = 0) (h : elementwiseProduct o = .ok ws) :
    ∃ data, ws = [(2, data)] ∧ (n ≤ x.size ∧ n ≤ y.size ∧ n ≤ z.size) ∧
      entry data = cut n fun i => entry x i * entry y i := by
  obtain ⟨data, rfl, hsizes, hentry⟩ := combine_exact ho hn h
  refine ⟨data, rfl, hsizes, funext fun i => ?_⟩
  rw [hentry, blank]
  rfl

theorem elementwiseProductAdd_exact (h : elementwiseProductAdd o = .ok ws) :
    ∃ data, ws = [(2, data)] ∧
      ∀ i, entry data i = entry z i + cut n (fun i => entry x i * entry y i) i := by
  obtain ⟨data, rfl, -, hentry⟩ := combine_exact ho hn h
  refine ⟨data, rfl, fun i => ?_⟩
  rw [hentry, cut]
  split <;> simp

end

theorem subtractFromConst_exact {c : ℚ}
    (ho : o.args = [.words x, .words z, .scalar (.float c), .scalar (.int n)]) (hn : n < 2 ^ 31)
    (blank : ∀ i, entry z i = 0) (h : subtractFromConst o = .ok ws) :
    ∃ data, ws = [(1, data)] ∧ (n ≤ x.size ∧ n ≤ z.size) ∧
      entry data = cut n fun i => c - entry x i := by
  have hconstant : o.float 2 = .ok c := float_at ho rfl
  have htold : o.extent 3 = .ok n := extent_at ho rfl hn
  simp only [subtractFromConst, hconstant, htold, Except.ok_bind, Except.bind_ok_iff,
    Except.pure_ok_iff] at h
  obtain ⟨out, hout, a, ha, data, hdata, rfl⟩ := h
  obtain ⟨rfl, hz⟩ := words_eq ho rfl hout
  obtain ⟨rfl, hx⟩ := words_eq ho rfl ha
  refine ⟨data, rfl, ⟨hx, hz⟩, updateFirst_blank hdata blank fun i _ new hnew => ?_⟩
  simp only [Except.bind_ok_iff, Except.pure_ok_iff] at hnew
  obtain ⟨v, hv, rfl⟩ := hnew
  rw [entry_of_read hv]

/-! ### Biases -/

omit [Inexact] in
theorem remainder_ok_iff {i m r : Nat} : remainder i m = .ok r ↔ m ≠ 0 ∧ r = i % m := by
  unfold remainder
  split <;> simp_all [eq_comm]

omit [Inexact] in
theorem quotient_ok_iff {i m r : Nat} : quotient i m = .ok r ↔ m ≠ 0 ∧ r = i / m := by
  unfold quotient
  split <;> simp_all [eq_comm]

section

variable {cols rows : Nat} (hc : cols < 2 ^ 31) (hr : rows < 2 ^ 31)

include hc hr

theorem addToMatrix_exact
    (ho : o.args = [.words x, .words y, .words z, .scalar (.int cols), .scalar (.int rows)])
    (blank : ∀ i, entry z i = 0) (h : addToMatrix o = .ok ws) : ∃ data, ws = [(2, data)] ∧
      (cols * rows ≤ x.size ∧ cols ≤ y.size ∧ cols * rows ≤ z.size) ∧
      entry data = columnBiasImage cols rows (entry x) (entry y) := by
  have htold : o.extent 3 = .ok cols := extent_at ho rfl hc
  have htold' : o.extent 4 = .ok rows := extent_at ho rfl hr
  simp only [addToMatrix, htold, htold', Except.ok_bind, Except.bind_ok_iff,
    Except.pure_ok_iff] at h
  obtain ⟨out, hout, a, ha, b, hb, data, hdata, rfl⟩ := h
  obtain ⟨rfl, hz⟩ := words_eq ho rfl hout
  obtain ⟨rfl, hx⟩ := words_eq ho rfl ha
  obtain ⟨rfl, hy⟩ := words_eq ho rfl hb
  refine ⟨data, rfl, ⟨hx, hy, hz⟩, updateFirst_blank hdata blank fun i _ new hnew => ?_⟩
  simp only [Except.bind_ok_iff, Except.pure_ok_iff, remainder_ok_iff] at hnew
  obtain ⟨v, hv, j, ⟨-, rfl⟩, w, hw, rfl⟩ := hnew
  rw [entry_of_read hv, entry_of_read hw]

theorem addToMatrixGrad_exact
    (ho : o.args = [.words x, .words z, .scalar (.int cols), .scalar (.int rows)])
    (h : addToMatrixGrad o = .ok ws) : ∃ data, ws = [(1, data)] ∧
      ∀ i, entry data i = entry z i + columnBiasRight cols rows (entry x) i := by
  have htold : o.extent 2 = .ok cols := extent_at ho rfl hc
  have htold' : o.extent 3 = .ok rows := extent_at ho rfl hr
  simp only [addToMatrixGrad, htold, htold', Except.ok_bind, Except.bind_ok_iff,
    Except.pure_ok_iff] at h
  obtain ⟨out, hout, a, ha, data, hdata, rfl⟩ := h
  obtain ⟨rfl, -⟩ := words_eq ho rfl hout
  obtain ⟨rfl, -⟩ := words_eq ho rfl ha
  refine ⟨data, rfl, updateFirst_adds hdata fun j _ new hnew => ?_⟩
  refine sum_of_loop (fun r _ sum sum' hsum => ?_) hnew
  simp only [Except.bind_ok_iff, Except.pure_ok_iff] at hsum
  obtain ⟨v, hv, rfl⟩ := hsum
  rw [entry_of_read hv]

end

section

variable {plane channels batch : Nat} (hp : plane < 2 ^ 31) (hc : channels < 2 ^ 31)
  (hb : batch < 2 ^ 31)

include hp hc hb

theorem addToImage_exact (ho : o.args = [.words x, .words y, .words z, .scalar (.int plane),
      .scalar (.int channels), .scalar (.int batch)])
    (blank : ∀ i, entry z i = 0) (h : addToImage o = .ok ws) : ∃ data, ws = [(2, data)] ∧
      (plane * channels * batch ≤ x.size ∧ channels ≤ y.size ∧
        plane * channels * batch ≤ z.size) ∧
      entry data = channelBiasImage plane channels batch (entry x) (entry y) := by
  have htold : o.extent 3 = .ok plane := extent_at ho rfl hp
  have htold' : o.extent 4 = .ok channels := extent_at ho rfl hc
  have htold'' : o.extent 5 = .ok batch := extent_at ho rfl hb
  simp only [addToImage, htold, htold', htold'', Except.ok_bind, Except.bind_ok_iff,
    Except.pure_ok_iff] at h
  obtain ⟨out, hout, a, ha, b, hb, data, hdata, rfl⟩ := h
  obtain ⟨rfl, hz⟩ := words_eq ho rfl hout
  obtain ⟨rfl, hx⟩ := words_eq ho rfl ha
  obtain ⟨rfl, hy⟩ := words_eq ho rfl hb
  refine ⟨data, rfl, ⟨hx, hy, hz⟩, updateFirst_blank hdata blank fun i _ new hnew => ?_⟩
  simp only [Except.bind_ok_iff, Except.pure_ok_iff, remainder_ok_iff, quotient_ok_iff] at hnew
  obtain ⟨v, hv, j, ⟨-, rfl⟩, c, ⟨-, rfl⟩, w, hw, rfl⟩ := hnew
  rw [entry_of_read hv, entry_of_read hw]

theorem addToImageGrad_exact (ho : o.args = [.words x, .words z, .scalar (.int plane),
      .scalar (.int channels), .scalar (.int batch)])
    (h : addToImageGrad o = .ok ws) : ∃ data, ws = [(1, data)] ∧
      ∀ i, entry data i = entry z i + channelBiasRight plane channels batch (entry x) i := by
  have htold : o.extent 2 = .ok plane := extent_at ho rfl hp
  have htold' : o.extent 3 = .ok channels := extent_at ho rfl hc
  have htold'' : o.extent 4 = .ok batch := extent_at ho rfl hb
  simp only [addToImageGrad, htold, htold', htold'', Except.ok_bind, Except.bind_ok_iff,
    Except.pure_ok_iff] at h
  obtain ⟨out, hout, a, ha, data, hdata, rfl⟩ := h
  obtain ⟨rfl, -⟩ := words_eq ho rfl hout
  obtain ⟨rfl, -⟩ := words_eq ho rfl ha
  refine ⟨data, rfl, updateFirst_adds hdata fun c _ new hnew => ?_⟩
  have hsum := sum_of_loop (f := fun b => ∑ i ∈ range plane,
    entry a ((b * channels + c) * plane + i)) (fun b _ sum sum' hsum => ?_) hnew
  · rw [hsum]
    by_cases hempty : plane = 0
    · simp [hempty]
    · rw [if_neg hempty]
  · simp only [Except.bind_ok_iff, Except.pure_ok_iff] at hsum
    obtain ⟨total, htotal, rfl⟩ := hsum
    rw [sum_of_loop (f := fun i => entry a ((b * channels + c) * plane + i)) ?_ htotal,
      Exact.emptySum_eq, zero_add]
    intro i _ sum sum' hsum
    simp only [Except.bind_ok_iff, Except.pure_ok_iff] at hsum
    obtain ⟨v, hv, rfl⟩ := hsum
    rw [entry_of_read hv]

end

/-! ### Losses -/

section

variable {cols rows : Nat} (hc : cols < 2 ^ 31) (hr : rows < 2 ^ 31)
  (ho : o.args = [.words x, .words y, .words z, .scalar (.int cols), .scalar (.int rows)])

include hc hr ho

theorem meanSquaredError_exact (blank : ∀ i, entry z i = 0) (h : meanSquaredError o = .ok ws) :
    ∃ data, ws = [(2, data)] ∧ (cols * rows ≤ x.size ∧ cols * rows ≤ y.size ∧ 1 ≤ z.size) ∧
      entry data = squaredErrorImage (cols * rows) rows (entry x) (entry y) := by
  have htold : o.extent 3 = .ok cols := extent_at ho rfl hc
  have htold' : o.extent 4 = .ok rows := extent_at ho rfl hr
  simp only [meanSquaredError, htold, htold', Except.ok_bind, Except.bind_ok_iff,
    Except.pure_ok_iff, write_ok_iff] at h
  obtain ⟨out, hout, a, ha, b, hb, sum, hsum, data, ⟨hlt, rfl⟩, rfl⟩ := h
  obtain ⟨rfl, hz⟩ := words_eq ho rfl hout
  obtain ⟨rfl, hx⟩ := words_eq ho rfl ha
  obtain ⟨rfl, hy⟩ := words_eq ho rfl hb
  refine ⟨_, rfl, ⟨hx, hy, hz⟩, funext fun i => ?_⟩
  obtain rfl | hi := Nat.eq_zero_or_pos i
  · rw [entry_of_getElem? (Array.getElem?_setIfInBounds_self_of_lt hlt), squaredErrorImage,
      cut_of_lt Nat.one_pos, sum_of_loop
        (f := fun i => (entry a i - entry b i) * (entry a i - entry b i)) ?_ hsum,
      Exact.emptySum_eq, zero_add, smul_eq_mul, one_div, inv_mul_eq_div]
    · rfl
    · intro i _ sum sum' hsum
      simp only [Except.bind_ok_iff, Except.pure_ok_iff] at hsum
      obtain ⟨v, hv, w, hw, rfl⟩ := hsum
      rw [entry_of_read hv, entry_of_read hw]
  · rw [entry_congr (Array.getElem?_setIfInBounds_ne (by omega)), blank, squaredErrorImage,
      cut_of_le hi]

theorem meanSquaredErrorGrad_exact (h : meanSquaredErrorGrad o = .ok ws) :
    ∃ data, ws = [(2, data)] ∧ ∀ i, entry data i = entry z i +
      cut cols (fun i => (entry x i - entry y i) / (max rows 1 : Nat)) i := by
  have htold : o.extent 3 = .ok cols := extent_at ho rfl hc
  have htold' : o.extent 4 = .ok rows := extent_at ho rfl hr
  simp only [meanSquaredErrorGrad, htold, htold', Except.ok_bind, Except.bind_ok_iff,
    Except.pure_ok_iff] at h
  obtain ⟨out, hout, a, ha, b, hb, data, hdata, rfl⟩ := h
  obtain ⟨rfl, -⟩ := words_eq ho rfl hout
  obtain ⟨rfl, -⟩ := words_eq ho rfl ha
  obtain ⟨rfl, -⟩ := words_eq ho rfl hb
  refine ⟨data, rfl, updateFirst_adds hdata fun i _ new hnew => ?_⟩
  simp only [Except.bind_ok_iff, Except.pure_ok_iff] at hnew
  obtain ⟨v, hv, w, hw, rfl⟩ := hnew
  rw [entry_of_read hv, entry_of_read hw]
  rfl

end

end Kernel

end Backprop
