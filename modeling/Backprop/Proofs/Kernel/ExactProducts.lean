import Mathlib
import Backprop.Proofs.Kernel.ExactEntries
import Backprop.Proofs.Kernel.Products
import Backprop.Proofs.Operator.ConvolutionGradients

/-! Kernels whose entries are sums of products, in exact arithmetic: products of matrices,
convolutions and tiles. -/

namespace Backprop.Kernel

open Finset Operands

theorem sum_terms (live : Nat → Nat → Prop) [∀ p q, Decidable (live p q)] (f g : Nat → ℚ)
    {terms : List (Option Nat × Nat)} {P Q : Nat}
    (inside : ∀ t ∈ terms, (∀ p, t.1 = some p → p < P) ∧ t.2 < Q)
    (once : ∀ p < P, ∀ q < Q, terms.count (some p, q) = if live p q then 1 else 0) :
    (terms.map fun t => (t.1.elim 0 f) * g t.2).sum =
      ∑ p ∈ range P, ∑ q ∈ range Q, if live p q then f p * g q else 0 := by
  have hcount : (terms.map fun t => (t.1.elim 0 f) * g t.2).sum =
      ∑ p ∈ range P, ∑ q ∈ range Q, terms.count (some p, q) * (f p * g q) := by
    clear once
    induction terms with
    | nil => simp
    | cons t terms ih =>
      rw [List.map_cons, List.sum_cons, ih fun u hu => inside u (List.mem_cons_of_mem _ hu)]
      obtain ⟨hp, hq⟩ := inside t List.mem_cons_self
      simp only [List.count_cons, Nat.cast_add, add_mul, sum_add_distrib]
      rw [add_comm]
      refine congrArg _ ?_
      obtain ⟨p, q⟩ := t
      cases p with
      | none => simp
      | some i =>
        rw [sum_eq_single i, sum_eq_single q]
        · simp
        · intro q' _ hne
          simp [Ne.symm hne]
        · exact fun h => absurd (mem_range.mpr hq) h
        · intro p' _ hne
          simp [Ne.symm hne]
        · exact fun h => absurd (mem_range.mpr (hp i rfl)) h
  rw [hcount]
  refine sum_congr rfl fun p hp => sum_congr rfl fun q hq => ?_
  rw [once p (mem_range.mp hp) q (mem_range.mp hq)]
  split <;> simp

variable [Inexact] {o : Operands ℚ} {ws : Writes ℚ} {x y z : Array ℚ} {n : Nat}

/-! ### Matrices -/

section

variable {m k : Nat} {beta : ℚ} {data : Array ℚ}

theorem dotProduct_entry {i j : Nat} {v : ℚ} (h : dotProduct x y n k i j = .ok v) :
    v = ∑ s ∈ range k, entry x (i * k + s) * entry y (s * n + j) := by
  have hloop := sum_of_loop (f := fun s => entry x (i * k + s) * entry y (s * n + j)) ?_ h
  · rwa [zero_add] at hloop
  intro s _ sum sum' hsum
  simp only [Except.bind_ok_iff, Except.pure_ok_iff] at hsum
  obtain ⟨v, hv, w, hw, rfl⟩ := hsum
  rw [entry_of_read hv, entry_of_read hw]

theorem matrixProductWith_exact (hm : m < 2 ^ 31) (hn : n < 2 ^ 31) (hk : k < 2 ^ 31)
    (ho : o.args = [.words x, .words y, .words z, .scalar (.int m), .scalar (.int n),
      .scalar (.int k)])
    (h : matrixProductWith beta o = .ok ws) : ∃ data, ws = [(2, data)] ∧
      (m * k ≤ x.size ∧ k * n ≤ y.size ∧ m * n ≤ z.size) ∧ ∀ i, entry data i =
        if i < m * n then productImage m k n (entry x) (entry y) i + beta * entry z i
        else entry z i := by
  have htold : o.extent 3 = .ok m := extent_at ho rfl hm
  have htold' : o.extent 4 = .ok n := extent_at ho rfl hn
  have htold'' : o.extent 5 = .ok k := extent_at ho rfl hk
  have hkernel := h
  simp only [matrixProductWith, htold, htold', htold'', Except.ok_bind, Except.bind_ok_iff,
    Except.pure_ok_iff] at h
  obtain ⟨out, hout, a, ha, b, hb, data, hdata, rfl⟩ := h
  obtain ⟨rfl, hz⟩ := words_eq ho rfl hout
  obtain ⟨rfl, hx⟩ := words_eq ho rfl ha
  obtain ⟨rfl, hy⟩ := words_eq ho rfl hb
  refine ⟨data, rfl, ⟨hx, hy, hz⟩, fun i => ?_⟩
  obtain ⟨data', heq, -, hreplaced⟩ :=
    (matrixProductWith_replaces htold htold' htold'' hout ha hb).replaced _ hkernel
  obtain rfl : data = data' := by simpa using heq
  split
  · next hi =>
    obtain ⟨old, new, hold, hnew, hget⟩ := hreplaced i hi
    simp only [Except.bind_ok_iff, Except.pure_ok_iff] at hnew
    obtain ⟨v, hv, rfl⟩ := hnew
    rw [entry_of_getElem? hget, entry_of_getElem? hold, productImage, cut_of_lt hi,
      dotProduct_entry hv, one_mul]
  · next hi => exact entry_congr (product_rest hdata (not_lt.mp hi))

theorem matrixProduct_exact (hm : m < 2 ^ 31) (hn : n < 2 ^ 31) (hk : k < 2 ^ 31)
    (ho : o.args = [.words x, .words y, .words z, .scalar (.int m), .scalar (.int n),
      .scalar (.int k)])
    (blank : ∀ i, entry z i = 0) (h : matrixProduct o = .ok ws) : ∃ data, ws = [(2, data)] ∧
      (m * k ≤ x.size ∧ k * n ≤ y.size ∧ m * n ≤ z.size) ∧
      entry data = productImage m k n (entry x) (entry y) := by
  obtain ⟨data, rfl, hsizes, hentry⟩ := matrixProductWith_exact hm hn hk ho h
  refine ⟨data, rfl, hsizes, funext fun i => ?_⟩
  rw [hentry, blank]
  split
  · rw [zero_mul, add_zero]
  · next hi => rw [productImage, cut_of_le (not_lt.mp hi)]

theorem matrixProductAdd_exact (hm : m < 2 ^ 31) (hn : n < 2 ^ 31) (hk : k < 2 ^ 31)
    (ho : o.args = [.words x, .words y, .words z, .scalar (.int m), .scalar (.int n),
      .scalar (.int k)])
    (h : matrixProductAdd o = .ok ws) : ∃ data, ws = [(2, data)] ∧
      ∀ i, entry data i = entry z i + productImage m k n (entry x) (entry y) i := by
  obtain ⟨data, rfl, -, hentry⟩ := matrixProductWith_exact hm hn hk ho h
  refine ⟨data, rfl, fun i => ?_⟩
  rw [hentry]
  split
  · rw [one_mul, add_comm]
  · next hi => rw [productImage, cut_of_le (not_lt.mp hi), add_zero]

omit [Inexact] in
theorem productImage_transposed {t : Array ℚ} (h : Transposed k n y t) (g : Nat → ℚ) :
    productImage m n k g (entry t) = productLeft m k n (entry y) g := by
  funext p
  unfold productImage productLeft cut
  split
  · next hp =>
    have hk : 0 < k := Nat.pos_of_ne_zero fun hk => by simp [hk] at hp
    refine sum_congr rfl fun j hj => ?_
    rw [entry_congr (h _ (Nat.mod_lt p hk) j (mem_range.mp hj))]
  · rfl

omit [Inexact] in
theorem transposed_productImage {t : Array ℚ} (h : Transposed m k x t) (g : Nat → ℚ) :
    productImage k m n (entry t) g = productRight m k n (entry x) g := by
  funext q
  unfold productImage productRight cut
  split
  · next hq =>
    have hn : 0 < n := Nat.pos_of_ne_zero fun hn => by simp [hn] at hq
    refine sum_congr rfl fun i hi => ?_
    rw [entry_congr (h i (mem_range.mp hi) _ ((Nat.div_lt_iff_lt_mul hn).mpr hq))]
  · rfl

omit [Inexact] in
theorem transpose_exact {rows cols : Nat} (hr : rows < 2 ^ 31) (hc : cols < 2 ^ 31)
    (ho : o.args = [.words x, .words z, .scalar (.int cols), .scalar (.int rows)])
    (hlaunch : max o.launch.global.z 1 = 1) (h : transpose o = .ok ws) :
    ∃ data, ws = [(1, data)] ∧ Transposed rows cols x data := by
  have htold : o.extent 2 = .ok cols := extent_at ho rfl hc
  have htold' : o.extent 3 = .ok rows := extent_at ho rfl hr
  have hkernel := h
  simp only [transpose, htold, htold', hlaunch, Nat.mul_one, Except.ok_bind, Except.bind_ok_iff,
    Except.pure_ok_iff] at h
  obtain ⟨_, -, out, hout, a, ha, data, hdata, rfl⟩ := h
  obtain ⟨rfl, hz⟩ := words_eq ho rfl hout
  obtain ⟨rfl, hx⟩ := words_eq ho rfl ha
  refine ⟨data, rfl, ?_⟩
  obtain ⟨data', hanswer, -, htransposed⟩ := transpose_answers ho hlaunch hx hz
  rw [hkernel] at hanswer
  cases hanswer
  rwa [told_eq (by omega), told_eq (by omega)] at htransposed

end

/-! ### Tiles -/

section

variable {t : Tiling} (ht : Tiling.ofOperands o = .ok t)

include ht

theorem splitData_exact {rest : List (Operand ℚ)} (ho : o.args = .words x :: .words z :: rest)
    (h : splitData o = .ok ws) : ∃ data, ws = [(1, data)] ∧
      (t.imageCells ≤ x.size ∧ t.tileCells ≤ z.size) ∧ entry data = tileImage t (entry x) := by
  simp only [splitData, ht, Except.ok_bind, Except.bind_ok_iff, Except.pure_ok_iff] at h
  obtain ⟨out, hout, a, ha, data, hdata, rfl⟩ := h
  obtain ⟨rfl, hz⟩ := words_eq ho rfl hout
  obtain ⟨rfl, hx⟩ := words_eq ho rfl ha
  refine ⟨data, rfl, ⟨hx, hz⟩, funext fun d => ?_⟩
  obtain ⟨-, hrest, hdone⟩ := carryOut_entries t.nodup_targets hdata
  simp only [tileImage, cut]
  by_cases hd : d < t.tileCells ∧ t.Lies d
  · obtain ⟨new, hnew, hget⟩ := hdone (d, t.source d) (Tiling.mem_pairs.mpr ⟨hd.1, hd.2, rfl⟩)
    rw [if_pos hd.1, if_pos hd.2, entry_of_getElem? hget, entry_of_read hnew]
  · rw [entry_congr (hrest d ?_), entry_replicate]
    · split
      · next hlt => rw [if_neg fun hl => hd ⟨hlt, hl⟩]
      · rfl
    · rintro ⟨d', s⟩ hmem rfl
      obtain ⟨hlt, hl, -⟩ := Tiling.mem_pairs.mp hmem
      exact hd ⟨hlt, hl⟩

theorem splitDataGrad_exact {rest : List (Operand ℚ)} (ho : o.args = .words x :: .words z :: rest)
    (h : splitDataGrad o = .ok ws) : ∃ data, ws = [(1, data)] ∧
      ∀ i, entry data i = entry z i + tileLeft t (entry x) i := by
  simp only [splitDataGrad, ht, Except.ok_bind, Except.bind_ok_iff, Except.pure_ok_iff] at h
  obtain ⟨out, hout, a, ha, data, hdata, rfl⟩ := h
  obtain ⟨rfl, -⟩ := words_eq ho rfl hout
  obtain ⟨rfl, -⟩ := words_eq ho rfl ha
  refine ⟨data, rfl, fun s => ?_⟩
  obtain ⟨-, hrest, hdone⟩ := foldlM_cells (k := Prod.snd)
    (f := fun p old => do return old + (← read a p.1)) (fun a p d hd => update_ok_iff.mp hd)
    (t.pairs_sorted.imp fun h => h.2.ne) hdata
  simp only [tileLeft, cut]
  by_cases hs : s < t.imageCells ∧ t.Covers s
  · obtain ⟨hd, hl, hsource⟩ := Tiling.source_eq_iff.mpr ⟨hs.1, hs.2, rfl⟩
    obtain ⟨old, new, hold, hnew, hget⟩ := hdone (t.target s, s)
      (Tiling.mem_pairs.mpr ⟨hd, hl, hsource.symm⟩)
    simp only [Except.bind_ok_iff, Except.pure_ok_iff] at hnew
    obtain ⟨v, hv, rfl⟩ := hnew
    rw [if_pos hs.1, if_pos hs.2, entry_of_getElem? hget, entry_of_getElem? hold, entry_of_read hv]
  · rw [entry_congr (hrest s ?_)]
    · split
      · next hlt => rw [if_neg fun hc => hs ⟨hlt, hc⟩, add_zero]
      · rw [add_zero]
    · rintro p hp rfl
      obtain ⟨hd, hl, hsource⟩ := Tiling.mem_pairs.mp hp
      obtain ⟨hlt, hc, -⟩ := Tiling.source_eq_iff.mp ⟨hd, hl, hsource.symm⟩
      exact hs ⟨hlt, hc⟩

end

/-! ### Convolutions -/

theorem sumOfProducts_entry {terms : List (Option Nat × Nat)} {v : ℚ}
    (h : sumOfProducts x y terms = .ok v) :
    v = (terms.map fun t => (t.1.elim 0 (entry x)) * entry y t.2).sum := by
  have hfold := sum_of_foldlM (f := fun t => (t.1.elim 0 (entry x)) * entry y t.2) ?_ h
  · rwa [zero_add] at hfold
  rintro ⟨_ | i, j⟩ - sum sum' hsum
  · simp only [Except.bind_ok_iff, Except.pure_ok_iff] at hsum
    obtain ⟨_, rfl, w, hw, rfl⟩ := hsum
    rw [entry_of_read hw]
    rfl
  · simp only [Except.bind_ok_iff, Except.pure_ok_iff] at hsum
    obtain ⟨u, hu, w, hw, rfl⟩ := hsum
    rw [entry_of_read hu, entry_of_read hw]
    rfl

namespace Convolution

variable {c : Convolution} (fits : c.Fits) (told : c.Tellable)

include fits told

theorem convolution_exact
    (ho : o.args = [.words x, .words y, .words z, .scalar (.int c.inX), .scalar (.int c.inY),
      .scalar (.int c.k.x), .scalar (.int c.k.y), .scalar (.int c.k.z), .scalar (.int c.k.w),
      .scalar (.int c.pad), .scalar (.int c.stride), .scalar (.int c.batch)])
    (blank : ∀ i, entry z i = 0) (h : convolution o = .ok ws) : ∃ data, ws = [(2, data)] ∧
      (c.inputs ≤ x.size ∧ c.k.size ≤ y.size ∧ c.outputs ≤ z.size) ∧
      entry data = convolutionImage c (entry x) (entry y) := by
  simp only [Tellable, List.mem_cons, List.not_mem_nil, or_false, forall_eq_or_imp, forall_eq]
    at told
  obtain ⟨hinX, hinY, -, -, hkx, hky, hkz, hkw, hpad, hstride, hbatch⟩ := told
  have h3 : o.extent 3 = .ok c.inX := extent_at ho rfl hinX
  have h4 : o.extent 4 = .ok c.inY := extent_at ho rfl hinY
  have h5 : o.extent 5 = .ok c.k.x := extent_at ho rfl hkx
  have h6 : o.extent 6 = .ok c.k.y := extent_at ho rfl hky
  have h7 : o.extent 7 = .ok c.k.z := extent_at ho rfl hkz
  have h8 : o.extent 8 = .ok c.k.w := extent_at ho rfl hkw
  have h9 : o.extent 9 = .ok c.pad := extent_at ho rfl hpad
  have h10 : o.extent 10 = .ok c.stride := extent_at ho rfl hstride
  have h11 : o.extent 11 = .ok c.batch := extent_at ho rfl hbatch
  simp only [convolution, h3, h4, h5, h6, h7, h8, h9, h10, h11, fits.width, fits.height,
    divisor_of_pos fits.stride_pos, Except.ok_bind, Except.bind_ok_iff, Except.pure_ok_iff] at h
  obtain ⟨out, hout, a, ha, b, hb, data, hdata, rfl⟩ := h
  obtain ⟨rfl, hz⟩ := words_eq ho rfl hout
  obtain ⟨rfl, hx⟩ := words_eq ho rfl ha
  obtain ⟨rfl, hy⟩ := words_eq ho rfl hb
  refine ⟨data, rfl, ⟨hx, hy, hz⟩, updateFirst_blank hdata blank fun r hr new hnew => ?_⟩
  rw [sumOfProducts_entry hnew]
  exact sum_terms (fun p q => c.Live p q r) _ _ (products_lt hr) fun p hp q hq =>
    (adjoint fits.stride_pos).convolved p hp q hq r hr

theorem weightGrad_exact
    (ho : o.args = [.words x, .words y, .words z, .scalar (.int c.inX), .scalar (.int c.inY),
      .scalar (.int c.outX), .scalar (.int c.outY), .scalar (.int c.k.x), .scalar (.int c.k.y),
      .scalar (.int c.k.z), .scalar (.int c.k.w), .scalar (.int c.pad), .scalar (.int c.stride),
      .scalar (.int c.batch)])
    (h : convolutionWeightGrad o = .ok ws) : ∃ data, ws = [(2, data)] ∧
      ∀ i, entry data i = entry z i + convolutionRight c (entry x) (entry y) i := by
  simp only [Tellable, List.mem_cons, List.not_mem_nil, or_false, forall_eq_or_imp, forall_eq]
    at told
  obtain ⟨hinX, hinY, houtX, houtY, hkx, hky, hkz, hkw, hpad, hstride, hbatch⟩ := told
  have h3 : o.extent 3 = .ok c.inX := extent_at ho rfl hinX
  have h4 : o.extent 4 = .ok c.inY := extent_at ho rfl hinY
  have h5 : o.extent 5 = .ok c.outX := extent_at ho rfl houtX
  have h6 : o.extent 6 = .ok c.outY := extent_at ho rfl houtY
  have h7 : o.extent 7 = .ok c.k.x := extent_at ho rfl hkx
  have h8 : o.extent 8 = .ok c.k.y := extent_at ho rfl hky
  have h9 : o.extent 9 = .ok c.k.z := extent_at ho rfl hkz
  have h10 : o.extent 10 = .ok c.k.w := extent_at ho rfl hkw
  have h11 : o.extent 11 = .ok c.pad := extent_at ho rfl hpad
  have h12 : o.extent 12 = .ok c.stride := extent_at ho rfl hstride
  have h13 : o.extent 13 = .ok c.batch := extent_at ho rfl hbatch
  simp only [convolutionWeightGrad, h3, h4, h5, h6, h7, h8, h9, h10, h11, h12, h13, Except.ok_bind,
    Except.bind_ok_iff, Except.pure_ok_iff] at h
  obtain ⟨out, hout, a, ha, b, hb, data, hdata, rfl⟩ := h
  obtain ⟨rfl, -⟩ := words_eq ho rfl hout
  obtain ⟨rfl, -⟩ := words_eq ho rfl ha
  obtain ⟨rfl, -⟩ := words_eq ho rfl hb
  refine ⟨data, rfl, updateFirst_adds hdata fun q hq new hnew => ?_⟩
  simp only [Except.bind_ok_iff, Except.pure_ok_iff] at hnew
  obtain ⟨v, hv, rfl⟩ := hnew
  rw [sumOfProducts_entry hv]
  refine congrArg _ (sum_terms (fun p r => c.Live p q r) _ _ (kernelProducts_lt hq)
    fun p hp r hr => ?_)
  exact (adjoint fits.stride_pos).kernel p hp q hq r hr

theorem inputGrad_exact {old rotated : Array ℚ}
    (ho : o.args = [.words x, .words rotated, .words z, .scalar (.int c.outX),
      .scalar (.int c.outY), .scalar (.int c.k.x), .scalar (.int c.k.y), .scalar (.int c.k.w),
      .scalar (.int c.k.z), .scalar (.signed (c.k.x - 1 - c.pad)),
      .scalar (.signed (c.k.y - 1 - c.pad)), .scalar (.int c.stride), .scalar (.int c.inX),
      .scalar (.int c.inY), .scalar (.int c.batch)])
    (hrotated : Replaced c.k.size old (fun j _ => read y (rotationSource c.k j)) rotated)
    (h : convolutionAdd o = .ok ws) : ∃ data, ws = [(2, data)] ∧
      ∀ i, entry data i = entry z i + convolutionLeft c (entry y) (entry x) i := by
  simp only [Tellable, List.mem_cons, List.not_mem_nil, or_false, forall_eq_or_imp, forall_eq]
    at told
  obtain ⟨hinX, hinY, houtX, houtY, hkx, hky, hkz, hkw, hpad, hstride, hbatch⟩ := told
  have h3 : o.extent 3 = .ok c.outX := extent_at ho rfl houtX
  have h4 : o.extent 4 = .ok c.outY := extent_at ho rfl houtY
  have h5 : o.extent 5 = .ok c.k.x := extent_at ho rfl hkx
  have h6 : o.extent 6 = .ok c.k.y := extent_at ho rfl hky
  have h7 : o.extent 7 = .ok c.k.w := extent_at ho rfl hkw
  have h8 : o.extent 8 = .ok c.k.z := extent_at ho rfl hkz
  have h9 : o.int 9 = .ok (c.k.x - 1 - c.pad) := int_at ho rfl (by omega)
  have h10 : o.int 10 = .ok (c.k.y - 1 - c.pad) := int_at ho rfl (by omega)
  have h11 : o.extent 11 = .ok c.stride := extent_at ho rfl hstride
  have h12 : o.extent 12 = .ok c.inX := extent_at ho rfl hinX
  have h13 : o.extent 13 = .ok c.inY := extent_at ho rfl hinY
  have h14 : o.extent 14 = .ok c.batch := extent_at ho rfl hbatch
  have hdivisor : divisor (max c.stride 1) = .ok (max c.stride 1) :=
    divisor_of_pos (Nat.lt_of_lt_of_le Nat.one_pos (le_max_right ..))
  simp only [convolutionAdd, h3, h4, h5, h6, h7, h8, h9, h10, h11, h12, h13, h14, hdivisor,
    Except.ok_bind, Except.bind_ok_iff, Except.pure_ok_iff] at h
  obtain ⟨out, hout, a, ha, b, hb, data, hdata, rfl⟩ := h
  obtain ⟨rfl, -⟩ := words_eq ho rfl hout
  obtain ⟨rfl, -⟩ := words_eq ho rfl ha
  obtain ⟨rfl, -⟩ := words_eq ho rfl hb
  refine ⟨data, rfl, updateFirst_adds hdata fun p hp new hnew => ?_⟩
  simp only [Except.bind_ok_iff, Except.pure_ok_iff] at hnew
  obtain ⟨v, hv, rfl⟩ := hnew
  have hread : sumOfProducts a b (c.rotatedProducts p) = sumOfProducts a y (c.inputProducts p) := by
    refine sumOfProducts_reindex fun t ht => ?_
    obtain ⟨_, new, -, hnew, hget⟩ := hrotated.2 t.2 (rotatedProducts_lt hp t ht)
    exact (read_ok_iff.mpr hget).trans hnew.symm
  have hv : sumOfProducts a b (c.rotatedProducts p) = .ok v := hv
  rw [sumOfProducts_entry (hread.symm.trans hv)]
  refine congrArg _ (sum_terms (fun r q => c.Live p q r) _ _ (inputProducts_bounds hp)
    fun r hr q hq => ?_)
  exact (adjoint fits.stride_pos).input p hp q hq r hr

omit [Inexact] fits in
theorem rotate_exact
    (ho : o.args = [.words y, .words z, .scalar (.int c.k.x), .scalar (.int c.k.y),
      .scalar (.int c.k.z), .scalar (.int c.k.w)])
    (h : rotateAndReorder o = .ok ws) : ∃ data, ws = [(1, data)] ∧
      Replaced c.k.size z (fun j _ => read y (rotationSource c.k j)) data := by
  have hkernel := h
  simp only [Tellable, List.mem_cons, List.not_mem_nil, or_false, forall_eq_or_imp, forall_eq]
    at told
  obtain ⟨-, -, -, -, hkx, hky, hkz, hkw, -⟩ := told
  have h2 : o.extent 2 = .ok c.k.x := extent_at ho rfl hkx
  have h3 : o.extent 3 = .ok c.k.y := extent_at ho rfl hky
  have h4 : o.extent 4 = .ok c.k.z := extent_at ho rfl hkz
  have h5 : o.extent 5 = .ok c.k.w := extent_at ho rfl hkw
  simp only [rotateAndReorder, h2, h3, h4, h5, Except.ok_bind, Except.bind_ok_iff,
    Except.pure_ok_iff] at h
  obtain ⟨out, hout, a, ha, -⟩ := h
  obtain ⟨rfl, -⟩ := words_eq ho rfl hout
  obtain ⟨rfl, -⟩ := words_eq ho rfl ha
  exact (rotateAndReorder_replaces h2 h3 h4 h5 hout ha).replaced ws hkernel

end Convolution

end Backprop.Kernel
