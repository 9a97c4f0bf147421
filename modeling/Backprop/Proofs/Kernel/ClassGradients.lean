import Mathlib
import Backprop.Proofs.Kernel.Batch
import Backprop.Proofs.Kernel.Entries
import Backprop.Proofs.Number.Exact

/-! The gradient of the cross entropy through a softmax, in exact arithmetic. What the loss hands
to the probability of the labelled class, and the product of the row, cancel to the difference
between the probabilities and the label. -/

namespace Backprop

theorem Operands.extent_lt {α : Type} {o : Operands α} {i n : Nat} (h : o.extent i = .ok n) :
    n < 2 ^ 31 := by
  have hbound : ∀ value, o.int i = .ok value → value < 2 ^ 31 := by
    intro value hv
    simp only [int, Except.bind_ok_iff] at hv
    obtain ⟨x, -, hx⟩ := hv
    split at hx
    · next v =>
      obtain rfl := Except.pure_ok_iff.mp hx
      exact Int32.toInt_lt v
    · next v =>
      obtain rfl := Except.pure_ok_iff.mp hx
      exact Int32.toInt_lt v.toInt32
    · cases hx
  simp only [extent, Except.bind_ok_iff] at h
  obtain ⟨value, hv, h⟩ := h
  have hlt := hbound value hv
  split at h
  · cases h
  · obtain rfl := Except.pure_ok_iff.mp h
    omega

theorem Operands.extent_congr {α : Type} {o o' : Operands α} {i : Nat}
    (h : o'.args[i]? = o.args[i]?) : o'.extent i = o.extent i := by
  rw [extent, extent, int, int, get, get, h]

theorem read_getD {α : Type} {a : Array α} {i : Nat} (h : i < a.size) (x : α) :
    read a i = .ok (a.getD i x) := by
  rw [read_of_lt h, Array.getD, dif_pos h]
  rfl

namespace Kernel

variable [Inexact] {o o' : Operands ℚ} {cols rows : Nat} {p labels x y z : Array ℚ}

theorem labelClass?_exact (hcols : cols < 2 ^ 31) (label : ℚ) :
    labelClass? label cols = if 0 ≤ label ∧ ⌊label⌋₊ < cols then some ⌊label⌋₊ else none := by
  rw [labelClass?, Exact.wholePart?_eq]
  by_cases hlabel : 0 ≤ label
  · have hsize : UInt64.size - 1 = 18446744073709551615 := rfl
    rw [if_pos hlabel, hsize]
    by_cases hlt : ⌊label⌋₊ < cols
    · rw [if_pos ⟨hlabel, hlt⟩]
      simp only
      rw [min_eq_left (by omega), if_pos hlt]
    · rw [if_neg fun h => hlt h.2]
      simp only
      rw [if_neg (by omega)]
  · rw [if_neg hlabel, if_neg fun h => hlabel h.1]

omit [Inexact] in
theorem loop_sum {f : Nat → ℚ} {step : Nat → ℚ → Except Error ℚ} {n : Nat} (start : ℚ)
    (h : ∀ i < n, ∀ sum, step i sum = .ok (sum + f i)) :
    loop n start step = .ok (start + ∑ i ∈ Finset.range n, f i) := by
  rw [loop_eq_foldlM]
  induction n with
  | zero => simp [pure, Except.pure]
  | succ n ih =>
    rw [List.range_succ, List.foldlM_append, ih fun i hi => h i (Nat.lt_succ_of_lt hi)]
    simp only [bind, Except.bind, List.foldlM_cons, List.foldlM_nil, h n (Nat.lt_succ_self n)]
    rw [Finset.sum_range_succ, add_assoc]
    rfl

theorem rowDot_exact {start : Nat} (hx : start + cols ≤ x.size) (hy : start + cols ≤ y.size) :
    rowDot x y start cols =
      .ok (∑ i ∈ Finset.range cols, x.getD (start + i) 0 * y.getD (start + i) 0) := by
  rw [rowDot, loop_sum (f := fun i => x.getD (start + i) 0 * y.getD (start + i) 0),
    Exact.emptySum_eq, zero_add]
  intro i hi sum
  rw [read_getD (by omega) 0, read_getD (by omega) 0]
  rfl

def classShare (p labels : Array ℚ) (cols rows r j : Nat) : ℚ :=
  if labelClass? (labels.getD r 0) cols = some j then
    -(1 / (rows * max (p.getD (r * cols + j) 0) (1 / 10 ^ 30)))
  else 0

theorem labelledEntry_exact {r j : Nat} (hp : cols * rows ≤ p.size) (hlabels : rows ≤ labels.size)
    (hr : r < rows) (hj : j < cols) (old : ℚ) :
    labelledEntry p labels cols rows r j old = .ok (old + classShare p labels cols rows r j) := by
  have hlt : r * cols + j < p.size := by
    have h := row_lt hr hj
    rw [Nat.mul_comm] at hp
    omega
  rw [labelledEntry, read_getD (hr.trans_le hlabels) 0, Except.ok_bind, classShare]
  by_cases hclass : labelClass? (labels.getD r 0) cols = some j
  · rw [if_pos hclass, if_pos hclass, read_getD hlt 0, Except.ok_bind,
      max_eq_left (Nat.one_le_of_lt hr), ← sub_eq_add_neg]
    rfl
  · rw [if_neg hclass, if_neg hclass, add_zero]
    rfl

theorem crossEntropyGrad_exact (hc : o.extent 3 = .ok cols) (hr : o.extent 4 = .ok rows)
    (hz : o.words 2 (cols * rows) = .ok z) (hp : o.words 0 (cols * rows) = .ok p)
    (hl : o.words 1 rows = .ok labels) :
    ∃ g, crossEntropyGrad o = .ok [(2, g)] ∧ g.size = z.size ∧ ∀ r < rows, ∀ j < cols,
      g.getD (r * cols + j) 0 =
        z.getD (r * cols + j) 0 + classShare p labels cols rows r j := by
  have hsize := Operands.size_words hp
  have hlabels := Operands.size_words hl
  have hentry : ∀ r < rows, ∀ j < cols, ∀ old, labelledEntry p labels cols rows r j old =
      .ok (old + classShare p labels cols rows r j) := fun r hr j hj =>
    labelledEntry_exact hsize hlabels hr hj
  obtain ⟨g, hg, hgsize, hall⟩ := (crossEntropyGrad_replaces hc hr hz hp hl).answers
    fun k hk old => by
      have hcols : 0 < cols := Nat.pos_of_mul_pos_left (Nat.zero_lt_of_lt hk)
      exact ⟨_, hentry _ ((Nat.div_lt_iff_lt_mul hcols).mpr hk) _ (Nat.mod_lt k hcols) old⟩
  refine ⟨g, hg, hgsize, fun r hr j hj => ?_⟩
  obtain ⟨old, new, hold, hnew, hentry'⟩ := hall (r * cols + j) (row_lt hr hj)
  simp only [row_div hj, row_mod hj, hentry r hr j hj, Except.ok.injEq] at hnew
  rw [Array.getD_eq_getD_getElem?, hentry', Array.getD_eq_getD_getElem?, hold, Option.getD_some,
    Option.getD_some, hnew]

theorem softmaxGrad_exact (hc : o.extent 3 = .ok cols) (hr : o.extent 4 = .ok rows)
    (hz : o.words 2 (cols * rows) = .ok z) (hx : o.words 0 (cols * rows) = .ok x)
    (hy : o.words 1 (cols * rows) = .ok y) :
    ∃ dx, softmaxGrad o = .ok [(2, dx)] ∧ dx.size = z.size ∧ ∀ r < rows, ∀ i < cols,
      dx.getD (r * cols + i) 0 = z.getD (r * cols + i) 0 + y.getD (r * cols + i) 0 *
        (x.getD (r * cols + i) 0 -
          ∑ j ∈ Finset.range cols, x.getD (r * cols + j) 0 * y.getD (r * cols + j) 0) := by
  have hxsize := Operands.size_words hx
  have hysize := Operands.size_words hy
  rw [Nat.mul_comm] at hxsize hysize
  have hentry : ∀ r < rows, ∀ i < cols, ∀ old : ℚ, (do
      let dot ← rowDot x y (r * cols) cols
      return old + (← read y (r * cols + i)) * ((← read x (r * cols + i)) - dot)) =
        Except.ok (old + y.getD (r * cols + i) 0 * (x.getD (r * cols + i) 0 -
          ∑ j ∈ Finset.range cols, x.getD (r * cols + j) 0 * y.getD (r * cols + j) 0)) := by
    intro r hr i hi old
    have hend : r * cols + cols ≤ rows * cols := by
      rw [← Nat.succ_mul]
      exact Nat.mul_le_mul_right cols hr
    rw [rowDot_exact (by omega) (by omega), read_getD (by omega) 0, read_getD (by omega) 0]
    rfl
  obtain ⟨dx, hdx, hsize, hall⟩ := (softmaxGrad_replaces hc hr hz hx hy).answers
    fun k hk old => by
      have hcols : 0 < cols := Nat.pos_of_mul_pos_left (Nat.zero_lt_of_lt hk)
      exact ⟨_, hentry _ ((Nat.div_lt_iff_lt_mul hcols).mpr hk) _ (Nat.mod_lt k hcols) old⟩
  refine ⟨dx, hdx, hsize, fun r hr i hi => ?_⟩
  obtain ⟨old, new, hold, hnew, hentry'⟩ := hall (r * cols + i) (row_lt hr hi)
  simp only [row_div hi, row_mod hi] at hnew
  rw [hentry r hr i hi, Except.ok.injEq] at hnew
  rw [Array.getD_eq_getD_getElem?, hentry', Array.getD_eq_getD_getElem?, hold, Option.getD_some,
    Option.getD_some, ← hnew]

theorem sum_classShare {g : Array ℚ} {r c : Nat}
    (hg : ∀ j < cols, g.getD (r * cols + j) 0 = classShare p labels cols rows r j)
    (hclass : labelClass? (labels.getD r 0) cols = some c) :
    ∑ j ∈ Finset.range cols, g.getD (r * cols + j) 0 * p.getD (r * cols + j) 0 =
      classShare p labels cols rows r c * p.getD (r * cols + c) 0 := by
  have hc := labelClass?_lt hclass
  rw [Finset.sum_eq_single_of_mem c (Finset.mem_range.mpr hc), hg c hc]
  intro j hj hne
  have hother : labelClass? (labels.getD r 0) cols ≠ some j := by
    rw [hclass]
    exact fun h => hne (Option.some.inj h).symm
  rw [hg j (Finset.mem_range.mp hj), classShare, if_neg hother, zero_mul]

theorem share_sub_product {g : Array ℚ} {r c i : Nat} (hr : r < rows) (hi : i < cols)
    (hg : ∀ j < cols, g.getD (r * cols + j) 0 = classShare p labels cols rows r j)
    (hclass : labelClass? (labels.getD r 0) cols = some c)
    (hfloor : 1 / 10 ^ 30 ≤ p.getD (r * cols + c) 0) :
    p.getD (r * cols + i) 0 * (g.getD (r * cols + i) 0 -
      ∑ j ∈ Finset.range cols, g.getD (r * cols + j) 0 * p.getD (r * cols + j) 0) =
        (p.getD (r * cols + i) 0 - if i = c then 1 else 0) / rows := by
  have hrows : (rows : ℚ) ≠ 0 := Nat.cast_ne_zero.mpr (Nat.ne_zero_of_lt hr)
  have hp : p.getD (r * cols + c) 0 ≠ 0 := by
    have hpos : (0 : ℚ) < 1 / 10 ^ 30 := by norm_num
    exact (hpos.trans_le hfloor).ne'
  have hshare : classShare p labels cols rows r c = -(1 / (rows * p.getD (r * cols + c) 0)) := by
    rw [classShare, if_pos hclass, max_eq_left hfloor]
  have hproduct : classShare p labels cols rows r c * p.getD (r * cols + c) 0 = -(1 / rows) := by
    rw [hshare]
    field_simp
  rw [sum_classShare hg hclass, hproduct, hg i hi]
  by_cases hic : i = c
  · subst hic
    rw [if_pos rfl, hshare]
    field_simp
    ring
  · have hother : labelClass? (labels.getD r 0) cols ≠ some i := by
      rw [hclass]
      exact fun h => hic (Option.some.inj h).symm
    rw [if_neg hic, classShare, if_neg hother]
    ring

theorem sum_unlabelled {g : Array ℚ} {r i : Nat} (hi : i < cols)
    (hg : ∀ j < cols, g.getD (r * cols + j) 0 = classShare p labels cols rows r j)
    (hclass : labelClass? (labels.getD r 0) cols = none) :
    g.getD (r * cols + i) 0 -
      ∑ j ∈ Finset.range cols, g.getD (r * cols + j) 0 * p.getD (r * cols + j) 0 = 0 := by
  have hzero : ∀ j < cols, g.getD (r * cols + j) 0 = 0 := fun j hj => by
    rw [hg j hj, classShare, hclass, if_neg nofun]
  rw [hzero i hi, Finset.sum_eq_zero fun j hj => ?_, sub_zero]
  rw [hzero j (Finset.mem_range.mp hj), zero_mul]

/-- The gradient of the cross entropy, made in a buffer of zeros and taken through the gradient of
the softmax. In a row whose label names a class that is not improbable it adds the probabilities
less one for that class, as shares of the rows; in a row whose label names no class it adds
nothing. -/
theorem softmaxGrad_of_crossEntropyGrad {zeros dx : Array ℚ} {extents : List (Operand ℚ)}
    (ho : o.args = .words p :: .words labels :: .words zeros :: extents)
    (hc : o.extent 3 = .ok cols) (hr : o.extent 4 = .ok rows) (hp : cols * rows ≤ p.size)
    (hlabels : rows ≤ labels.size) (hzeros : cols * rows ≤ zeros.size)
    (zeroed : ∀ k < cols * rows, zeros.getD k 0 = 0) (hdx : cols * rows ≤ dx.size)
    (launch : Launch) :
    ∃ g dx', crossEntropyGrad o = .ok [(2, g)] ∧
      softmaxGrad ⟨.words g :: .words p :: .words dx :: extents, launch⟩ = .ok [(2, dx')] ∧
      dx'.size = dx.size ∧ ∀ r < rows, ∀ i < cols,
        (0 ≤ labels.getD r 0 → ⌊labels.getD r 0⌋₊ < cols →
          1 / 10 ^ 30 ≤ p.getD (r * cols + ⌊labels.getD r 0⌋₊) 0 →
          dx'.getD (r * cols + i) 0 = dx.getD (r * cols + i) 0 +
            (p.getD (r * cols + i) 0 - if i = ⌊labels.getD r 0⌋₊ then 1 else 0) / rows) ∧
        (labels.getD r 0 < 0 ∨ cols ≤ labels.getD r 0 →
          dx'.getD (r * cols + i) 0 = dx.getD (r * cols + i) 0 + 0) := by
  have hclasses := labelClass?_exact (Operands.extent_lt hc)
  obtain ⟨g, hg, hsize, hentries⟩ := crossEntropyGrad_exact hc hr
    (Operands.words_at ho rfl hzeros) (Operands.words_at ho rfl hp)
    (Operands.words_at ho rfl hlabels)
  have hext : ∀ i, (⟨.words g :: .words p :: .words dx :: extents, launch⟩ :
      Operands ℚ).extent (i + 3) = o.extent (i + 3) := fun i =>
    Operands.extent_congr (by rw [ho]; rfl)
  obtain ⟨dx', hdx', hsize', hall⟩ := softmaxGrad_exact ((hext 0).trans hc) ((hext 1).trans hr)
    (Operands.words_at rfl rfl hdx) (Operands.words_at rfl rfl (hsize ▸ hzeros))
    (Operands.words_at rfl rfl hp)
  refine ⟨g, dx', hg, hdx', hsize', fun r hrow i hi => ?_⟩
  have hgradient : ∀ j < cols, g.getD (r * cols + j) 0 = classShare p labels cols rows r j := by
    intro j hj
    have hlt := row_lt hrow hj
    rw [hentries r hrow j hj, zeroed _ (hlt.trans_eq (Nat.mul_comm ..)), zero_add]
  rw [hall r hrow i hi]
  constructor
  · intro hlabel hclass hfloor
    have hc : labelClass? (labels.getD r 0) cols = some ⌊labels.getD r 0⌋₊ := by
      rw [hclasses, if_pos ⟨hlabel, hclass⟩]
    rw [share_sub_product hrow hi hgradient hc hfloor]
  · intro hlabel
    have hc : labelClass? (labels.getD r 0) cols = none := by
      rw [hclasses, if_neg]
      rintro ⟨hnonneg, hlt⟩
      rcases hlabel with hneg | hbeyond
      · exact hneg.not_ge hnonneg
      · exact ((Nat.floor_lt hnonneg).mp hlt).not_ge hbeyond
    rw [sum_unlabelled hi hgradient hc, mul_zero]

/-- Stand-ins for functions that no gradient asks for. -/
@[reducible] def noFunctions : Inexact := ⟨fun _ => 0, fun _ => 0, fun _ => 0, fun _ => 0, 0⟩

omit [Inexact] in
/-- Two rows of three classes, of which the second has no label. -/
theorem halfLabelled_softmaxGrad :
    letI : Inexact := noFunctions
    let p : Array ℚ := #[1 / 5, 3 / 10, 1 / 2, 1 / 4, 1 / 4, 1 / 2]
    let labels : Array ℚ := #[2, -1]
    let dx : Array ℚ := #[1, 1, 1, 1, 1, 1]
    let launch : Launch := ⟨⟨2, 1, 1⟩, ⟨1, 1, 1⟩⟩
    let extents : List (Operand ℚ) := [.scalar (.int32 3), .scalar (.int32 2)]
    ∃ g dx', crossEntropyGrad
        ⟨.words p :: .words labels :: .words (.replicate 6 0) :: extents, launch⟩ =
          .ok [(2, g)] ∧
      softmaxGrad ⟨.words g :: .words p :: .words dx :: extents, launch⟩ = .ok [(2, dx')] ∧
      dx'.getD 2 0 = 1 + (1 / 2 - 1) / 2 ∧ dx'.getD 5 0 = 1 + 0 := by
  let _ : Inexact := noFunctions
  intro p labels dx launch extents
  have hzeroed : ∀ k < 3 * 2, (Array.replicate 6 (0 : ℚ)).getD k 0 = 0 := by decide
  have hc : (⟨.words p :: .words labels :: .words (.replicate 6 0) :: extents, launch⟩ :
      Operands ℚ).extent 3 = .ok 3 := rfl
  have hr : (⟨.words p :: .words labels :: .words (.replicate 6 0) :: extents, launch⟩ :
      Operands ℚ).extent 4 = .ok 2 := rfl
  have hdx : 3 * 2 ≤ dx.size := by decide
  obtain ⟨g, dx', hg, hdx', -, hall⟩ := softmaxGrad_of_crossEntropyGrad rfl hc hr
    (by decide) (by decide) (by decide) hzeroed hdx launch
  have hclass : ⌊labels.getD 0 0⌋₊ = 2 := Nat.floor_natCast 2
  have hfirst := (hall 0 (by decide) 2 (by decide)).1 (by decide)
  have hsecond := (hall 1 (by decide) 2 (by decide)).2 (.inl (by decide))
  rw [hclass] at hfirst
  exact ⟨g, dx', hg, hdx', hfirst (by decide) (by decide +kernel), hsecond⟩

end Kernel

end Backprop
