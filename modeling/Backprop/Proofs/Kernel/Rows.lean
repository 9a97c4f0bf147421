import Mathlib
import Backprop.Proofs.Kernel.Tiles

/-! The rows of a batch. A forward kernel works on each row by itself: what it makes of one row is
that row of what it makes of all of them. -/

namespace Backprop

variable {α : Type}

def rowOf (r b : Nat) (a : Array α) : Array α := a.extract (b * r) (b * r + r)

section

variable {r b B i : Nat} {a : Array α}

theorem getElem?_rowOf (hi : i < r) : (rowOf r b a)[i]? = a[b * r + i]? := by
  rw [rowOf, Array.getElem?_extract]
  split
  · rfl
  · next h =>
    rw [eq_comm, Array.getElem?_eq_none_iff]
    omega

theorem read_rowOf (hi : i < r) : read (rowOf r b a) i = read a (b * r + i) := by
  have h := getElem?_rowOf (a := a) (b := b) hi
  cases hx : a[b * r + i]? with
  | none =>
    rw [hx, Array.getElem?_eq_none_iff] at h
    rw [Array.getElem?_eq_none_iff] at hx
    unfold read
    rw [dif_neg (by omega), dif_neg (by omega)]
  | some x => rw [read_ok_iff.mpr hx, read_ok_iff.mpr (h.trans hx)]

theorem row_end_le (hb : b < B) : b * r + r ≤ r * B := by
  have h := Nat.mul_le_mul_right r hb
  rwa [Nat.succ_mul, Nat.mul_comm B] at h

theorem size_rowOf (hb : b < B) (hs : r * B ≤ a.size) : (rowOf r b a).size = r := by
  have h : b * r + r ≤ r * B := row_end_le hb
  rw [rowOf, Array.size_extract]
  omega

theorem rowOf_replicate {x : α} (hb : b < B) :
    rowOf r b (Array.replicate (r * B) x) = Array.replicate r x := by
  have h : b * r + r ≤ r * B := row_end_le hb
  rw [rowOf, Array.extract_replicate]
  congr 1
  omega

theorem eq_rowOf {a' : Array α} (hb : b < B) (hs : r * B ≤ a.size) (hs' : a'.size = r)
    (h : ∀ i < r, a'[i]? = a[b * r + i]?) : a' = rowOf r b a := by
  refine Array.ext_getElem? fun i => ?_
  by_cases hi : i < r
  · rw [h i hi, getElem?_rowOf hi]
  · rw [Array.getElem?_eq_none (by omega),
      Array.getElem?_eq_none (by rw [size_rowOf hb hs]; omega)]

end

namespace Kernel

/-- What the kernel makes of a row is the row of what it makes of all rows. -/
def RowWise (k : Kernel α) (o o' : Operands α) (i r b : Nat) : Prop :=
  ∀ data data', k o = .ok [(i, data)] → k o' = .ok [(i, data')] → data' = rowOf r b data

variable {o o' : Operands α} {k : Kernel α} {i n r b B : Nat} {x y z : Array α}

theorem Replaces.rowWise {f f' : Nat → α → Except Error α} (hb : b < B)
    (h : Replaces k o i (r * B) z f) (h' : Replaces k o' i r (rowOf r b z) f')
    (hs : z.size = r * B) (hf : ∀ j < r, ∀ old, f' j old = f (b * r + j) old) :
    RowWise k o o' i r b := by
  intro data data' hd hd'
  obtain ⟨_, heq, hsize, hall⟩ := h.replaced _ hd
  obtain ⟨_, heq', hsize', hall'⟩ := h'.replaced _ hd'
  cases heq
  cases heq'
  have hle : b * r + r ≤ r * B := row_end_le hb
  refine eq_rowOf hb (by omega) (hsize'.trans (size_rowOf hb (by omega))) fun j hj => ?_
  obtain ⟨old, new, hold, hnew, hdata⟩ := hall (b * r + j) (by omega)
  obtain ⟨old', new', hold', hnew', hdata'⟩ := hall' j hj
  rw [getElem?_rowOf hj, hold] at hold'
  cases hold'
  rw [hf j hj, hnew] at hnew'
  cases hnew'
  rw [hdata, hdata']

/-! ### Places in a row -/

theorem coordinates_row {x y z j : Nat} (hj : j < x * y * z) :
    (b * (x * y * z) + j) % x = j % x ∧ (b * (x * y * z) + j) / x % y = j / x % y ∧
      (b * (x * y * z) + j) / x / y = b * z + j / x / y := by
  obtain ⟨hx, hy, -⟩ := Tiling.coordinates_lt hj
  have hsplit : b * (x * y * z) + j = ((b * z + j / x / y) * y + j / x % y) * x + j % x := by
    have h := Tiling.coordinates_mod x y j
    linear_combination h.symm
  rw [hsplit]
  exact Tiling.coordinates_div hx hy

theorem transposeSource_row {rows cols planes : Nat} {j : Nat} (hj : j < rows * cols * planes) :
    transposeSource rows cols j < rows * cols * planes ∧
      transposeSource rows cols (b * (rows * cols * planes) + j) =
        b * (rows * cols * planes) + transposeSource rows cols j := by
  have hcell : 0 < rows * cols := Nat.pos_of_ne_zero fun h => by simp [h] at hj
  have hrows : 0 < rows := Nat.pos_of_mul_pos_right hcell
  have hplane : j / (rows * cols) < planes := by
    rwa [Nat.div_lt_iff_lt_mul hcell, Nat.mul_comm]
  have hcol : j % (rows * cols) / rows < cols := by
    rw [Nat.div_lt_iff_lt_mul hrows]
    exact (Nat.mod_lt _ hcell).trans_eq (Nat.mul_comm ..)
  have hshift : b * (rows * cols * planes) + j = rows * cols * (b * planes) + j := by ring
  unfold transposeSource
  refine ⟨?_, ?_⟩
  · have h := row_lt (row_lt hplane (Nat.mod_lt j hrows)) hcol
    rw [show planes * rows * cols = rows * cols * planes by ring] at h
    linarith
  · have hmod : (rows * cols * (b * planes) + j) % rows = j % rows := by
      rw [Nat.mul_assoc, Nat.mul_add_mod]
    rw [hshift, Nat.mul_add_div hcell, Nat.mul_add_mod, hmod]
    ring

section

variable {t t' : Tiling} {planes d : Nat}

theorem Tiling.source_row (hrow : t' = { t with planes })
    (hd : d < t.tileX * t.tileY * planes) :
    (t.Lies (b * (t.tileX * t.tileY * planes) + d) ↔ t'.Lies d) ∧
      t.source (b * (t.tileX * t.tileY * planes) + d) =
        b * (t.imageX * t.imageY * planes) + t'.source d := by
  obtain ⟨hx, hy, hp⟩ := coordinates_row (b := b) hd
  subst hrow
  unfold Lies source
  rw [hx, hy, hp]
  refine ⟨Iff.rfl, ?_⟩
  change _ = _ + ((_ * t.imageY + (t.originY + _)) * t.imageX + (t.originX + _))
  ring

end

variable [Scalar α]

theorem dotProduct_row {rows j k' p : Nat} (hj : j < rows) :
    dotProduct (rowOf (rows * k') b x) y n k' j p = dotProduct x y n k' (b * rows + j) p := by
  refine loop_congr _ fun q sum hq => ?_
  rw [read_rowOf (row_lt hj hq)]
  have hindex : b * (rows * k') + (j * k' + q) = (b * rows + j) * k' + q := by ring
  rw [hindex]

theorem rowScale_row {cols : Nat} : rowScale (rowOf cols b x) 0 cols = rowScale x (b * cols) cols := by
  have hread : ∀ j < cols, read (rowOf cols b x) (0 + j) = read x (b * cols + j) := by
    intro j hj
    rw [Nat.zero_add, read_rowOf hj]
  have hmax : rowMax (rowOf cols b x) 0 cols = rowMax x (b * cols) cols :=
    loop_congr _ fun j best hj => by rw [hread j hj]
  unfold rowScale
  rw [hmax]
  congr 1
  funext top
  congr 1
  exact loop_congr _ fun j sum hj => by rw [hread j hj]

theorem sumOfProducts_row {terms : List (Option Nat × Nat)}
    (h : ∀ t ∈ terms, ∀ j, t.1 = some j → j < r) :
    sumOfProducts (rowOf r b x) y terms =
      sumOfProducts x y (terms.map fun t => (t.1.map (b * r + ·), t.2)) := by
  unfold sumOfProducts
  rw [List.foldlM_map]
  refine foldlM_congr (fun sum t ht => ?_) 0
  obtain ⟨_ | j, q⟩ := t
  · rfl
  · simp only [Option.map_some, read_rowOf (h _ ht j rfl)]

omit [Scalar α] in
theorem Planes.cell?_row {p : Planes} {c : Nat} {cy cx : Int} (hc : c < p.z) :
    p.cell? b c cy cx = (p.cell? 0 c cy cx).map (b * (p.x * p.y * p.z) + ·) ∧
      ∀ j, p.cell? 0 c cy cx = some j → j < p.x * p.y * p.z := by
  unfold cell?
  split
  · exact ⟨rfl, nofun⟩
  · next h =>
    refine ⟨?_, fun j hj => ?_⟩
    · simp only [Option.map_some, Option.some.injEq]
      ring
    · cases hj
      have hy : cy.toNat < p.y := by omega
      have hx : cx.toNat < p.x := by omega
      rw [Nat.zero_mul, Nat.zero_add]
      exact Tiling.coordinates_bound hx hy hc

omit [Scalar α] in
theorem convolutionTerms_row {input : Planes} {e : KernelExtents}
    (pad stride ox oy channel b : Nat) (hz : input.z = e.z) :
    convolutionTerms input e pad stride ox oy channel b =
        (convolutionTerms input e pad stride ox oy channel 0).map
          (fun t => (t.1.map (b * (input.x * input.y * input.z) + ·), t.2)) ∧
      ∀ t ∈ convolutionTerms input e pad stride ox oy channel 0, ∀ j, t.1 = some j →
        j < input.x * input.y * input.z := by
  unfold convolutionTerms
  split
  · exact ⟨rfl, by simp⟩
  · refine ⟨?_, fun t ht j hj => ?_⟩
    · simp only [List.map_flatMap, List.map_map]
      refine List.flatMap_congr fun c hc => List.flatMap_congr fun cy _ => List.map_congr_left
        fun cx _ => ?_
      rw [List.mem_range, ← hz] at hc
      exact congrArg (·, e.index channel c cy cx) (Planes.cell?_row hc).1
    · simp only [List.mem_flatMap, List.mem_map, List.mem_range] at ht
      obtain ⟨c, hc, cy, -, cx, -, rfl⟩ := ht
      exact (Planes.cell?_row (b := 0) (hz ▸ hc)).2 j hj

theorem Pooling.window_row {p p' : Pooling} {planes plane : Nat} (ox oy b : Nat)
    (hp : p' = { p with planes }) (hplane : plane < planes) :
    p.window (b * planes + plane) ox oy =
        (p'.window plane ox oy).map (b * (p.inX * p.inY * planes) + ·) ∧
      ∀ j ∈ p'.window plane ox oy, j < p.inX * p.inY * planes := by
  subst hp
  unfold window
  simp only
  split
  · exact ⟨rfl, by simp⟩
  · refine ⟨?_, fun j hj => ?_⟩
    · simp only [List.map_flatMap, List.map_map]
      refine List.flatMap_congr fun y _ => List.map_congr_left fun x _ => ?_
      simp only [Function.comp_apply]
      ring
    · simp only [List.mem_flatMap, List.mem_map, windowAxis, List.mem_range'_1] at hj
      obtain ⟨y, hy, x, hx, rfl⟩ := hj
      have h := Tiling.coordinates_bound (i := x) (j := y) (x := p.inX) (y := p.inY) (by omega)
        (by omega) hplane
      linarith

def betterCell (a : Array α) (best : Option Nat) (i : Nat) : Except Error (Option Nat) := do
  match best with
  | none => return some i
  | some b => return if Scalar.less (← read a b) (← read a i) then some i else best

theorem betterCell_row {best : Option Nat} {j : Nat} (hbest : ∀ c, best = some c → c < r)
    (hj : j < r) :
    betterCell x (best.map (b * r + ·)) (b * r + j) =
        (betterCell (rowOf r b x) best j).map (Option.map (b * r + ·)) ∧
      ∀ c, betterCell (rowOf r b x) best j = .ok (some c) → c < r := by
  cases best with
  | none =>
    refine ⟨rfl, fun c hc => ?_⟩
    cases hc
    exact hj
  | some c =>
    simp only [betterCell, Option.map_some, read_rowOf hj, read_rowOf (hbest c rfl)]
    cases read x (b * r + c) with
    | error e => exact ⟨rfl, nofun⟩
    | ok u =>
      cases read x (b * r + j) with
      | error e => exact ⟨rfl, nofun⟩
      | ok v =>
        simp only [Except.ok_bind, pure, Except.pure]
        split
        · exact ⟨rfl, fun c hc => by cases hc; exact hj⟩
        · exact ⟨rfl, fun c' hc => by cases hc; exact hbest _ rfl⟩

theorem firstMax_row {cells : List Nat} (h : ∀ j ∈ cells, j < r) :
    firstMax x (cells.map (b * r + ·)) =
        (firstMax (rowOf r b x) cells).map (Option.map (b * r + ·)) ∧
      ∀ j, firstMax (rowOf r b x) cells = .ok (some j) → j < r := by
  suffices hall : ∀ best : Option Nat, (∀ c, best = some c → c < r) →
      (cells.map (b * r + ·)).foldlM (betterCell x) (best.map (b * r + ·)) =
          (cells.foldlM (betterCell (rowOf r b x)) best).map (Option.map (b * r + ·)) ∧
        ∀ j, cells.foldlM (betterCell (rowOf r b x)) best = .ok (some j) → j < r from
    hall none nofun
  induction cells with
  | nil => exact fun best hbest => ⟨rfl, fun j hj => hbest j (by cases hj; rfl)⟩
  | cons j cells ih =>
    intro best hbest
    obtain ⟨heq, hlt⟩ := betterCell_row (x := x) (b := b) hbest (h j List.mem_cons_self)
    simp only [List.map_cons, List.foldlM_cons, heq]
    cases hstep : betterCell (rowOf r b x) best j with
    | error e => exact ⟨rfl, nofun⟩
    | ok best' =>
      exact ih (fun i hi => h i (List.mem_cons_of_mem _ hi)) best' fun c hc => hlt c (hc ▸ hstep)

end Kernel

end Backprop
