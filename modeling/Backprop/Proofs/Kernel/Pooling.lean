import Mathlib
import Backprop.Proofs.Kernel.Batch

/-! The gradient of a pooled cell goes to one cell of its window, the one whose value the cell
has taken, and nowhere when the window has left the image. -/

namespace Backprop

variable {α : Type}

theorem Operands.extent_moved {o o' : Operands α} {i i' n : Nat} (hi : o'.args[i']? = o.args[i]?)
    (h : o.extent i = .ok n) : o'.extent i' = .ok n := by
  simp only [extent, int, Except.bind_ok_iff, get_ok_iff] at h ⊢
  obtain ⟨v, ⟨x, hx, hv⟩, hn⟩ := h
  refine ⟨v, ⟨x, hi.trans hx, ?_⟩, ?_⟩
  · rcases x with data | (v | v | v) | bytes
    all_goals first | exact hv | cases hv
  · by_cases hneg : v < 0
    · rw [if_pos hneg] at hn
      cases hn
    · rw [if_neg hneg] at hn ⊢
      exact hn

namespace Kernel

namespace Pooling

variable {p : Pooling} {i j : Nat}

/-- Output cell `j` looks at input cell `i`. -/
structure Reaches (p : Pooling) (j i : Nat) : Prop where
  plane : i / p.inX / p.inY = j / p.outX / p.outY
  column : j % p.outX * p.stride ≤ i % p.inX ∧ i % p.inX < j % p.outX * p.stride + p.size
  row : j / p.outX % p.outY * p.stride ≤ i / p.inX % p.inY ∧
    i / p.inX % p.inY < j / p.outX % p.outY * p.stride + p.size

def cells (p : Pooling) (j : Nat) : List Nat :=
  p.window (j / p.outX / p.outY) (j % p.outX) (j / p.outX % p.outY)

/-- Output cells that look at input cell `i`, in the order in which its gradient is gathered. -/
def coverers (p : Pooling) (i : Nat) : List Nat :=
  (p.coveringCells (i % p.inX) (i / p.inX % p.inY)).map fun (ox, oy) =>
    (i / p.inX / p.inY * p.outY + oy) * p.outX + ox

theorem mem_windowAxis {position extent x : Nat} : x ∈ p.windowAxis position extent ↔
    (position * p.stride ≤ x ∧ x < position * p.stride + p.size) ∧ x < extent := by
  simp only [windowAxis, List.mem_range'_1]
  omega

theorem mem_covering {cell positions o : Nat} (hs : 0 < p.stride) :
    o ∈ p.covering cell positions ↔
      o < positions ∧ o * p.stride ≤ cell ∧ cell < o * p.stride + p.size := by
  have hfirst := ceilDiv_le_iff (a := cell + 1 - p.size) (o := o) hs
  have hlast : o < cell / p.stride + 1 ↔ o * p.stride ≤ cell := by
    rw [Nat.lt_succ_iff, Nat.le_div_iff_mul_le hs]
  simp only [covering, List.mem_range'_1]
  omega

theorem mem_cells (hj : j < p.outputCells) :
    i ∈ p.cells j ↔ i < p.inputCells ∧ p.Reaches j i := by
  have hplane := (Tiling.coordinates_lt hj).2.2
  by_cases hx : p.inX = 0
  · simp [cells, window, inputCells, hx]
  · simp only [cells, window, if_neg hx, List.mem_flatMap, List.mem_map, mem_windowAxis]
    constructor
    · rintro ⟨y, ⟨hrow, hy⟩, x, ⟨hcolumn, hx⟩, rfl⟩
      have hi : j / p.outX / p.outY * p.inX * p.inY + y * p.inX + x =
          (j / p.outX / p.outY * p.inY + y) * p.inX + x := by ring
      obtain ⟨hmx, hmy, hmp⟩ := Tiling.coordinates_div (k := j / p.outX / p.outY) hx hy
      rw [hi]
      exact ⟨Tiling.coordinates_bound hx hy hplane, hmp, by rwa [hmx], by rwa [hmy]⟩
    · rintro ⟨hi, hr⟩
      obtain ⟨hx, hy, -⟩ := Tiling.coordinates_lt hi
      refine ⟨i / p.inX % p.inY, ⟨hr.row, hy⟩, i % p.inX, ⟨hr.column, hx⟩, ?_⟩
      rw [← hr.plane]
      calc i / p.inX / p.inY * p.inX * p.inY + i / p.inX % p.inY * p.inX + i % p.inX
        _ = (i / p.inX / p.inY * p.inY + i / p.inX % p.inY) * p.inX + i % p.inX := by ring
        _ = i := Tiling.coordinates_mod ..

theorem mem_coverers (hs : 0 < p.stride) (hi : i < p.inputCells) :
    j ∈ p.coverers i ↔ j < p.outputCells ∧ p.Reaches j i := by
  have hplane := (Tiling.coordinates_lt hi).2.2
  simp only [coverers, coveringCells, List.mem_map, List.mem_flatMap, mem_covering hs]
  constructor
  · rintro ⟨⟨ox, oy⟩, ⟨y, ⟨hy, hrow⟩, x, ⟨hx, hcolumn⟩, he⟩, rfl⟩
    obtain ⟨rfl, rfl⟩ := Prod.mk.inj he
    obtain ⟨hmx, hmy, hmp⟩ := Tiling.coordinates_div (k := i / p.inX / p.inY) hx hy
    exact ⟨Tiling.coordinates_bound hx hy hplane, hmp.symm, by rwa [hmx], by rwa [hmy]⟩
  · rintro ⟨hj, hr⟩
    obtain ⟨hx, hy, -⟩ := Tiling.coordinates_lt hj
    refine ⟨(j % p.outX, j / p.outX % p.outY), ⟨_, ⟨hy, hr.row⟩, _, ⟨hx, hr.column⟩, rfl⟩, ?_⟩
    rw [hr.plane]
    exact Tiling.coordinates_mod ..

theorem nodup_coverers (hs : 0 < p.stride) (i : Nat) : (p.coverers i).Nodup := by
  have haxis : ∀ cell positions, (p.covering cell positions).Nodup := by
    intro cell positions
    exact List.nodup_range' ..
  have hcells : (p.coveringCells (i % p.inX) (i / p.inX % p.inY)).Nodup := by
    refine List.nodup_flatMap.mpr ⟨fun oy _ => ?_, ?_⟩
    · exact (haxis _ _).map fun ox ox' h => (Prod.mk.inj h).1
    · refine (haxis _ _).imp fun hne => ?_
      intro c hc hc'
      simp only [List.mem_map] at hc hc'
      obtain ⟨ox, -, rfl⟩ := hc
      obtain ⟨ox', -, he⟩ := hc'
      exact hne (Prod.mk.inj he).2.symm
  refine hcells.map_on ?_
  rintro ⟨ox, oy⟩ hc ⟨ox', oy'⟩ hc' he
  simp only [coveringCells, List.mem_flatMap, List.mem_map, mem_covering hs] at hc hc'
  obtain ⟨y, ⟨hy, -⟩, x, ⟨hx, -⟩, h⟩ := hc
  obtain ⟨y', ⟨hy', -⟩, x', ⟨hx', -⟩, h'⟩ := hc'
  obtain ⟨rfl, rfl⟩ := Prod.mk.inj h
  obtain ⟨rfl, rfl⟩ := Prod.mk.inj h'
  obtain ⟨hmx, hmy, -⟩ := Tiling.coordinates_div (k := i / p.inX / p.inY) hx hy
  obtain ⟨hmx', hmy', -⟩ := Tiling.coordinates_div (k := i / p.inX / p.inY) hx' hy'
  simp only at he
  rw [he] at hmx hmy
  rw [← hmx, ← hmy, hmx', hmy']

end Pooling

section

variable [Scalar α] {a : Array α}

theorem firstMax_from {l : List Nat} {b : Nat} (hb : b < a.size) (hl : ∀ i ∈ l, i < a.size) :
    ∃ m ∈ b :: l, l.foldlM (fun best i => do
      match best with
      | none => return some i
      | some b => return if Scalar.less (← read a b) (← read a i) then some i else best) (some b) =
      .ok (some m) := by
  induction l generalizing b with
  | nil => exact ⟨b, List.mem_cons_self, rfl⟩
  | cons i l ih =>
    have hi := hl i List.mem_cons_self
    have hrest : ∀ i ∈ l, i < a.size := fun i hi => hl i (List.mem_cons_of_mem _ hi)
    rw [List.foldlM_cons]
    simp only [read_of_lt hb, read_of_lt hi, Except.ok_bind]
    by_cases hless : Scalar.less a[b] a[i] = true
    · obtain ⟨m, hm, h⟩ := ih hi hrest
      refine ⟨m, List.mem_cons_of_mem _ hm, ?_⟩
      rw [if_pos hless]
      exact h
    · obtain ⟨m, hm, h⟩ := ih hb hrest
      refine ⟨m, ?_, ?_⟩
      · rcases List.mem_cons.mp hm with rfl | hm
        · exact List.mem_cons_self
        · exact List.mem_cons_of_mem _ (List.mem_cons_of_mem _ hm)
      · rw [if_neg hless]
        exact h

theorem firstMax_mem {l : List Nat} (hl : ∀ i ∈ l, i < a.size) (hne : l ≠ []) :
    ∃ m ∈ l, firstMax a l = .ok (some m) := by
  cases l with
  | nil => exact absurd rfl hne
  | cons b l =>
    exact firstMax_from (hl b List.mem_cons_self) fun i hi => hl i (List.mem_cons_of_mem _ hi)

end

namespace Pooling

variable [Scalar α] {p : Pooling} {i j : Nat} {input out dy : Array α}

/-- The cell of the window of output cell `j` whose value it takes, if it takes any. -/
def maximal? (p : Pooling) (input : Array α) (j : Nat) : Option Nat :=
  match firstMax input (p.cells j) with
  | .ok best => best
  | .error _ => none

def sources (p : Pooling) (input : Array α) (i : Nat) : List Nat :=
  (p.coverers i).filter fun j => p.maximal? input j = some i

def gathered (p : Pooling) (input dy : Array α) (i : Nat) : Except Error α :=
  (p.sources input i).foldlM (fun sum j => do return sum + (← read dy j)) 0

theorem firstMax_cells (hj : j < p.outputCells) (hin : p.inputCells ≤ input.size) :
    firstMax input (p.cells j) = .ok (p.maximal? input j) := by
  have hlt : ∀ i ∈ p.cells j, i < input.size := fun i hi =>
    ((mem_cells hj).mp hi).1.trans_le hin
  by_cases hnil : p.cells j = []
  · simp only [maximal?, hnil]
    rfl
  · obtain ⟨m, -, hm⟩ := firstMax_mem hlt hnil
    simp only [maximal?, hm]

theorem maximal?_eq_none (h : ∀ i < p.inputCells, ¬p.Reaches j i) (hj : j < p.outputCells) :
    p.maximal? input j = none := by
  have hnil : p.cells j = [] := by
    refine List.eq_nil_iff_forall_not_mem.mpr fun i hi => ?_
    obtain ⟨hi, hr⟩ := (mem_cells hj).mp hi
    exact h i hi hr
  simp only [maximal?, hnil]
  rfl

theorem maximal?_mem (hr : p.Reaches j i) (hi : i < p.inputCells) (hj : j < p.outputCells)
    (hin : p.inputCells ≤ input.size) :
    ∃ m < p.inputCells, p.Reaches j m ∧ p.maximal? input j = some m := by
  have hmem := (mem_cells hj).mpr ⟨hi, hr⟩
  obtain ⟨m, hm, hmax⟩ := firstMax_mem (a := input)
    (fun i hi => ((mem_cells hj).mp hi).1.trans_le hin) (List.ne_nil_of_mem hmem)
  obtain ⟨hlt, hr⟩ := (mem_cells hj).mp hm
  refine ⟨m, hlt, hr, ?_⟩
  simp only [maximal?, hmax]

theorem mem_sources (hs : 0 < p.stride) (hi : i < p.inputCells) : j ∈ p.sources input i ↔
    j < p.outputCells ∧ p.Reaches j i ∧ p.maximal? input j = some i := by
  simp only [sources, List.mem_filter, mem_coverers hs hi, decide_eq_true_eq, and_assoc]

theorem nodup_sources (hs : 0 < p.stride) : (p.sources input i).Nodup :=
  (nodup_coverers hs i).filter _

theorem gathered_eq (hs : 0 < p.stride) (hi : i < p.inputCells) (hin : p.inputCells ≤ input.size) :
    (p.coveringCells (i % p.inX) (i / p.inX % p.inY)).foldlM (fun sum (ox, oy) => do
      if (← firstMax input (p.window (i / p.inX / p.inY) ox oy)) = some i then
        return sum + (← read dy ((i / p.inX / p.inY * p.outY + oy) * p.outX + ox))
      else return sum) 0 = p.gathered input dy i := by
  rw [gathered, sources, coverers, List.foldlM_filter, List.foldlM_map]
  refine foldlM_congr (fun sum c hc => ?_) 0
  obtain ⟨ox, oy⟩ := c
  simp only [coveringCells, List.mem_flatMap, List.mem_map, mem_covering hs, Prod.mk.injEq] at hc
  obtain ⟨y, ⟨hy, -⟩, x, ⟨hx, -⟩, rfl, rfl⟩ := hc
  have hplane := (Tiling.coordinates_lt hi).2.2
  have hmax := firstMax_cells (Tiling.coordinates_bound hx hy hplane) hin
  obtain ⟨hmx, hmy, hmp⟩ := Tiling.coordinates_div (k := i / p.inX / p.inY) hx hy
  simp only [cells, hmx, hmy, hmp] at hmax
  simp only [hmax, Except.ok_bind, decide_eq_true_eq]

theorem gathered_succeeds (hs : 0 < p.stride) (hi : i < p.inputCells)
    (hdy : p.outputCells ≤ dy.size) : ∃ sum, p.gathered input dy i = .ok sum := by
  obtain ⟨sum, h, -⟩ := foldlM_succeeds (P := fun _ => True)
    (f := fun sum j => do return sum + (← read dy j)) (l := p.sources input i) (s := 0) trivial
    fun s j hj _ => by
      have hlt := ((mem_sources hs hi).mp hj).1.trans_le hdy
      exact ⟨_, by rw [read_of_lt hlt]; rfl, trivial⟩
  exact ⟨sum, h⟩

theorem maximal?_lt {m : Nat} (hj : j < p.outputCells) (hin : p.inputCells ≤ input.size)
    (hmax : p.maximal? input j = some m) : m < p.inputCells := by
  by_cases hreach : ∃ i < p.inputCells, p.Reaches j i
  · obtain ⟨i, hi, hr⟩ := hreach
    obtain ⟨m', hm', -, hmax'⟩ := maximal?_mem hr hi hj hin
    rw [hmax'] at hmax
    cases hmax
    exact hm'
  · have hempty : ∀ i < p.inputCells, ¬p.Reaches j i := fun i hi hr => hreach ⟨i, hi, hr⟩
    rw [maximal?_eq_none hempty hj] at hmax
    cases hmax

theorem value_eq (hj : j < p.outputCells) (hin : p.inputCells ≤ input.size) :
    p.value input j = (p.maximal? input j).elim (.ok 0) (read input) := by
  have hmax := firstMax_cells hj hin
  rw [cells] at hmax
  rw [value, hmax]
  cases p.maximal? input j <;> rfl

theorem value_succeeds (hj : j < p.outputCells) (hin : p.inputCells ≤ input.size) :
    ∃ v, p.value input j = .ok v := by
  rw [value_eq hj hin]
  cases hmax : p.maximal? input j with
  | none => exact ⟨0, rfl⟩
  | some m =>
    have hlt := (maximal?_lt hj hin hmax).trans_le hin
    exact ⟨input[m], read_of_lt hlt⟩

/-- Where the gradients of the output cells go. -/
structure Routes (p : Pooling) (input out : Array α) : Prop where
  /-- A window with a cell of the image has one cell that gives the value and gets the gradient. -/
  taken : ∀ j < p.outputCells, (∃ i < p.inputCells, p.Reaches j i) →
    ∃ i < p.inputCells, p.Reaches j i ∧ (∃ v, input[i]? = some v ∧ out[j]? = some v) ∧
      ∀ i' < p.inputCells, (p.sources input i').count j = if i' = i then 1 else 0
  empty : ∀ j < p.outputCells, (∀ i < p.inputCells, ¬p.Reaches j i) →
    out[j]? = some 0 ∧ ∀ i < p.inputCells, (p.sources input i).count j = 0
  inside : ∀ i < p.inputCells, ∀ j ∈ p.sources input i, j < p.outputCells

theorem routes_of_replaced (hs : 0 < p.stride) (hin : p.inputCells ≤ input.size)
    {z : Array α} (h : Replaced p.outputCells z (fun j _ => p.value input j) out) :
    p.Routes input out := by
  refine ⟨fun j hj hreach => ?_, fun j hj hempty => ?_, fun i hi j hmem => ?_⟩
  · obtain ⟨i, hi, hr⟩ := hreach
    obtain ⟨m, hm, hr, hmax⟩ := maximal?_mem hr hi hj hin
    obtain ⟨old, v, -, hv, hout⟩ := h.2 j hj
    simp only [value_eq hj hin, hmax, Option.elim_some] at hv
    refine ⟨m, hm, hr, ⟨v, read_ok_iff.mp hv, hout⟩, fun i' hi' => ?_⟩
    by_cases he : i' = m
    · rw [if_pos he, he]
      exact List.count_eq_one_of_mem (nodup_sources hs) ((mem_sources hs hm).mpr ⟨hj, hr, hmax⟩)
    · rw [if_neg he, List.count_eq_zero, mem_sources hs hi', hmax]
      rintro ⟨-, -, h⟩
      exact he (Option.some.inj h).symm
  · have hmax : p.maximal? input j = none := maximal?_eq_none hempty hj
    obtain ⟨old, v, -, hv, hout⟩ := h.2 j hj
    simp only [value_eq hj hin, hmax] at hv
    cases hv
    refine ⟨hout, fun i hi => ?_⟩
    rw [List.count_eq_zero, mem_sources hs hi]
    exact fun h => hempty i hi h.2.1
  · exact ((mem_sources hs hi).mp hmem).1

omit [Scalar α] in
theorem stride_pos {o : Operands α} {first : Nat} (hp : ofOperands o first = .ok p) :
    0 < p.stride := by
  simp only [ofOperands, Except.bind_ok_iff] at hp
  obtain ⟨inX, -, inY, -, planes, -, stride, -, padX, -, padY, -, size, -, hp⟩ := hp
  cases hx : pooledExtent? inX size padX stride with
  | none => simp [hx, Except.throw_ok_iff] at hp
  | some outX =>
    cases hy : pooledExtent? inY size padY stride with
    | none => simp [hx, hy, Except.throw_ok_iff] at hp
    | some outY =>
      simp only [hx, hy, Except.bind_ok_iff, divisor_ok_iff, Except.pure_ok_iff] at hp
      obtain ⟨_, ⟨hpos, rfl⟩, rfl⟩ := hp
      exact hpos

omit [Scalar α] in
theorem ofOperands_shift {o o' : Operands α} {first : Nat}
    (hargs : ∀ k, o'.args[first + 1 + k]? = o.args[first + k]?) (hp : ofOperands o first = .ok p) :
    ofOperands o' (first + 1) = .ok p := by
  have hextent : ∀ {k n}, o.extent (first + k) = .ok n → o'.extent (first + 1 + k) = .ok n :=
    fun {k n} h => Operands.extent_moved (hargs k) h
  simp only [ofOperands, Except.bind_ok_iff] at hp
  obtain ⟨inX, h₀, inY, h₁, planes, h₂, stride, h₃, padX, h₄, padY, h₅, size, h₆, hp⟩ := hp
  simp only [ofOperands, hextent h₁, hextent h₂, hextent h₃, hextent h₄, hextent h₅, hextent h₆,
    hextent (k := 0) h₀, Except.ok_bind]
  exact hp

end Pooling

variable [Scalar α] {o o' : Operands α} {p : Pooling} {input out dy dx : Array α}
  {extents : List (Operand α)}

theorem maxPoolingGrad_gathers (hp : Pooling.ofOperands o 3 = .ok p)
    (hz : o.words 2 p.inputCells = .ok dx) (hx : o.words 0 p.inputCells = .ok input)
    (hy : o.words 1 p.outputCells = .ok dy) :
    Replaces maxPoolingGrad o 2 p.inputCells dx fun i old => do
      return old + (← p.gathered input dy i) := by
  have hin := Operands.size_words hx
  refine (maxPoolingGrad_replaces hp hz hx hy).of_entries fun i hi old => ?_
  simp only [Pooling.gathered_eq (Pooling.stride_pos hp) hi hin]

/-- For every image, the gradient of the maxima goes where the maxima have come from: both
kernels succeed, and cell `i` of the image gets the gradients of its `sources`. -/
theorem maxPooling_routes (ho : o.args = .words input :: .words out :: extents)
    (ho' : o'.args = .words input :: .words dy :: .words dx :: extents)
    (hp : Pooling.ofOperands o 2 = .ok p) (hin : p.inputCells ≤ input.size)
    (hout : p.outputCells ≤ out.size) (hdy : p.outputCells ≤ dy.size)
    (hdx : p.inputCells ≤ dx.size) :
    ∃ written gradient, maxPooling o = .ok [(1, written)] ∧
      maxPoolingGrad o' = .ok [(2, gradient)] ∧ p.Routes input written ∧
      Replaced p.inputCells dx (fun i old => do return old + (← p.gathered input dy i))
        gradient := by
  have hs := Pooling.stride_pos hp
  have hp' : Pooling.ofOperands o' 3 = .ok p := by
    refine Pooling.ofOperands_shift (fun k => ?_) hp
    rw [ho, ho', Nat.add_comm 2 k, Nat.add_comm (2 + 1) k]
    rfl
  have hforward := maxPooling_replaces hp (Operands.words_at ho rfl hout)
    (Operands.words_at ho rfl hin)
  have hbackward := maxPoolingGrad_gathers hp' (Operands.words_at ho' rfl hdx)
    (Operands.words_at ho' rfl hin) (Operands.words_at ho' rfl hdy)
  obtain ⟨ws, hws⟩ := hforward.total fun j hj _ => Pooling.value_succeeds hj hin
  obtain ⟨ws', hws'⟩ := hbackward.total fun i hi old => by
    obtain ⟨sum, hsum⟩ : ∃ sum, p.gathered input dy i = .ok sum :=
      Pooling.gathered_succeeds hs hi hdy
    exact ⟨old + sum, by rw [hsum]; rfl⟩
  obtain ⟨written, rfl, hwritten⟩ := hforward.replaced ws hws
  obtain ⟨gradient, rfl, hgradient⟩ := hbackward.replaced ws' hws'
  exact ⟨written, gradient, hws, hws', Pooling.routes_of_replaced hs hin hwritten, hgradient⟩

/-- Windows of two cells, of which the last has left the image of three. -/
theorem paired_maxPooling_routes :
    let p : Pooling := ⟨3, 1, 1, 2, 2, 3, 1⟩
    let launch : Launch := ⟨⟨3, 1, 1⟩, ⟨1, 1, 1⟩⟩
    let extents : List (Operand Binary32) := [3, 1, 1, 2, 3, 1, 2].map fun n => .scalar (.int32 n)
    let image : Array Binary32 := #[1, 1, Scalar.lowest]
    let out : Array Binary32 := #[1, 1, 1]
    let dy : Array Binary32 := #[1, Scalar.two, 1]
    let dx : Array Binary32 := #[0, 1, 0]
    ∃ written gradient,
      maxPooling ⟨.words image :: .words out :: extents, launch⟩ = .ok [(1, written)] ∧
      maxPoolingGrad ⟨.words image :: .words dy :: .words dx :: extents, launch⟩ =
        .ok [(2, gradient)] ∧
      p.Routes image written ∧
      Replaced p.inputCells dx (fun i old => do return old + (← p.gathered image dy i))
        gradient := by
  intro p launch extents image out dy dx
  exact maxPooling_routes rfl rfl rfl (by decide) (by decide) (by decide) (by decide)

end Kernel

end Backprop
