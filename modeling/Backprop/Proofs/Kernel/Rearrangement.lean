import Mathlib
import Backprop.Proofs.Kernel.ConvolutionProducts
import Backprop.Proofs.Kernel.Rows

/-! Kernels that only move entries. The rotation of a convolution kernel and the transposition of
planes write each entry of their output once, and each of them takes back what it has done when
two of its extents change places. -/

namespace Backprop

variable {α β : Type}

theorem flatMap_range_mul (m n : Nat) (f : Nat → List β) :
    (List.range (m * n)).flatMap f =
      (List.range m).flatMap fun r => (List.range n).flatMap fun i => f (r * n + i) := by
  induction m with
  | zero => simp
  | succ m ih =>
    rw [Nat.succ_mul, List.range_add, List.flatMap_append, ih, List.range_succ,
      List.flatMap_append, List.flatMap_singleton, List.flatMap_map]

theorem map_range_mul (m n : Nat) (f : Nat → β) :
    (List.range (m * n)).map f =
      (List.range m).flatMap fun r => (List.range n).map fun i => f (r * n + i) := by
  simp only [List.map_eq_flatMap]
  exact flatMap_range_mul m n fun i => [f i]

namespace Kernel

/-! ### Moves -/

variable {moves : List (Nat × Nat)} {x z data : Array α} {n : Nat} {source target : Nat → Nat}

/-- Two maps of the indices below `n` of which each undoes the other. -/
structure Inverse (n : Nat) (source target : Nat → Nat) : Prop where
  source_lt : ∀ j < n, source j < n
  target_lt : ∀ i < n, target i < n
  source_target : ∀ i < n, source (target i) = i
  target_source : ∀ j < n, target (source j) = j

theorem Inverse.perm (h : Inverse n source target) :
    ((List.range n).map target).Perm (List.range n) := by
  have hnodup : ((List.range n).map target).Nodup := by
    refine List.Nodup.map_on (fun i hi i' hi' he => ?_) List.nodup_range
    rw [← h.source_target i (List.mem_range.mp hi), he, h.source_target i' (List.mem_range.mp hi')]
  refine (List.perm_ext_iff_of_nodup hnodup List.nodup_range).mpr fun j => ?_
  simp only [List.mem_map, List.mem_range]
  constructor
  · rintro ⟨i, hi, rfl⟩
    exact h.target_lt i hi
  · exact fun hj => ⟨source j, h.source_lt j hj, h.target_source j hj⟩

/-- To write each entry where it goes is to fetch for each place what comes there. -/
theorem updateFirst_eq_carryOut (h : Inverse n source target) (hx : n ≤ x.size) (hz : n ≤ z.size) :
    updateFirst n z (fun j _ => read x (source j)) =
      carryOut ((List.range n).map fun i => (target i, i)) x z := by
  obtain ⟨fetched, hfetched⟩ := updateFirst_succeeds (f := fun j _ => read x (source j)) hz
    fun j hj _ => ⟨_, read_of_lt ((h.source_lt j hj).trans_le hx)⟩
  have hinside : ∀ m ∈ (List.range n).map fun i => (target i, i),
      m.1 < z.size ∧ ∃ new, read x m.2 = .ok new := by
    intro m hm
    obtain ⟨i, hi, rfl⟩ := List.mem_map.mp hm
    have hi := List.mem_range.mp hi
    exact ⟨(h.target_lt i hi).trans_le hz, _, read_of_lt (hi.trans_le hx)⟩
  obtain ⟨carried, hcarried⟩ := carryOut_succeeds hinside
  obtain ⟨-, hdone, hrest⟩ := updateSpan_entries hfetched
  obtain ⟨-, hrest', hdone'⟩ := carryOut_entries (by
    rw [List.map_map]
    exact h.perm.nodup_iff.mpr List.nodup_range) hcarried
  rw [hfetched, hcarried]
  congr 1
  refine Array.ext_getElem? fun j => ?_
  by_cases hj : j < n
  · obtain ⟨-, new, -, hnew, hget⟩ := hdone j hj
    rw [Nat.zero_add] at hget
    obtain ⟨new', hnew', hget'⟩ := hdone' (target (source j), source j)
      (List.mem_map_of_mem (List.mem_range.mpr (h.source_lt j hj)))
    rw [h.target_source j hj] at hget'
    cases hnew.symm.trans hnew'
    rw [hget, hget']
  · rw [hrest j (by omega), hrest' j]
    intro m hm
    obtain ⟨i, hi, rfl⟩ := List.mem_map.mp hm
    have hlt := h.target_lt i (List.mem_range.mp hi)
    intro he
    omega

/-- Whatever the arrays hold, operands as in `asked` make the kernel move the first `n` entries of
one array to the first `n` places of another, and operands as in `undoing` make it move them back. -/
structure Reversible (k : Kernel α) (n : Nat) (moves : List (Nat × Nat))
    (asked undoing : Operands α → Array α → Array α → Prop) : Prop where
  /-- Each place is written once. -/
  places : (moves.map Prod.fst).Perm (List.range n)
  /-- Each entry is read once. -/
  entries : (moves.map Prod.snd).Perm (List.range n)
  carries : ∀ o x z, asked o x z →
    ∃ data, k o = .ok [(1, data)] ∧ carryOut moves x z = .ok data
  restores : ∀ o x z data, asked o x z → k o = .ok [(1, data)] →
    ∀ o' z', undoing o' data z' →
      ∃ restored, k o' = .ok [(1, restored)] ∧ ∀ i < n, restored[i]? = x[i]?

/-- The kernel fetches the first `n` entries of an output from an array of as many. -/
def Fetches (k : Kernel α) (o : Operands α) (n : Nat) (source : Nat → Nat) (x z : Array α) : Prop :=
  n ≤ x.size ∧ n ≤ z.size ∧
    k o = updateFirst n z (fun j _ => read x (source j)) >>= fun data => pure [(1, data)]

theorem Fetches.entries {k : Kernel α} {o : Operands α} (h : Fetches k o n source x z)
    (hk : k o = .ok [(1, data)]) : ∀ j < n, data[j]? = x[source j]? := by
  obtain ⟨-, hz, hfetch⟩ := h
  obtain ⟨_, heq, -, hentries⟩ := (Replaces.of_update hfetch hz).replaced _ hk
  cases heq
  intro j hj
  obtain ⟨_, new, -, hnew, hdata⟩ := hentries j hj
  rw [hdata, read_ok_iff.mp hnew]

theorem Fetches.answers {k : Kernel α} {o : Operands α} (h : Fetches k o n source x z)
    (source_lt : ∀ j < n, source j < n) : ∃ data, k o = .ok [(1, data)] ∧ data.size = z.size := by
  obtain ⟨hx, hz, hfetch⟩ := h
  obtain ⟨data, hdata, hsize, -⟩ := (Replaces.of_update hfetch hz).answers fun j hj _ =>
    ⟨_, read_of_lt ((source_lt j hj).trans_le hx)⟩
  exact ⟨data, hdata, hsize⟩

theorem Fetches.carries {k : Kernel α} {o : Operands α} (h : Fetches k o n source x z)
    (inverse : Inverse n source target) : ∃ data, k o = .ok [(1, data)] ∧
      carryOut ((List.range n).map fun i => (target i, i)) x z = .ok data := by
  obtain ⟨data, hdata, -⟩ := h.answers inverse.source_lt
  refine ⟨data, hdata, ?_⟩
  obtain ⟨hx, hz, hfetch⟩ := h
  rw [hfetch, updateFirst_eq_carryOut inverse hx hz, Except.bind_ok_iff] at hdata
  obtain ⟨carried, hcarried, heq⟩ := hdata
  cases heq
  exact hcarried

theorem Reversible.of_fetches {k : Kernel α} {asked undoing : Operands α → Array α → Array α → Prop}
    (inverse : Inverse n source target)
    (hmoves : moves = (List.range n).map fun i => (target i, i))
    (there : ∀ o x z, asked o x z → Fetches k o n source x z)
    (back : ∀ o x z, undoing o x z → Fetches k o n target x z) :
    Reversible k n moves asked undoing := by
  subst hmoves
  refine ⟨?_, ?_, fun o x z ho => (there o x z ho).carries inverse,
    fun o x z data ho hdata o' z' ho' => ?_⟩
  · rw [List.map_map]
    exact inverse.perm
  · rw [List.map_map]
    exact .of_eq (List.map_id _)
  · obtain ⟨restored, hrestored, -⟩ := (back o' data z' ho').answers inverse.target_lt
    refine ⟨restored, hrestored, fun i hi => ?_⟩
    rw [(back o' data z' ho').entries hrestored i hi,
      (there o x z ho).entries hdata _ (inverse.target_lt i hi), inverse.source_target i hi]

/-! ### Rotation -/

/-- The operands tell the extents of the kernel `x`, and have room for as many entries in `z`. -/
structure RotationOperands (k : KernelExtents) (o : Operands α) (x z : Array α) : Prop where
  width : o.extent 2 = .ok k.x
  height : o.extent 3 = .ok k.y
  inputs : o.extent 4 = .ok k.z
  outputs : o.extent 5 = .ok k.w
  kernel : o.words 0 k.size = .ok x
  room : o.words 1 k.size = .ok z

def KernelExtents.rotationMoves (k : KernelExtents) : List (Nat × Nat) :=
  (List.range k.w).flatMap fun w => (List.range k.z).flatMap fun z =>
    (List.range k.y).flatMap fun y => (List.range k.x).map fun x =>
      (k.swapped.index z w (k.y - 1 - y) (k.x - 1 - x), k.index w z y x)

theorem rotation_inverse (k : KernelExtents) :
    Inverse k.size (rotationSource k) (rotationSource k.swapped) := by
  have hlt : ∀ k : KernelExtents, ∀ i < k.swapped.size, rotationSource k.swapped i < k.size :=
    fun k i hi => k.size_swapped ▸ rotationSource_lt hi
  refine ⟨fun j hj => rotationSource_lt hj, ?_, ?_, fun j hj => rotationSource_swapped hj⟩
  · exact fun i hi => hlt k i (k.size_swapped.symm ▸ hi)
  · exact fun i hi => rotationSource_swapped (k := k.swapped) (k.size_swapped.symm ▸ hi)

theorem rotationMoves_eq (k : KernelExtents) :
    k.rotationMoves = (List.range k.size).map fun i => (rotationSource k.swapped i, i) := by
  have hsize : k.size = k.w * k.z * k.y * k.x := by
    rw [KernelExtents.size]
    ring
  rw [hsize, map_range_mul, flatMap_range_mul, flatMap_range_mul]
  refine List.flatMap_congr fun w hw => List.flatMap_congr fun z hz =>
    List.flatMap_congr fun y hy => List.map_congr_left fun x hx => ?_
  rw [List.mem_range] at hw hz hy hx
  exact congrArg (·, k.index w z y x) (rotationSource_index (k := k.swapped) hz hy hx).symm

theorem rotateAndReorder_fetches {k : KernelExtents} {o : Operands α} (h : RotationOperands k o x z) :
    Fetches rotateAndReorder o k.size (rotationSource k) x z := by
  refine ⟨Operands.size_words h.kernel, Operands.size_words h.room, ?_⟩
  simp only [rotateAndReorder, h.width, h.height, h.inputs, h.outputs, h.kernel, h.room,
    Except.ok_bind]

/-! ### Transposition -/

/-- The operands tell the rows and columns of the planes in `x`, one for each layer of the launch
and one for a launch without layers, and have room for as many entries in `z`. -/
structure TranspositionOperands (rows cols planes : Nat) (o : Operands α) (x z : Array α) : Prop where
  width : o.extent 2 = .ok cols
  height : o.extent 3 = .ok rows
  layers : max o.launch.global.z 1 = planes
  matrices : o.words 0 (rows * cols * planes) = .ok x
  room : o.words 1 (rows * cols * planes) = .ok z

/-- Where the entries of planes go, from the first entry to the last. -/
def transpositionMoves (rows cols planes : Nat) : List (Nat × Nat) :=
  (List.range planes).flatMap fun p => (List.range rows).flatMap fun r =>
    (List.range cols).map fun c =>
      (p * (rows * cols) + (c * rows + r), p * (rows * cols) + (r * cols + c))

section

variable {rows cols planes p r c : Nat}

theorem transposeSource_index (hr : r < rows) (hc : c < cols) :
    transposeSource rows cols (p * (rows * cols) + (c * rows + r)) =
      p * (rows * cols) + (r * cols + c) := by
  have hcell : c * rows + r < rows * cols := by
    rw [Nat.mul_comm rows]
    exact row_lt hc hr
  have hrow : (p * (rows * cols) + (c * rows + r)) % rows = r := by
    rw [show p * (rows * cols) + (c * rows + r) = (p * cols + c) * rows + r by ring]
    exact row_mod hr
  rw [transposeSource, row_div hcell, row_mod hcell, hrow, row_div hr, Nat.add_assoc]

theorem transposeSource_transposed {j : Nat} (hj : j < rows * cols * planes) :
    transposeSource cols rows (transposeSource rows cols j) = j := by
  have hcell : 0 < rows * cols := Nat.pos_of_ne_zero fun h => by simp [h] at hj
  have hrows : 0 < rows := Nat.pos_of_mul_pos_right hcell
  have hcol : j % (rows * cols) / rows < cols := by
    rw [Nat.div_lt_iff_lt_mul hrows, Nat.mul_comm cols]
    exact Nat.mod_lt _ hcell
  have hmod : j % (rows * cols) % rows = j % rows := Nat.mod_mul_right_mod ..
  calc transposeSource cols rows (transposeSource rows cols j)
    _ = transposeSource cols rows (j / (rows * cols) * (cols * rows) +
          (j % rows * cols + j % (rows * cols) / rows)) := by
        rw [Nat.mul_comm cols, ← Nat.add_assoc]
        rfl
    _ = j / (rows * cols) * (cols * rows) + (j % (rows * cols) / rows * rows + j % rows) :=
        transposeSource_index hcol (Nat.mod_lt _ hrows)
    _ = j := by rw [← hmod, Nat.div_add_mod', Nat.mul_comm cols, Nat.div_add_mod']

theorem transposition_inverse (rows cols planes : Nat) :
    Inverse (rows * cols * planes) (transposeSource rows cols) (transposeSource cols rows) := by
  have hswap : rows * cols * planes = cols * rows * planes := by rw [Nat.mul_comm rows]
  refine ⟨fun j hj => (transposeSource_row (b := 0) hj).1, fun i hi => ?_, fun i hi => ?_,
    fun j hj => transposeSource_transposed hj⟩
  · rw [hswap] at hi ⊢
    exact (transposeSource_row (b := 0) hi).1
  · exact transposeSource_transposed (hswap ▸ hi)

theorem transpositionMoves_eq (rows cols planes : Nat) :
    transpositionMoves rows cols planes =
      (List.range (rows * cols * planes)).map fun i => (transposeSource cols rows i, i) := by
  rw [Nat.mul_comm _ planes, map_range_mul]
  refine List.flatMap_congr fun p _ => ?_
  rw [map_range_mul]
  refine List.flatMap_congr fun r hr => List.map_congr_left fun c hc => ?_
  rw [List.mem_range] at hr hc
  have h := transposeSource_index (p := p) hc hr
  rw [Nat.mul_comm cols] at h
  rw [h]

theorem transpose_fetches {o : Operands α} (h : TranspositionOperands rows cols planes o x z) :
    Fetches transpose o (rows * cols * planes) (transposeSource rows cols) x z := by
  refine ⟨Operands.size_words h.matrices, Operands.size_words h.room, ?_⟩
  simp only [transpose, h.width, h.height, h.layers, h.matrices, h.room,
    Operands.requireSize_of_words h.room, Except.ok_bind]

end

/-- The rotation of a kernel and the transposition of planes write each entry of their output
once, whatever the extents are. A second rotation, with the channel axes in each other's place,
restores the kernel, and a second transposition, with rows for columns, the planes. -/
theorem rearrangements_reversible :
    (∀ k : KernelExtents, Reversible (α := α) rotateAndReorder k.size k.rotationMoves
      (RotationOperands k) (RotationOperands k.swapped)) ∧
    ∀ rows cols planes : Nat, Reversible (α := α) transpose (rows * cols * planes)
      (transpositionMoves rows cols planes) (TranspositionOperands rows cols planes)
      (TranspositionOperands cols rows planes) := by
  refine ⟨fun k => ?_, fun rows cols planes => ?_⟩
  · refine .of_fetches (rotation_inverse k) (rotationMoves_eq k)
      (fun o x z => rotateAndReorder_fetches) fun o x z h => ?_
    exact k.size_swapped ▸ rotateAndReorder_fetches h
  · refine .of_fetches (transposition_inverse rows cols planes)
      (transpositionMoves_eq rows cols planes) (fun o x z => transpose_fetches) fun o x z h => ?_
    exact Nat.mul_comm cols rows ▸ transpose_fetches h

/-- A kernel of two channels on either side, and two planes of two rows. Words that no entry
goes to stay. -/
theorem pairedChannels_reversible :
    let e : KernelExtents := ⟨2, 1, 2, 2⟩
    let operands (x z : Array Nat) (extents : List Int32) : Operands Nat :=
      ⟨.words x :: .words z :: extents.map fun n => .scalar (.int32 n), .planes 3 2 2⟩
    let stale : Array Nat := .replicate 12 0
    let kernel : Array Nat := #[1, 2, 3, 4, 5, 6, 7, 8]
    let rotated : Array Nat := #[2, 1, 6, 5, 4, 3, 8, 7, 0, 0, 0, 0]
    let matrices : Array Nat := #[1, 2, 3, 4, 5, 6, 7, 8, 9, 10, 11, 12]
    let transposed : Array Nat := #[1, 4, 2, 5, 3, 6, 7, 10, 8, 11, 9, 12]
    (RotationOperands e (operands kernel stale [2, 1, 2, 2]) kernel stale ∧
      rotateAndReorder (operands kernel stale [2, 1, 2, 2]) = .ok [(1, rotated)] ∧
      carryOut e.rotationMoves kernel stale = .ok rotated ∧
      ∃ restored, rotateAndReorder (operands rotated stale [2, 1, 2, 2]) = .ok [(1, restored)] ∧
        ∀ i < 8, restored[i]? = kernel[i]?) ∧
    TranspositionOperands 2 3 2 (operands matrices stale [3, 2]) matrices stale ∧
      transpose (operands matrices stale [3, 2]) = .ok [(1, transposed)] ∧
      carryOut (transpositionMoves 2 3 2) matrices stale = .ok transposed ∧
      ∃ restored, transpose (operands transposed stale [2, 3]) = .ok [(1, restored)] ∧
        ∀ i < 12, restored[i]? = matrices[i]? := by
  intro e operands stale kernel rotated matrices transposed
  obtain ⟨rotation, transposition⟩ := rearrangements_reversible (α := Nat)
  have rotating : RotationOperands e (operands kernel stale [2, 1, 2, 2]) kernel stale :=
    ⟨rfl, rfl, rfl, rfl, rfl, rfl⟩
  have transposing : TranspositionOperands 2 3 2 (operands matrices stale [3, 2]) matrices stale :=
    ⟨rfl, rfl, rfl, rfl, rfl⟩
  have hrotated : rotateAndReorder (operands kernel stale [2, 1, 2, 2]) = .ok [(1, rotated)] := by
    decide
  have htransposed : transpose (operands matrices stale [3, 2]) = .ok [(1, transposed)] := by
    decide
  obtain ⟨data, hdata, hcarried⟩ := (rotation e).carries _ _ _ rotating
  obtain ⟨data', hdata', hcarried'⟩ := (transposition 2 3 2).carries _ _ _ transposing
  cases hrotated.symm.trans hdata
  cases htransposed.symm.trans hdata'
  exact ⟨⟨rotating, hrotated, hcarried, (rotation e).restores _ _ _ _ rotating hrotated _ stale
      ⟨rfl, rfl, rfl, rfl, rfl, rfl⟩⟩, transposing, htransposed, hcarried',
    (transposition 2 3 2).restores _ _ _ _ transposing htransposed _ stale ⟨rfl, rfl, rfl, rfl, rfl⟩⟩

end Kernel

end Backprop
