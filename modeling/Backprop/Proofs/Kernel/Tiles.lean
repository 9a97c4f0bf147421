import Mathlib
import Backprop.Proofs.Kernel.Entries

/-! Tiles of an image: which cell of the image a cell of a tile lies on, and what the kernels that
cut and that gather tiles put into each entry. -/

namespace Backprop.Kernel

variable {α : Type}

theorem foldlM_cells {β : Type} {l : List β} {k : β → Nat} {f : β → α → Except Error α}
    {step : Array α → β → Except Error (Array α)} {a d : Array α}
    (hstep : ∀ a b d, step a b = .ok d → ∃ old new, a[k b]? = some old ∧ f b old = .ok new ∧
      d = a.setIfInBounds (k b) new)
    (hl : l.Pairwise fun b c => k b ≠ k c) (h : l.foldlM step a = .ok d) :
    d.size = a.size ∧ (∀ i, (∀ b ∈ l, k b ≠ i) → d[i]? = a[i]?) ∧
      ∀ b ∈ l, ∃ old new, a[k b]? = some old ∧ f b old = .ok new ∧ d[k b]? = some new := by
  induction l generalizing a with
  | nil =>
    cases h
    exact ⟨rfl, fun _ _ => rfl, by simp⟩
  | cons b l ih =>
    rw [List.foldlM_cons, Except.bind_ok_iff] at h
    obtain ⟨a', ha', h⟩ := h
    obtain ⟨old, new, hold, hnew, rfl⟩ := hstep a b a' ha'
    obtain ⟨hne, hl⟩ := List.pairwise_cons.mp hl
    obtain ⟨hsize, hrest, hdone⟩ := ih hl h
    refine ⟨hsize.trans Array.size_setIfInBounds, fun i hi => ?_, fun c hc => ?_⟩
    · rw [hrest i fun c hc => hi c (List.mem_cons_of_mem _ hc),
        Array.getElem?_setIfInBounds_ne (hi b List.mem_cons_self)]
    · obtain rfl | hc := List.mem_cons.mp hc
      · have hlt := (Array.getElem?_eq_some_iff.mp hold).1
        exact ⟨old, new, hold, hnew, by
          rw [hrest _ fun c' hc' => (hne c' hc').symm, Array.getElem?_setIfInBounds_self_of_lt hlt]⟩
      · obtain ⟨old', new', hold', hnew', hd⟩ := hdone c hc
        rw [Array.getElem?_setIfInBounds_ne (hne c hc)] at hold'
        exact ⟨old', new', hold', hnew', hd⟩

/-- Moves entries of `x` to places of `z`, one after the other. A move is a place and the index of
the entry that goes there. -/
def carryOut (moves : List (Nat × Nat)) (x z : Array α) : Except Error (Array α) :=
  moves.foldlM (fun z m => do write z m.1 (← read x m.2)) z

section

variable {moves : List (Nat × Nat)} {x z data : Array α}

theorem carryOut_entries (apart : (moves.map Prod.fst).Nodup) (h : carryOut moves x z = .ok data) :
    data.size = z.size ∧ (∀ i, (∀ m ∈ moves, m.1 ≠ i) → data[i]? = z[i]?) ∧
      ∀ m ∈ moves, ∃ new, read x m.2 = .ok new ∧ data[m.1]? = some new := by
  obtain ⟨hsize, hrest, hdone⟩ := foldlM_cells (k := Prod.fst) (f := fun m _ => read x m.2)
    (fun a m d hd => by
      obtain ⟨new, hnew, hd⟩ := Except.bind_ok_iff.mp hd
      obtain ⟨hlt, rfl⟩ := write_ok_iff.mp hd
      exact ⟨a[m.1], new, Array.getElem?_eq_getElem hlt, hnew, rfl⟩)
    (List.pairwise_map.mp apart) h
  refine ⟨hsize, hrest, fun m hm => ?_⟩
  obtain ⟨-, new, -, hnew, hdata⟩ := hdone m hm
  exact ⟨new, hnew, hdata⟩

theorem carryOut_succeeds
    (inside : ∀ m ∈ moves, m.1 < z.size ∧ ∃ new, read x m.2 = .ok new) :
    ∃ data, carryOut moves x z = .ok data := by
  refine (foldlM_succeeds (P := fun (a : Array α) => a.size = z.size) rfl
    fun a m hm ha => ?_).imp fun _ h => h.1
  obtain ⟨hplace, new, hnew⟩ := inside m hm
  have hlt : m.1 < a.size := by omega
  exact ⟨a.set m.1 new, by simp only [hnew, Except.ok_bind, write_of_lt hlt], by simp [ha]⟩

end

theorem ceilDiv_le_iff {a s o : Nat} (hs : 0 < s) : ceilDiv a s ≤ o ↔ a ≤ o * s := by
  rw [ceilDiv, ← Nat.lt_succ_iff, Nat.div_lt_iff_lt_mul hs, Nat.succ_mul]
  omega

namespace Tiling

def Lies (t : Tiling) (cell : Nat) : Prop :=
  t.originX + cell % t.tileX < t.imageX ∧ t.originY + cell / t.tileX % t.tileY < t.imageY

instance (t : Tiling) (cell : Nat) : Decidable (t.Lies cell) := by unfold Lies; infer_instance

def source (t : Tiling) (cell : Nat) : Nat :=
  (cell / t.tileX / t.tileY * t.imageY + (t.originY + cell / t.tileX % t.tileY)) * t.imageX +
    (t.originX + cell % t.tileX)

def Covers (t : Tiling) (cell : Nat) : Prop :=
  (t.originX ≤ cell % t.imageX ∧ cell % t.imageX < t.originX + t.tileX) ∧
    t.originY ≤ cell / t.imageX % t.imageY ∧ cell / t.imageX % t.imageY < t.originY + t.tileY

instance (t : Tiling) (cell : Nat) : Decidable (t.Covers cell) := by unfold Covers; infer_instance

def target (t : Tiling) (cell : Nat) : Nat :=
  (cell / t.imageX / t.imageY * t.tileY + (cell / t.imageX % t.imageY - t.originY)) * t.tileX +
    (cell % t.imageX - t.originX)

variable {t : Tiling} {d s : Nat}

theorem coordinates_div {x y i j k : Nat} (hi : i < x) (hj : j < y) :
    ((k * y + j) * x + i) % x = i ∧ ((k * y + j) * x + i) / x % y = j ∧
      ((k * y + j) * x + i) / x / y = k := by
  rw [row_div hi, row_mod hi, row_div hj, row_mod hj]
  exact ⟨rfl, rfl, rfl⟩

theorem coordinates_mod (x y i : Nat) : (i / x / y * y + i / x % y) * x + i % x = i := by
  rw [Nat.div_add_mod', Nat.div_add_mod']

theorem coordinates_lt {x y z i : Nat} (h : i < x * y * z) :
    i % x < x ∧ i / x % y < y ∧ i / x / y < z := by
  have hx : 0 < x := Nat.pos_of_ne_zero fun hx => by simp [hx] at h
  have hy : 0 < y := Nat.pos_of_ne_zero fun hy => by simp [hy] at h
  refine ⟨Nat.mod_lt _ hx, Nat.mod_lt _ hy, ?_⟩
  rw [Nat.div_div_eq_div_mul, Nat.div_lt_iff_lt_mul (by positivity)]
  rwa [Nat.mul_comm] at h

theorem coordinates_bound {x y z i j k : Nat} (hi : i < x) (hj : j < y) (hk : k < z) :
    (k * y + j) * x + i < x * y * z := by
  have h := row_lt (row_lt hk hj) hi
  rwa [show z * y * x = x * y * z by ring] at h

theorem mem_pairs : (d, s) ∈ t.pairs ↔ d < t.tileCells ∧ t.Lies d ∧ s = t.source d := by
  unfold pairs
  split
  · next h => simp [h]
  · simp only [List.mem_flatMap, List.mem_range, List.mem_filter, decide_eq_true_eq, List.mem_map,
      Prod.mk.injEq]
    constructor
    · rintro ⟨plane, hp, y, ⟨hy, hiy⟩, x, ⟨hx, hix⟩, rfl, rfl⟩
      obtain ⟨hmx, hmy, hmp⟩ := coordinates_div (k := plane) hx hy
      refine ⟨coordinates_bound hx hy hp, ⟨by rwa [hmx], by rwa [hmy]⟩, ?_⟩
      rw [source, hmx, hmy, hmp]
    · rintro ⟨hd, ⟨hix, hiy⟩, rfl⟩
      obtain ⟨hx, hy, hp⟩ := coordinates_lt hd
      exact ⟨_, hp, _, ⟨hy, hiy⟩, _, ⟨hx, hix⟩, coordinates_mod .., rfl⟩

theorem pairs_sorted (t : Tiling) : t.pairs.Pairwise fun p q => p.1 < q.1 ∧ p.2 < q.2 := by
  have hrow : ∀ {x a b i j : Nat}, i < x → a < b → a * x + i < b * x + j := by
    intro x a b i j hi hab
    have h := Nat.mul_le_mul_right x hab
    rw [Nat.succ_mul] at h
    omega
  unfold pairs
  split
  · exact .nil
  · refine List.pairwise_flatMap.mpr ⟨fun plane _ => List.pairwise_flatMap.mpr ⟨fun y _ =>
      List.pairwise_map.mpr ?_, ?_⟩, ?_⟩
    · exact (List.pairwise_lt_range.filter _).imp fun h => ⟨by omega, by omega⟩
    · refine (List.pairwise_lt_range.filter _).imp fun {y y'} h p hp q hq => ?_
      simp only [List.mem_map, List.mem_filter, List.mem_range, decide_eq_true_eq] at hp hq
      obtain ⟨x, ⟨hx, hix⟩, rfl⟩ := hp
      obtain ⟨x', -, rfl⟩ := hq
      exact ⟨hrow hx (by omega), hrow hix (by omega)⟩
    · refine List.pairwise_lt_range.imp fun {plane plane'} h p hp q hq => ?_
      simp only [List.mem_flatMap, List.mem_map, List.mem_filter, List.mem_range,
        decide_eq_true_eq] at hp hq
      obtain ⟨y, ⟨hy, hiy⟩, x, ⟨hx, hix⟩, rfl⟩ := hp
      obtain ⟨y', -, x', -, rfl⟩ := hq
      exact ⟨hrow hx (hrow hy h), hrow hix (hrow hiy h)⟩

theorem nodup_targets (t : Tiling) : (t.pairs.map Prod.fst).Nodup :=
  List.pairwise_map.mpr (t.pairs_sorted.imp fun h => h.1.ne)

theorem source_lt (hd : d < t.tileCells) (h : t.Lies d) : t.source d < t.imageCells :=
  coordinates_bound h.1 h.2 (coordinates_lt hd).2.2

/-- The cells of a tile on the image and the cells of the image under the tile belong together. -/
theorem source_eq_iff : d < t.tileCells ∧ t.Lies d ∧ t.source d = s ↔
    s < t.imageCells ∧ t.Covers s ∧ t.target s = d := by
  constructor
  · rintro ⟨hd, hl, rfl⟩
    obtain ⟨hx, hy, hp⟩ := coordinates_lt hd
    obtain ⟨hmx, hmy, hmp⟩ := coordinates_div (k := d / t.tileX / t.tileY) hl.1 hl.2
    refine ⟨source_lt hd hl, ?_, ?_⟩
    · unfold Covers source
      rw [hmx, hmy]
      omega
    · unfold target source
      rw [hmx, hmy, hmp, Nat.add_sub_cancel_left, Nat.add_sub_cancel_left, coordinates_mod]
  · rintro ⟨hs, ⟨hcx, hcy⟩, rfl⟩
    obtain ⟨hx, hy, hp⟩ := coordinates_lt hs
    have hix : s % t.imageX - t.originX < t.tileX := by omega
    have hiy : s / t.imageX % t.imageY - t.originY < t.tileY := by omega
    obtain ⟨hmx, hmy, hmp⟩ := coordinates_div (k := s / t.imageX / t.imageY) hix hiy
    refine ⟨coordinates_bound hix hiy hp, ?_, ?_⟩
    · unfold Lies target
      rw [hmx, hmy, Nat.add_sub_of_le hcx.1, Nat.add_sub_of_le hcy.1]
      exact ⟨hx, hy⟩
    · unfold source target
      rw [hmx, hmy, hmp, Nat.add_sub_of_le hcx.1, Nat.add_sub_of_le hcy.1, coordinates_mod]

end Tiling

variable [Scalar α] {o : Operands α} {t : Tiling} {x z : Array α}

theorem splitData_replaces (ht : Tiling.ofOperands o = .ok t) (hz : o.words 1 t.tileCells = .ok z)
    (hx : o.words 0 t.imageCells = .ok x) :
    Replaces splitData o 1 t.tileCells z fun d _ =>
      if t.Lies d then read x (t.source d) else .ok 0 := by
  have hsize := Operands.size_words hz
  refine .of_bind (e := carryOut t.pairs x (Array.replicate z.size 0)) ?_ (fun data hd => ?_)
    fun hf => carryOut_succeeds fun p hp => ?_
  · simp only [splitData, carryOut, ht, hz, hx, Except.ok_bind]
  · obtain ⟨hsize', hrest, hdone⟩ := carryOut_entries t.nodup_targets hd
    rw [Array.size_replicate] at hsize'
    refine ⟨hsize', fun d hd => ⟨z[d], ?_⟩⟩
    by_cases hl : t.Lies d
    · obtain ⟨new, hnew, hdata⟩ := hdone (d, t.source d) (Tiling.mem_pairs.mpr ⟨hd, hl, rfl⟩)
      exact ⟨new, Array.getElem?_eq_getElem (by omega), (if_pos hl).trans hnew, hdata⟩
    · refine ⟨0, Array.getElem?_eq_getElem (by omega), if_neg hl, ?_⟩
      rw [hrest d, Array.getElem?_replicate, if_pos (by omega)]
      rintro ⟨d', s⟩ hmem rfl
      exact hl (Tiling.mem_pairs.mp hmem).2.1
  · obtain ⟨hd, hl, hs⟩ := Tiling.mem_pairs.mp hp
    obtain ⟨new, hnew⟩ := hf p.1 hd 0
    rw [if_pos hl, ← hs] at hnew
    exact ⟨by rw [Array.size_replicate]; omega, new, hnew⟩

end Backprop.Kernel
