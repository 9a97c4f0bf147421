import Mathlib
import Backprop.Proofs.Kernel.Scratch
import Backprop.Proofs.Kernel.Tiles

/-! A convolution and its two gradients multiply the same entries. A product joins an input entry,
a kernel entry and an output entry; each kernel runs through all that may join two of them. -/

namespace Backprop.Kernel

variable {α β : Type}

/-! ### Cells of a box -/

def boxTerms (Z Y X : Nat) (f : Nat → Nat → Nat → Option β) : List β :=
  (List.range Z).flatMap fun z => (List.range Y).flatMap fun y => (List.range X).filterMap (f z y)

theorem mem_boxTerms {Z Y X : Nat} {f : Nat → Nat → Nat → Option β} {t : β} :
    t ∈ boxTerms Z Y X f ↔ ∃ z < Z, ∃ y < Y, ∃ x < X, f z y x = some t := by
  simp [boxTerms]

theorem nodup_boxTerms {Z Y X : Nat} {f : Nat → Nat → Nat → Option β} (key : β → Nat)
    (plane : Nat → Nat) (mono : StrictMono plane)
    (index : ∀ z y x t, f z y x = some t → key t = (plane z * Y + y) * X + x) :
    (boxTerms Z Y X f).Nodup := by
  have hrow : ∀ {n a b i j : Nat}, i < n → a < b → a * n + i < b * n + j := by
    intro n a b i j hi hab
    have h := Nat.mul_le_mul_right n hab
    rw [Nat.succ_mul] at h
    omega
  have hsorted : (boxTerms Z Y X f).Pairwise fun s t => key s < key t := by
    refine List.pairwise_flatMap.mpr ⟨fun z _ => List.pairwise_flatMap.mpr ⟨fun y _ =>
      List.pairwise_filterMap.mpr ?_, ?_⟩, ?_⟩
    · refine List.pairwise_lt_range.imp fun {x x'} h s hs t ht => ?_
      rw [index z y x s hs, index z y x' t ht]
      omega
    · refine List.pairwise_lt_range.imp fun {y y'} h s hs t ht => ?_
      simp only [List.mem_filterMap, List.mem_range] at hs ht
      obtain ⟨x, hx, hs⟩ := hs
      obtain ⟨x', -, ht⟩ := ht
      rw [index z y x s hs, index z y' x' t ht]
      exact hrow hx (by omega)
    · refine List.pairwise_lt_range.imp fun {z z'} h s hs t ht => ?_
      simp only [List.mem_flatMap, List.mem_filterMap, List.mem_range] at hs ht
      obtain ⟨y, hy, x, hx, hs⟩ := hs
      obtain ⟨y', -, x', -, ht⟩ := ht
      rw [index z y x s hs, index z' y' x' t ht]
      exact hrow hx (hrow hy (mono h))
  exact hsorted.imp fun h he => by simp [he] at h

/-! ### Coordinates -/

theorem coordinates_eq_iff {X Y Z i x y z w : Nat} (hx : x < X) (hy : y < Y) (hz : z < Z) :
    coordinates X Y Z i = (x, y, z, w) ↔ i = ((w * Z + z) * Y + y) * X + x := by
  constructor
  · intro h
    simp only [coordinates, Prod.mk.injEq] at h
    obtain ⟨rfl, rfl, rfl, rfl⟩ := h
    rw [Nat.div_add_mod', Tiling.coordinates_mod]
  · rintro rfl
    obtain ⟨h₁, h₂, h₃⟩ := Tiling.coordinates_div (k := w * Z + z) hx hy
    rw [coordinates, h₁, h₂, h₃, row_mod hz, row_div hz]

theorem coordinates_lt {X Y Z W i : Nat} (h : i < X * Y * Z * W) :
    i % X < X ∧ i / X % Y < Y ∧ i / X / Y % Z < Z ∧ i / X / Y / Z < W := by
  have hW : 0 < W := Nat.pos_of_ne_zero fun hw => by simp [hw] at h
  have hZ : 0 < Z := Nat.pos_of_ne_zero fun hz => by simp [hz] at h
  rw [Nat.mul_assoc (X * Y)] at h
  obtain ⟨hx, hy, hz⟩ := Tiling.coordinates_lt h
  exact ⟨hx, hy, Nat.mod_lt _ hZ, (Nat.div_lt_iff_lt_mul hZ).mpr (by rwa [Nat.mul_comm W])⟩

theorem Planes.cell?_eq_some_iff {P : Planes} {w z p : Nat} {y x : Int} (hz : z < P.z) :
    P.cell? w z y x = some p ↔ ∃ cx cy : Nat, x = cx ∧ y = cy ∧ cx < P.x ∧ cy < P.y ∧
      coordinates P.x P.y P.z p = (cx, cy, z, w) := by
  unfold cell?
  constructor
  · intro h
    split at h
    · cases h
    · next hin =>
      have hx : x.toNat < P.x := by omega
      have hy : y.toNat < P.y := by omega
      refine ⟨x.toNat, y.toNat, by omega, by omega, hx, hy, ?_⟩
      exact (coordinates_eq_iff hx hy hz).mpr (Option.some.inj h).symm
  · rintro ⟨cx, cy, rfl, rfl, hx, hy, hp⟩
    rw [if_neg (by omega), (coordinates_eq_iff hx hy hz).mp hp]
    rfl

theorem Planes.cell?_lt {P : Planes} {w z W p : Nat} {y x : Int} (hz : z < P.z) (hw : w < W)
    (h : P.cell? w z y x = some p) : p < P.x * P.y * P.z * W := by
  obtain ⟨cx, cy, -, -, hx, hy, hp⟩ := (cell?_eq_some_iff hz).mp h
  rw [(coordinates_eq_iff hx hy hz).mp hp]
  exact KernelExtents.index_lt (k := ⟨P.x, P.y, P.z, W⟩) hw hz hy hx

theorem dilated?_eq_some_iff {offset v : Int} {dilation : Nat} (hd : 0 < dilation) :
    dilated? offset dilation = some v ↔ 0 ≤ v ∧ offset = v * dilation := by
  unfold dilated?
  constructor
  · intro h
    split at h
    · cases h
    · next hin =>
      push Not at hin
      obtain rfl := Option.some.inj h
      exact ⟨Int.ediv_nonneg hin.1 (by omega),
        (Int.ediv_mul_cancel (Int.dvd_of_emod_eq_zero hin.2)).symm⟩
  · rintro ⟨hv, rfl⟩
    have hd' : (dilation : Int) ≠ 0 := by omega
    rw [if_neg, Int.mul_ediv_cancel _ hd']
    rw [not_or, not_not]
    exact ⟨by simpa using Int.mul_nonneg hv (by omega), Int.mul_emod_left _ _⟩

/-! ### Terms as boxes -/

theorem boxTerms_of_empty {Z Y X : Nat} (h : Z * Y * X = 0) (f : Nat → Nat → Nat → Option β) :
    boxTerms Z Y X f = [] := by
  refine List.eq_nil_iff_forall_not_mem.mpr fun t ht => ?_
  obtain ⟨z, hz, y, hy, x, hx, -⟩ := mem_boxTerms.mp ht
  rcases Nat.mul_eq_zero.mp h with h | rfl
  · rcases Nat.mul_eq_zero.mp h with rfl | rfl <;> omega
  · omega

theorem convolutionTerms_eq (input : Planes) (k : KernelExtents)
    (pad stride ox oy channel b : Nat) :
    convolutionTerms input k pad stride ox oy channel b = boxTerms k.z k.y k.x fun z y x =>
      some (input.cell? b z ((oy * stride + y : Nat) - pad) ((ox * stride + x : Nat) - pad),
        k.index channel z y x) := by
  unfold convolutionTerms
  split
  · next h => exact (boxTerms_of_empty h _).symm
  · simp only [boxTerms, List.filterMap_eq_map']

theorem dilatedTerms_eq (input : Planes) (k : KernelExtents) (padX padY : Int)
    (dilation ox oy channel b : Nat) :
    dilatedTerms input k padX padY dilation ox oy channel b = boxTerms k.z k.y k.x fun z y x =>
      (dilated? (oy - padY + y) dilation).bind fun iy =>
        (dilated? (ox - padX + x) dilation).map fun ix =>
          (input.cell? b z iy ix, k.index channel z y x) := by
  unfold dilatedTerms
  split
  · next h => exact (boxTerms_of_empty h _).symm
  · unfold boxTerms
    congr 1
    funext z
    congr 1
    funext y
    beta_reduce
    cases dilated? (oy - padY + y) dilation with
    | none => exact (List.filterMap_eq_nil_iff.mpr fun _ _ => rfl).symm
    | some iy => rfl

theorem weightTerms_eq (input : Planes) (outX outY channels pad stride batch x y z channel : Nat) :
    weightTerms input outX outY channels pad stride batch x y z channel =
      boxTerms batch outY outX fun b oy ox =>
        some (input.cell? b z ((oy * stride + y : Nat) - pad) ((ox * stride + x : Nat) - pad),
          ((b * channels + channel) * outY + oy) * outX + ox) := by
  unfold weightTerms
  split
  · next h => exact (boxTerms_of_empty h _).symm
  · simp only [boxTerms, List.filterMap_eq_map']

/-- Whatever the paddings and the dilation are, a term's cell is one of the plane's or none. -/
theorem dilatedTerms_bounds {input : Planes} {k : KernelExtents} {padX padY : Int}
    {dilation ox oy channel b batch : Nat} (hk : input.z = k.z) (hc : channel < k.w)
    (hb : b < batch) : ∀ t ∈ dilatedTerms input k padX padY dilation ox oy channel b,
      (∀ p, t.1 = some p → p < input.x * input.y * input.z * batch) ∧ t.2 < k.size := by
  intro t ht
  refine ⟨?_, dilatedTerms_lt hc t ht⟩
  rw [dilatedTerms_eq, mem_boxTerms] at ht
  obtain ⟨z, hz, y, -, x, -, h⟩ := ht
  simp only [Option.bind_eq_some_iff, Option.map_eq_some_iff] at h
  obtain ⟨iy, -, ix, -, rfl⟩ := h
  exact fun p h => Planes.cell?_lt (hk ▸ hz) hb h

/-! ### Rotation -/

def KernelExtents.swapped (k : KernelExtents) : KernelExtents := ⟨k.x, k.y, k.w, k.z⟩

theorem KernelExtents.size_swapped (k : KernelExtents) : k.swapped.size = k.size := by
  simp only [size, swapped]
  ring

theorem rotationSource_index {k : KernelExtents} {c oc y x : Nat} (hoc : oc < k.w) (hy : y < k.y)
    (hx : x < k.x) : rotationSource k (k.swapped.index c oc y x) =
      k.index oc c (k.y - 1 - y) (k.x - 1 - x) := by
  have h : coordinates k.x k.y k.w (k.swapped.index c oc y x) = (x, y, oc, c) :=
    (coordinates_eq_iff hx hy hoc).mpr rfl
  rw [rotationSource, h]

theorem rotationSource_lt {k : KernelExtents} {i : Nat} (h : i < k.size) :
    rotationSource k i < k.size := by
  have hi : i < k.x * k.y * k.w * k.z := by rwa [← k.size_swapped] at h
  obtain ⟨hx, hy, hw, hz⟩ := coordinates_lt hi
  exact KernelExtents.index_lt hw hz (by omega) (by omega)

theorem rotationSource_swapped {k : KernelExtents} {i : Nat} (h : i < k.size) :
    rotationSource k.swapped (rotationSource k i) = i := by
  have hi : i < k.x * k.y * k.w * k.z := by rwa [← k.size_swapped] at h
  obtain ⟨hx, hy, hw, hz⟩ := coordinates_lt hi
  have hy' : k.y - 1 - i / k.x % k.y < k.y := by omega
  have hx' : k.x - 1 - i % k.x < k.x := by omega
  refine (rotationSource_index (k := k.swapped) hz hy' hx').trans ?_
  change ((_ * k.w + _) * k.y + (k.y - 1 - (k.y - 1 - _))) * k.x + (k.x - 1 - (k.x - 1 - _)) = i
  rw [Nat.sub_sub_self (by omega), Nat.sub_sub_self (by omega), Nat.div_add_mod',
    Tiling.coordinates_mod]

/-! ### Convolutions -/

/-- Extents of a convolution: both planes, the kernel, and the rows of the batch. -/
structure Convolution where
  inX : Nat
  inY : Nat
  outX : Nat
  outY : Nat
  k : KernelExtents
  pad : Nat
  stride : Nat
  batch : Nat

namespace Convolution

variable (c : Convolution)

def input : Planes := ⟨c.inX, c.inY, c.k.z⟩

def output : Planes := ⟨c.outX, c.outY, c.k.w⟩

def inputs : Nat := c.inX * c.inY * c.k.z * c.batch

def outputs : Nat := c.outX * c.outY * c.k.w * c.batch

def products (r : Nat) : List (Option Nat × Nat) :=
  convolutionTerms c.input c.k c.pad c.stride (r % c.outX) (r / c.outX % c.outY)
    (r / c.outX / c.outY % c.k.w) (r / c.outX / c.outY / c.k.w)

/-- Output entry and entry of the rotated kernel of every product in the gradient of input
entry `p`. -/
def rotatedProducts (p : Nat) : List (Option Nat × Nat) :=
  dilatedTerms c.output c.k.swapped (c.k.x - 1 - c.pad) (c.k.y - 1 - c.pad) (max c.stride 1)
    (p % c.inX) (p / c.inX % c.inY) (p / c.inX / c.inY % c.k.z) (p / c.inX / c.inY / c.k.z)

/-- Output and kernel entry of every product in the gradient of input entry `p`. -/
def inputProducts (p : Nat) : List (Option Nat × Nat) :=
  (c.rotatedProducts p).map fun t => (t.1, rotationSource c.k t.2)

def kernelProducts (q : Nat) : List (Option Nat × Nat) :=
  weightTerms c.input c.outX c.outY c.k.w c.pad c.stride c.batch (q % c.k.x) (q / c.k.x % c.k.y)
    (q / c.k.x / c.k.y % c.k.z) (q / c.k.x / c.k.y / c.k.z)

/-- Input entry `p` is multiplied by kernel entry `q` in output entry `r`. -/
def Live (p q r : Nat) : Prop := (some p, q) ∈ c.products r

instance (p q r : Nat) : Decidable (c.Live p q r) :=
  inferInstanceAs (Decidable ((some p, q) ∈ c.products r))

/-- The kernel, laid at the output cell, has its entry on the input cell. -/
structure Meets (p q r : Nat) : Prop where
  channel : p / c.inX / c.inY % c.k.z = q / c.k.x / c.k.y % c.k.z
  filter : q / c.k.x / c.k.y / c.k.z = r / c.outX / c.outY % c.k.w
  row : p / c.inX / c.inY / c.k.z = r / c.outX / c.outY / c.k.w
  x : r % c.outX * c.stride + q % c.k.x = p % c.inX + c.pad
  y : r / c.outX % c.outY * c.stride + q / c.k.x % c.k.y = p / c.inX % c.inY + c.pad

variable {c : Convolution} {p q r : Nat}

theorem live_iff (hp : p < c.inputs) (hq : q < c.k.size) : c.Live p q r ↔ c.Meets p q r := by
  obtain ⟨hpx, hpy, hpz, -⟩ := coordinates_lt hp
  obtain ⟨hqx, hqy, hqz, -⟩ := coordinates_lt hq
  rw [Live, products, convolutionTerms_eq, mem_boxTerms]
  constructor
  · rintro ⟨z, hz, y, hy, x, hx, h⟩
    obtain ⟨hcell, hindex⟩ := Prod.mk.inj (Option.some.inj h)
    obtain ⟨cx, cy, hcx, hcy, -, -, hcell⟩ := (Planes.cell?_eq_some_iff hz).mp hcell
    have hk := (coordinates_eq_iff hx hy hz).mpr hindex.symm
    simp only [coordinates, input, Prod.mk.injEq] at hcell hk
    obtain ⟨rfl, rfl, rfl, hrow⟩ := hcell
    obtain ⟨rfl, rfl, hchannel, hfilter⟩ := hk
    exact ⟨hchannel.symm, hfilter, hrow, by omega, by omega⟩
  · rintro ⟨hchannel, hfilter, hrow, hx, hy⟩
    refine ⟨_, hqz, _, hqy, _, hqx, ?_⟩
    rw [Option.some.injEq, Prod.mk.injEq]
    refine ⟨(Planes.cell?_eq_some_iff hqz).mpr ⟨p % c.inX, p / c.inX % c.inY, by omega, by omega,
      hpx, hpy, ?_⟩, ?_⟩
    · rw [coordinates, ← hchannel, ← hrow]
      rfl
    · rw [← hfilter]
      exact ((coordinates_eq_iff hqx hqy hqz).mp rfl).symm

theorem mem_kernelProducts (hp : p < c.inputs) (hq : q < c.k.size) (hr : r < c.outputs) :
    (some p, r) ∈ c.kernelProducts q ↔ c.Meets p q r := by
  obtain ⟨hpx, hpy, hpz, -⟩ := coordinates_lt hp
  obtain ⟨hqx, hqy, hqz, hqw⟩ := coordinates_lt hq
  obtain ⟨hrx, hry, hrz, hrw⟩ := coordinates_lt hr
  rw [kernelProducts, weightTerms_eq, mem_boxTerms]
  constructor
  · rintro ⟨b, hb, oy, hoy, ox, hox, h⟩
    obtain ⟨hcell, hindex⟩ := Prod.mk.inj (Option.some.inj h)
    obtain ⟨cx, cy, hcx, hcy, -, -, hcell⟩ := (Planes.cell?_eq_some_iff hqz).mp hcell
    have ho := (coordinates_eq_iff hox hoy hqw).mpr hindex.symm
    simp only [coordinates, input, Prod.mk.injEq] at hcell ho
    obtain ⟨rfl, rfl, hchannel, hrow⟩ := hcell
    obtain ⟨rfl, rfl, hfilter, rfl⟩ := ho
    exact ⟨hchannel, hfilter.symm, hrow, by omega, by omega⟩
  · rintro ⟨hchannel, hfilter, hrow, hx, hy⟩
    refine ⟨_, hrw, _, hry, _, hrx, ?_⟩
    rw [Option.some.injEq, Prod.mk.injEq]
    refine ⟨(Planes.cell?_eq_some_iff hqz).mpr ⟨p % c.inX, p / c.inX % c.inY, by omega, by omega,
      hpx, hpy, ?_⟩, ?_⟩
    · rw [coordinates, ← hchannel, ← hrow]
      rfl
    · rw [hfilter]
      exact ((coordinates_eq_iff hrx hry hrz).mp rfl).symm

theorem mem_inputProducts (hs : 0 < c.stride) (hp : p < c.inputs) (hq : q < c.k.size)
    (hr : r < c.outputs) : (some r, q) ∈ c.inputProducts p ↔ c.Meets p q r := by
  obtain ⟨hpx, hpy, hpz, -⟩ := coordinates_lt hp
  obtain ⟨hqx, hqy, hqz, hqw⟩ := coordinates_lt hq
  obtain ⟨hrx, hry, hrz, hrw⟩ := coordinates_lt hr
  rw [inputProducts, rotatedProducts, dilatedTerms_eq, List.mem_map]
  simp only [mem_boxTerms, Option.bind_eq_some_iff, Option.map_eq_some_iff, Nat.max_eq_left hs,
    dilated?_eq_some_iff hs]
  constructor
  · rintro ⟨t, ⟨oc, hoc, y, hy, x, hx, iy, ⟨hiy, hy'⟩, ix, ⟨hix, hx'⟩, rfl⟩, h⟩
    change x < c.k.x at hx
    change y < c.k.y at hy
    obtain ⟨hcell, hindex⟩ := Prod.mk.inj h
    obtain ⟨cx, cy, rfl, rfl, -, -, hcell⟩ := (Planes.cell?_eq_some_iff hoc).mp hcell
    rw [rotationSource_index hoc hy hx] at hindex
    have hk := (coordinates_eq_iff (by omega) (by omega) hpz).mpr hindex.symm
    simp only [coordinates, output, Prod.mk.injEq] at hcell hk
    obtain ⟨rfl, rfl, hfilter, hrow⟩ := hcell
    obtain ⟨hkx, hky, hchannel, rfl⟩ := hk
    exact ⟨hchannel.symm, hfilter.symm, hrow.symm, by omega, by omega⟩
  · rintro ⟨hchannel, hfilter, hrow, hx, hy⟩
    have hy' : c.k.y - 1 - q / c.k.x % c.k.y < c.k.y := by omega
    have hx' : c.k.x - 1 - q % c.k.x < c.k.x := by omega
    refine ⟨_, ⟨_, hqw, _, hy', _, hx', (r / c.outX % c.outY : Nat), ⟨by omega, by omega⟩,
      (r % c.outX : Nat), ⟨by omega, by omega⟩, rfl⟩, ?_⟩
    rw [Prod.mk.injEq]
    refine ⟨(Planes.cell?_eq_some_iff hqw).mpr ⟨_, _, rfl, rfl, hrx, hry, ?_⟩, ?_⟩
    · rw [coordinates, hfilter, hrow]
      rfl
    · rw [rotationSource_index hqw hy' hx', Nat.sub_sub_self (by omega),
        Nat.sub_sub_self (by omega), hchannel]
      exact ((coordinates_eq_iff hqx hqy hqz).mp rfl).symm

/-! ### Every product once -/

theorem nodup_products : (c.products r).Nodup := by
  rw [products, convolutionTerms_eq]
  refine nodup_boxTerms Prod.snd (r / c.outX / c.outY % c.k.w * c.k.z + ·)
    (fun _ _ h => by simpa using h) ?_
  rintro z y x t ⟨⟩
  rfl

theorem nodup_kernelProducts (hq : q < c.k.size) : (c.kernelProducts q).Nodup := by
  obtain ⟨-, -, -, hqw⟩ := coordinates_lt hq
  rw [kernelProducts, weightTerms_eq]
  refine nodup_boxTerms Prod.snd (· * c.k.w + q / c.k.x / c.k.y / c.k.z) ?_ ?_
  · exact fun b b' h =>
      Nat.add_lt_add_right (Nat.mul_lt_mul_of_pos_right h (Nat.zero_lt_of_lt hqw)) _
  · rintro z y x t ⟨⟩
    rfl

theorem rotatedProducts_bounds (hp : p < c.inputs) :
    ∀ t ∈ c.rotatedProducts p, (∀ r, t.1 = some r → r < c.outputs) ∧ t.2 < c.k.size := by
  obtain ⟨-, -, hpz, hpw⟩ := coordinates_lt hp
  rw [← c.k.size_swapped]
  exact dilatedTerms_bounds rfl hpz hpw

theorem rotatedProducts_lt (hp : p < c.inputs) : ∀ t ∈ c.rotatedProducts p, t.2 < c.k.size :=
  fun t ht => (rotatedProducts_bounds hp t ht).2

theorem nodup_inputProducts (hp : p < c.inputs) : (c.inputProducts p).Nodup := by
  have hlt := rotatedProducts_lt hp
  have hrotated : (c.rotatedProducts p).Nodup := by
    rw [rotatedProducts, dilatedTerms_eq]
    refine nodup_boxTerms Prod.snd (p / c.inX / c.inY % c.k.z * c.k.w + ·)
      (fun _ _ h => by simpa using h) ?_
    intro z y x t h
    simp only [Option.bind_eq_some_iff, Option.map_eq_some_iff] at h
    obtain ⟨iy, -, ix, -, rfl⟩ := h
    rfl
  refine hrotated.map_on fun s hs t ht h => ?_
  obtain ⟨hfirst, hsecond⟩ := Prod.mk.inj h
  have hback := congrArg (rotationSource c.k.swapped) hsecond
  rw [rotationSource_swapped (hlt s hs), rotationSource_swapped (hlt t ht)] at hback
  exact Prod.ext hfirst hback

/-! ### Every product on entries -/

theorem products_lt (hr : r < c.outputs) :
    ∀ t ∈ c.products r, (∀ p, t.1 = some p → p < c.inputs) ∧ t.2 < c.k.size := by
  obtain ⟨-, -, hrz, hrw⟩ := coordinates_lt hr
  intro t ht
  rw [products, convolutionTerms_eq, mem_boxTerms] at ht
  obtain ⟨z, hz, y, hy, x, hx, h⟩ := ht
  obtain rfl := Option.some.inj h
  exact ⟨fun p h => Planes.cell?_lt hz hrw h, KernelExtents.index_lt hrz hz hy hx⟩

theorem kernelProducts_lt (hq : q < c.k.size) :
    ∀ t ∈ c.kernelProducts q, (∀ p, t.1 = some p → p < c.inputs) ∧ t.2 < c.outputs := by
  obtain ⟨-, -, hqz, hqw⟩ := coordinates_lt hq
  intro t ht
  rw [kernelProducts, weightTerms_eq, mem_boxTerms] at ht
  obtain ⟨b, hb, y, hy, x, hx, h⟩ := ht
  obtain rfl := Option.some.inj h
  exact ⟨fun p h => Planes.cell?_lt hqz hb h,
    KernelExtents.index_lt (k := ⟨c.outX, c.outY, c.k.w, c.batch⟩) hb hqw hy hx⟩

theorem inputProducts_bounds (hp : p < c.inputs) :
    ∀ t ∈ c.inputProducts p, (∀ r, t.1 = some r → r < c.outputs) ∧ t.2 < c.k.size := by
  intro t ht
  obtain ⟨u, hu, rfl⟩ := List.mem_map.mp ht
  obtain ⟨hr, hq⟩ := rotatedProducts_bounds hp u hu
  exact ⟨hr, rotationSource_lt hq⟩

/-! ### The same products -/

/-- Both gradients multiply what the convolution multiplies: a product that it makes at all it
makes once, and so does either of them. Whatever else they go through lies outside a plane. -/
structure Adjoint (c : Convolution) : Prop where
  convolved : ∀ p < c.inputs, ∀ q < c.k.size, ∀ r < c.outputs,
    (c.products r).count (some p, q) = if c.Live p q r then 1 else 0
  input : ∀ p < c.inputs, ∀ q < c.k.size, ∀ r < c.outputs,
    (c.inputProducts p).count (some r, q) = if c.Live p q r then 1 else 0
  kernel : ∀ p < c.inputs, ∀ q < c.k.size, ∀ r < c.outputs,
    (c.kernelProducts q).count (some p, r) = if c.Live p q r then 1 else 0
  input_only : ∀ p < c.inputs, ∀ t ∈ c.inputProducts p, t.2 < c.k.size ∧
    ∀ r, t.1 = some r → r < c.outputs ∧ c.Live p t.2 r
  kernel_only : ∀ q < c.k.size, ∀ t ∈ c.kernelProducts q, t.2 < c.outputs ∧
    ∀ p, t.1 = some p → p < c.inputs ∧ c.Live p q t.2

theorem adjoint (hs : 0 < c.stride) : c.Adjoint where
  convolved p _ q _ r _ := by
    rw [nodup_products.count]
    exact if_congr .rfl rfl rfl
  input p hp q hq r hr := by
    rw [(nodup_inputProducts hp).count]
    exact if_congr ((mem_inputProducts hs hp hq hr).trans (live_iff hp hq).symm) rfl rfl
  kernel p hp q hq r hr := by
    rw [(nodup_kernelProducts hq).count]
    exact if_congr ((mem_kernelProducts hp hq hr).trans (live_iff hp hq).symm) rfl rfl
  input_only p hp t ht := by
    obtain ⟨hr, hq⟩ := inputProducts_bounds hp t ht
    refine ⟨hq, fun r h => ⟨hr r h, (live_iff hp hq).mpr ?_⟩⟩
    exact (mem_inputProducts hs hp hq (hr r h)).mp (h ▸ ht)
  kernel_only q hq t ht := by
    obtain ⟨hp, hr⟩ := kernelProducts_lt hq t ht
    refine ⟨hr, fun p h => ⟨hp p h, (live_iff (hp p h) hq).mpr ?_⟩⟩
    exact (mem_kernelProducts (hp p h) hq hr).mp (h ▸ ht)

end Convolution

end Backprop.Kernel
