import Mathlib
import Backprop.Proofs.Backend.Lockstep
import Backprop.Proofs.Operator.Emission

/-! The kernels that work on scratch: those that fill its first words do not look at what was
there, and those that read it do not look past what was filled. -/

namespace Backprop

variable {α : Type}

/-- What a kernel is told of an extent. -/
def told (n : Nat) : Nat := min n 2147483647

theorem told_eq {n : Nat} (h : n ≤ 2147483647) : told n = n := Nat.min_eq_left h

theorem told_le (n : Nat) : told n ≤ n := Nat.min_le_left _ _

namespace Operands

variable {o : Operands α} {i j n : Nat} {x : Operand α}

theorem int_signed {v : Int} (h : o.args[i]? = some (.scalar (.signed v))) :
    o.int i = .ok (max (-2147483648) (min v 2147483647)) := by
  have hget : o.get i = .ok (.scalar (.signed v)) := get_ok_iff.mpr h
  have hv : (Int32.ofInt (max Int32.minValue.toInt (min v Int32.maxValue.toInt))).toInt =
      max (-2147483648) (min v 2147483647) := by
    have hmin : Int32.minValue.toInt = -2147483648 := rfl
    have hmax : Int32.maxValue.toInt = 2147483647 := rfl
    rw [hmin, hmax]
    exact Int32.toInt_ofInt_of_le (by omega) (by omega)
  unfold int
  rw [hget]
  exact congrArg Except.ok hv

theorem extent_int (h : o.args[i]? = some (.scalar (.int n))) : o.extent i = .ok (told n) := by
  unfold extent
  rw [int_signed h]
  have hpos : ¬max (-2147483648) (min (n : Int) 2147483647) < 0 := by omega
  simp only [bind, Except.bind, if_neg hpos]
  exact congrArg Except.ok (by unfold told; omega)

theorem get_set (h : i ≠ j) : ({ o with args := o.args.set i x } : Operands α).get j = o.get j := by
  simp only [get, List.getElem?_set, if_neg h]

theorem int_set (h : i ≠ j) : ({ o with args := o.args.set i x } : Operands α).int j = o.int j := by
  simp only [int, get_set h]

theorem extent_set (h : i ≠ j) :
    ({ o with args := o.args.set i x } : Operands α).extent j = o.extent j := by
  simp only [extent, int_set h]

theorem words_set (h : i ≠ j) :
    ({ o with args := o.args.set i x } : Operands α).words j n = o.words j n := by
  simp only [words, get_set h]

theorem held_set {x y : Array α} (hx : o.args[i]? = some (.words x)) (hs : y.size = x.size) :
    ({ o with args := o.args.set i (.words y) } : Operands α).held i = o.held i := by
  have hlt : i < o.args.length := (List.getElem?_eq_some_iff.mp hx).1
  rw [held_eq hx, held_eq (List.getElem?_set_self hlt), hs]

theorem words_alike {x y : Array α} (hx : o.args[i]? = some (.words x)) (hs : y.size = x.size)
    (n : Nat) : Except.Alike (fun a b => a = x ∧ b = y) (o.words i n)
      (({ o with args := o.args.set i (.words y) } : Operands α).words i n) := by
  have hlt : i < o.args.length := (List.getElem?_eq_some_iff.mp hx).1
  simp only [words, get, hx, List.getElem?_set, if_pos hlt, if_true, bind, Except.bind, hs]
  split
  · exact ⟨rfl, rfl⟩
  · exact rfl

end Operands

namespace Kernel

open Operands

variable {o : Operands α}

/-! ### Kernels that fill -/

theorem transpose_fills {rows cols : Nat} (hc : o.extent 2 = .ok cols)
    (hr : o.extent 3 = .ok rows) :
    Fills transpose o 1 (rows * cols * max o.launch.global.z 1) := by
  intro x y hx hs
  simp only [transpose, extent_set (o := o) (i := 1) (j := 2) (by decide),
    extent_set (o := o) (i := 1) (j := 3) (by decide),
    words_set (o := o) (i := 1) (j := 0) (by decide), held_set hx hs, hc, hr,
    Except.ok_bind]
  refine .bind_left fun _ _ => (words_alike hx hs _).bind ?_
  rintro _ _ - - ⟨rfl, rfl⟩
  refine .bind_left fun a _ => ?_
  refine (updateFirst_sameFirst hs fun _ _ _ => rfl).bind fun d d' _ _ hd => ?_
  exact ⟨d, d', rfl, rfl, hd⟩

theorem rotateAndReorder_fills {kx ky kz kw : Nat} (hx : o.extent 2 = .ok kx)
    (hy : o.extent 3 = .ok ky) (hz : o.extent 4 = .ok kz) (hw : o.extent 5 = .ok kw) :
    Fills rotateAndReorder o 1 (kx * ky * kz * kw) := by
  intro x y hin hs
  simp only [rotateAndReorder, extent_set (o := o) (i := 1) (j := 2) (by decide),
    extent_set (o := o) (i := 1) (j := 3) (by decide),
    extent_set (o := o) (i := 1) (j := 4) (by decide),
    extent_set (o := o) (i := 1) (j := 5) (by decide),
    words_set (o := o) (i := 1) (j := 0) (by decide), hx, hy, hz, hw]
  refine (words_alike hin hs _).bind ?_
  rintro _ _ - - ⟨rfl, rfl⟩
  refine .bind_left fun a _ => ?_
  refine (updateFirst_sameFirst hs fun _ _ _ => rfl).bind fun d d' _ _ hd => ?_
  exact ⟨d, d', rfl, rfl, hd⟩

/-! ### Kernels that read -/

variable [Scalar α]

theorem dotProduct_congr {a a' b b' : Array α} {m n k i j : Nat}
    (ha : SameFirst (m * k) a a') (hb : SameFirst (k * n) b b') (hi : i < m) (hj : j < n) :
    dotProduct a' b' n k i j = dotProduct a b n k i j := by
  refine loop_congr _ fun p sum hp => ?_
  have hleft : i * k + p < m * k := by
    have hmul := Nat.mul_le_mul_right k hi
    rw [Nat.succ_mul] at hmul
    omega
  have hright : p * n + j < k * n := by
    have hmul := Nat.mul_le_mul_right n hp
    rw [Nat.succ_mul] at hmul
    omega
  rw [ha.read hleft, hb.read hright]

theorem product_congr {a a' b b' : Array α} {m n k : Nat} (c : Array α) (alpha beta : α)
    (ha : SameFirst (m * k) a a') (hb : SameFirst (k * n) b b') :
    product a' b' c m n k alpha beta = product a b c m n k alpha beta := by
  refine loop_congr c fun i c hi => updateSpan_congr c fun j old hj => ?_
  have him : i < m := by
    unfold nonemptyRows at hi
    split at hi
    · omega
    · exact hi
  rw [dotProduct_congr ha hb him hj]

theorem matrixProductWith_reads_left {beta : α} {m k : Nat} (hm : o.extent 3 = .ok m)
    (hk : o.extent 5 = .ok k) : ReadsFirst (matrixProductWith beta) o 0 (m * k) := by
  intro x y hx h
  refine (Except.Alike.eq ?_).symm
  simp only [matrixProductWith, extent_set (o := o) (i := 0) (j := 3) (by decide),
    extent_set (o := o) (i := 0) (j := 4) (by decide),
    extent_set (o := o) (i := 0) (j := 5) (by decide),
    words_set (o := o) (i := 0) (j := 1) (by decide),
    words_set (o := o) (i := 0) (j := 2) (by decide), hm, hk,
    Except.ok_bind]
  refine .bind_left fun n _ => .bind_left fun c _ => (words_alike hx h.1 _).bind ?_
  rintro _ _ - - ⟨rfl, rfl⟩
  refine .bind_left fun b _ => .of_eq ?_ fun _ _ => rfl
  rw [product_congr c 1 beta h (.refl _ b)]

theorem matrixProductWith_reads_right {beta : α} {k n : Nat} (hn : o.extent 4 = .ok n)
    (hk : o.extent 5 = .ok k) : ReadsFirst (matrixProductWith beta) o 1 (k * n) := by
  intro x y hx h
  refine (Except.Alike.eq ?_).symm
  simp only [matrixProductWith, extent_set (o := o) (i := 1) (j := 3) (by decide),
    extent_set (o := o) (i := 1) (j := 4) (by decide),
    extent_set (o := o) (i := 1) (j := 5) (by decide),
    words_set (o := o) (i := 1) (j := 0) (by decide),
    words_set (o := o) (i := 1) (j := 2) (by decide), hn, hk,
    Except.ok_bind]
  refine .bind_left fun m _ => .bind_left fun c _ => .bind_left fun a _ =>
    (words_alike hx h.1 _).bind ?_
  rintro _ _ - - ⟨rfl, rfl⟩
  refine .of_eq ?_ fun _ _ => rfl
  rw [product_congr c 1 beta (.refl _ a) h]

theorem KernelExtents.index_lt {k : KernelExtents} {w z y x : Nat} (hw : w < k.w) (hz : z < k.z)
    (hy : y < k.y) (hx : x < k.x) : k.index w z y x < k.size := by
  have hplane : (w * k.z + z) < k.w * k.z := by
    have hmul := Nat.mul_le_mul_right k.z hw
    rw [Nat.succ_mul] at hmul
    omega
  have hrow : (w * k.z + z) * k.y + y < k.w * k.z * k.y := by
    have hmul := Nat.mul_le_mul_right k.y hplane
    rw [Nat.succ_mul] at hmul
    omega
  have hcell : ((w * k.z + z) * k.y + y) * k.x + x < k.w * k.z * k.y * k.x := by
    have hmul := Nat.mul_le_mul_right k.x hrow
    rw [Nat.succ_mul] at hmul
    omega
  have hsize : k.size = k.w * k.z * k.y * k.x := by
    unfold KernelExtents.size
    ring
  rw [hsize]
  exact hcell

theorem sumOfProducts_congr {a b b' : Array α} {terms : List (Option Nat × Nat)} {n : Nat}
    (h : SameFirst n b b') (hterms : ∀ t ∈ terms, t.2 < n) :
    sumOfProducts a b' terms = sumOfProducts a b terms := by
  refine foldlM_congr (fun sum t ht => ?_) 0
  simp only [h.read (hterms t ht)]

omit [Scalar α] in
theorem dilatedTerms_lt {input : Planes} {k : KernelExtents} {padX padY : Int}
    {dilation ox oy channel b : Nat} (hc : channel < k.w) :
    ∀ t ∈ dilatedTerms input k padX padY dilation ox oy channel b, t.2 < k.size := by
  intro t ht
  unfold dilatedTerms at ht
  split at ht
  · cases ht
  · simp only [List.mem_flatMap, List.mem_range] at ht
    obtain ⟨z, hz, y, hy, ht⟩ := ht
    split at ht
    · cases ht
    · simp only [List.mem_filterMap, List.mem_range, Option.map_eq_some_iff] at ht
      obtain ⟨x, hx, ix, -, rfl⟩ := ht
      exact KernelExtents.index_lt hc hz hy hx

theorem convolutionAdd_reads {kx ky kz kw : Nat} (hkx : o.extent 5 = .ok kx)
    (hky : o.extent 6 = .ok ky) (hkz : o.extent 7 = .ok kz) (hkw : o.extent 8 = .ok kw) :
    ReadsFirst convolutionAdd o 1 (kx * ky * kz * kw) := by
  intro x y hx h
  refine (Except.Alike.eq ?_).symm
  have hext : ∀ j, 1 ≠ j → ({ o with args := o.args.set 1 (.words y) } : Operands α).extent j =
      o.extent j := fun j hj => extent_set hj
  simp only [convolutionAdd, hext 3 (by decide), hext 4 (by decide), hext 5 (by decide),
    hext 6 (by decide), hext 7 (by decide), hext 8 (by decide), hext 11 (by decide),
    hext 12 (by decide), hext 13 (by decide), hext 14 (by decide),
    int_set (o := o) (i := 1) (j := 9) (by decide), int_set (o := o) (i := 1) (j := 10) (by decide),
    words_set (o := o) (i := 1) (j := 0) (by decide),
    words_set (o := o) (i := 1) (j := 2) (by decide), hkx, hky, hkz, hkw,
    Except.ok_bind]
  refine .bind_left fun inX _ => .bind_left fun inY _ => ?_
  refine .bind_left fun padX _ => .bind_left fun padY _ => ?_
  refine .bind_left fun told _ => .bind_left fun dilation _ => ?_
  refine .bind_left fun outX _ => .bind_left fun outY _ => .bind_left fun batch _ => ?_
  refine .bind_left fun out _ => .bind_left fun input _ => (words_alike hx h.1 _).bind ?_
  rintro _ _ - - ⟨rfl, rfl⟩
  refine .of_eq ?_ fun _ _ => rfl
  rw [updateFirst_congr out fun i old hi => ?_]
  have hpos : 0 < kw := Nat.pos_of_ne_zero fun hz => by
    rw [hz, Nat.mul_zero, Nat.zero_mul] at hi
    exact Nat.not_lt_zero i hi
  have hchannel : i / outX / outY % kw < kw := Nat.mod_lt _ hpos
  simp only [coordinates]
  rw [sumOfProducts_congr (n := kx * ky * kz * kw) h]
  exact dilatedTerms_lt hchannel

end Kernel

end Backprop
