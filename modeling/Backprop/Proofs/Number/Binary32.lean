import Mathlib
import Backprop.Number.Binary32

/-! Arithmetic on words, told by the numbers that they stand for. An operation takes the numbers of
its operands, and its word stands for the result as it is once stored. -/

namespace Backprop.Binary32

open Float.Model (Format UnpackedFloat totalExponent)
open Float.Model.UnpackedFloat

/-- The number that a word stands for. -/
def value (x : Binary32) : UnpackedFloat := unpack Format.binary32 x.bits.toBitVec

/-- A number as it is once a word has been made of it. -/
def stored (u : UnpackedFloat) : UnpackedFloat :=
  unpack Format.binary32 (UnpackedFloat.pack Format.binary32 u)

/-- The numbers that words stand for. -/
inductive Canonical : UnpackedFloat → Prop
  | undefined : Canonical .notANumber
  | infinite (s : Sign) : Canonical (.infinity s)
  | zero (s : Sign) : Canonical (.zero s)
  | subnormal (s : Sign) {m : Nat} (pos : 0 < m) (lt : m < 2 ^ 23) :
      Canonical (.finite s m (-149) pos)
  | normal (s : Sign) {m : Nat} {e : Int} (pos : 0 < m) (le : 2 ^ 23 ≤ m) (lt : m < 2 ^ 24)
      (low : -149 ≤ e) (high : e ≤ 104) : Canonical (.finite s m e pos)

/-! ### Words and their fields -/

def ofFields (s : Sign) (e : BitVec 8) (m : BitVec 23) : UnpackedFloat :=
  if e = 255#8 then if m = 0#23 then .infinity s else .notANumber
  else if e = 0#8 then
    if h : m = 0#23 then .zero s
    else .finite s m.toNat (-149) (by simpa [BitVec.toNat_pos, BitVec.pos_iff_ne_zero])
  else .finite s (2 ^ 23 + m.toNat) (e.toNat - 150) (by omega)

theorem toNat_one_append {w : Nat} (v : BitVec w) : (1#1 ++ v).toNat = 2 ^ w + v.toNat := by
  rw [BitVec.toNat_append, ← Nat.shiftLeft_add_eq_or_of_lt v.isLt]
  simp [Nat.shiftLeft_eq]

theorem unpack_eq (b : BitVec 32) : unpack Format.binary32 b =
    ofFields (Sign.ofBitVec (@unpackSign Format.binary32 b))
      (@unpackExponent Format.binary32 b)
      (@unpackMantissa Format.binary32 b) := by
  have hbias : ((Format.binary32.exponentBias : Nat) : Int) = 127 := rfl
  have htop : (-1#8) = 255#8 := rfl
  unfold unpack ofFields
  simp only [hbias, toNat_one_append, htop]
  split
  · rfl
  · split
    · next he =>
      split
      · rfl
      · simp [he]
    · rfl

theorem unpackSign_packComponents (s : Sign) (e : BitVec 8) (m : BitVec 23) :
    Sign.ofBitVec (unpackSign (packComponents Format.binary32 s e m)) = s := by
  simp only [unpackSign, packComponents, BitVec.extractLsb]
  rw [BitVec.extractLsb'_append_eq_of_le (by omega), BitVec.extractLsb'_append_eq_of_le (by omega)]
  cases s <;> rfl

theorem unpack_packComponents (s : Sign) (e : BitVec 8) (m : BitVec 23) :
    unpack Format.binary32 (packComponents Format.binary32 s e m) = ofFields s e m := by
  have hs := unpackSign_packComponents s e m
  rw [unpack_eq, hs]
  simp

theorem canonical_ofFields (s : Sign) (e : BitVec 8) (m : BitVec 23) :
    Canonical (ofFields s e m) := by
  have hm := m.isLt
  have he := e.isLt
  unfold ofFields
  by_cases htop : e = 255#8
  · rw [if_pos htop]
    split
    · exact .infinite s
    · exact .undefined
  · have htop' : e.toNat ≠ 255 := fun h => htop (BitVec.eq_of_toNat_eq h)
    rw [if_neg htop]
    by_cases hzero : e = 0#8
    · rw [if_pos hzero]
      split
      · exact .zero s
      · exact .subnormal s _ hm
    · have hzero' : e.toNat ≠ 0 := fun h => hzero (BitVec.eq_of_toNat_eq h)
      rw [if_neg hzero]
      exact .normal s _ (by omega) (by omega) (by omega) (by omega)

theorem canonical_value (x : Binary32) : Canonical x.value := by
  rw [value, unpack_eq]
  exact canonical_ofFields _ _ _

theorem Canonical.stored {u : UnpackedFloat} (h : Canonical u) : stored u = u := by
  have hbias : ((Format.binary32.exponentBias : Nat) : Int) = 127 := rfl
  cases h with
  | undefined => rfl
  | infinite s => cases s <;> rfl
  | zero s => cases s <;> rfl
  | @subnormal s m pos lt =>
    have hlog : m.log2 < 23 := (Nat.log2_lt (by omega)).mpr lt
    have hm : BitVec.ofNat 23 m ≠ 0#23 := fun h => by
      have hh := congrArg BitVec.toNat h
      simp at hh
      omega
    rw [Binary32.stored, UnpackedFloat.pack]
    simp only [hbias, Format.mantissaBits]
    rw [if_neg (by decide), if_neg (by omega)]
    rw [unpack_packComponents, ofFields, if_neg (by decide), if_pos rfl, dif_neg hm]
    simp
    omega
  | @normal s m e pos le lt low high =>
    have hlog : m.log2 = 23 := (Nat.log2_eq_iff (by omega)).mpr ⟨le, lt⟩
    have hexponent : (BitVec.ofNat 8 (e + 127 + (23 : Nat)).toNat).toNat = (e + 150).toNat := by
      rw [BitVec.toNat_ofNat]
      omega
    have htop : BitVec.ofNat 8 (e + 127 + (23 : Nat)).toNat ≠ 255#8 := fun h => by
      have hh : (e + 150).toNat = 255 := hexponent.symm.trans (congrArg BitVec.toNat h)
      omega
    have hzero : BitVec.ofNat 8 (e + 127 + (23 : Nat)).toNat ≠ 0#8 := fun h => by
      have hh : (e + 150).toNat = 0 := hexponent.symm.trans (congrArg BitVec.toNat h)
      omega
    rw [Binary32.stored, UnpackedFloat.pack]
    simp only [hbias, Format.mantissaBits, hlog]
    rw [if_neg (by omega), if_pos trivial, unpack_packComponents, ofFields, if_neg htop,
      if_neg hzero]
    simp only [hexponent, BitVec.toNat_ofNat, UnpackedFloat.finite.injEq, true_and]
    omega

/-! ### Operations -/

theorem toNat_unpackExponent (b : BitVec 32) :
    (@unpackExponent Format.binary32 b).toNat = b.toNat / 2 ^ 23 % 2 ^ 8 := by
  simp [unpackExponent, BitVec.extractLsb_toNat, Nat.shiftRight_eq_div_pow]

theorem toNat_unpackMantissa (b : BitVec 32) :
    (@unpackMantissa Format.binary32 b).toNat = b.toNat % 2 ^ 23 := by
  simp [unpackMantissa, BitVec.extractLsb_toNat]

theorem ofFields_eq_notANumber_iff {s : Sign} {e : BitVec 8} {m : BitVec 23} :
    ofFields s e m = .notANumber ↔ e.toNat = 255 ∧ m.toNat ≠ 0 := by
  have htop : e = 255#8 ↔ e.toNat = 255 := by rw [← BitVec.toNat_inj]; rfl
  have hzero : m = 0#23 ↔ m.toNat = 0 := by rw [← BitVec.toNat_inj]; rfl
  unfold ofFields
  rw [← htop, ne_eq, ← hzero]
  by_cases he : e = 255#8
  · by_cases hm : m = 0#23 <;> simp [he, hm]
  · simp only [he, if_false, false_and, iff_false]
    split
    · split <;> simp
    · simp

theorem isUndefined_iff (x : Binary32) : x.isUndefined = true ↔ x.value = .notANumber := by
  have hlow : (x.bits &&& 0x7fffffff).toNat = x.bits.toNat % 2 ^ 31 :=
    Nat.and_two_pow_sub_one_eq_mod x.bits.toNat 31
  rw [value, unpack_eq, ofFields_eq_notANumber_iff, toNat_unpackExponent, toNat_unpackMantissa,
    isUndefined, decide_eq_true_iff, UInt32.lt_iff_toNat_lt, hlow, UInt32.toNat_toBitVec]
  change 2139095040 < _ ↔ _
  omega

theorem value_quieted {x : Binary32} (h : x.value = .notANumber) :
    x.quieted.value = .notANumber := by
  rw [← isUndefined_iff, isUndefined, decide_eq_true_iff, UInt32.lt_iff_toNat_lt] at h ⊢
  have hor : (x.quieted.bits &&& 0x7fffffff).toNat =
      (x.bits &&& 0x7fffffff).toNat ||| (0x400000 : UInt32).toNat := by
    rw [quieted, UInt32.toNat_and, UInt32.toNat_or, Nat.and_or_distrib_right]
    rfl
  rw [hor]
  exact h.trans_le Nat.left_le_or

theorem value_settle (a b : Binary32) (f : Float32) : (settle a b f).value = f.toModel.unpack := by
  have hresult : (ofFloat32 f).value = f.toModel.unpack := rfl
  by_cases h : (ofFloat32 f).isUndefined = true
  · rw [← hresult, (isUndefined_iff _).mp h]
    by_cases ha : a.isUndefined = true
    · have hsettle : settle a b f = a.quieted := by simp [settle, h, ha]
      rw [hsettle, value_quieted ((isUndefined_iff a).mp ha)]
    · by_cases hb : b.isUndefined = true
      · have hsettle : settle a b f = b.quieted := by simp [settle, h, ha, hb]
        rw [hsettle, value_quieted ((isUndefined_iff b).mp hb)]
      · have hsettle : settle a b f = invalid := by simp [settle, h, ha, hb]
        rw [hsettle]
        rfl
  · have hsettle : settle a b f = ofFloat32 f := by simp [settle, h]
    rw [hsettle, hresult]

theorem unpack_toFloat32 (x : Binary32) : x.toFloat32.toModel.unpack = x.value := by
  change stored x.value = x.value
  exact (canonical_value x).stored

theorem value_add (a b : Binary32) :
    (a + b).value = stored (UnpackedFloat.add Format.binary32 a.value b.value) := by
  rw [← unpack_toFloat32 a, ← unpack_toFloat32 b]
  exact value_settle a b _

theorem value_sub (a b : Binary32) :
    (a - b).value = stored (UnpackedFloat.sub Format.binary32 a.value b.value) := by
  rw [← unpack_toFloat32 a, ← unpack_toFloat32 b]
  exact value_settle a b _

theorem value_mul (a b : Binary32) :
    (a * b).value = stored (UnpackedFloat.mul Format.binary32 a.value b.value) := by
  rw [← unpack_toFloat32 a, ← unpack_toFloat32 b]
  exact value_settle a b _

theorem value_div (a b : Binary32) :
    (a / b).value = stored (UnpackedFloat.div Format.binary32 a.value b.value) := by
  rw [← unpack_toFloat32 a, ← unpack_toFloat32 b]
  exact value_settle a b _

theorem value_sqrt (a : Binary32) :
    a.sqrt.value = stored (UnpackedFloat.sqrt Format.binary32 a.value) := by
  rw [← unpack_toFloat32 a]
  exact value_settle a a _

theorem lessEq_eq (a b : Binary32) : a.lessEq b = a.value.le b.value := by
  rw [← unpack_toFloat32 a, ← unpack_toFloat32 b]
  change decide (a.toFloat32.le b.toFloat32 = true) = _
  rw [Bool.decide_eq_true]
  exact Bool.decide_eq_true

theorem less_eq (a b : Binary32) : a.less b = a.value.lt b.value := by
  rw [← unpack_toFloat32 a, ← unpack_toFloat32 b]
  change decide (a.toFloat32.lt b.toFloat32 = true) = _
  rw [Bool.decide_eq_true]
  exact Bool.decide_eq_true

theorem toNat_unpackSign (b : BitVec 32) :
    (@unpackSign Format.binary32 b).toNat = b.toNat / 2 ^ 31 % 2 := by
  simp [unpackSign, BitVec.extractLsb_toNat, Nat.shiftRight_eq_div_pow]

theorem abs_ofFields (s : Sign) (e : BitVec 8) (m : BitVec 23) :
    (ofFields s e m).abs = ofFields .positive e m := by
  unfold ofFields
  by_cases htop : e = 255#8
  · by_cases hm : m = 0#23 <;> simp [htop, hm, UnpackedFloat.abs]
  · by_cases hzero : e = 0#8
    · by_cases hm : m = 0#23 <;> simp [hzero, hm, UnpackedFloat.abs]
    · simp [htop, hzero, UnpackedFloat.abs]

theorem value_abs (x : Binary32) : x.abs.value = x.value.abs := by
  have hlow : x.abs.bits.toBitVec.toNat = x.bits.toBitVec.toNat % 2 ^ 31 :=
    Nat.and_two_pow_sub_one_eq_mod x.bits.toNat 31
  have hs : @unpackSign Format.binary32 x.abs.bits.toBitVec = 0#1 := by
    rw [← BitVec.toNat_inj, toNat_unpackSign, hlow]
    simp
  have he : @unpackExponent Format.binary32 x.abs.bits.toBitVec =
      @unpackExponent Format.binary32 x.bits.toBitVec := by
    rw [← BitVec.toNat_inj, toNat_unpackExponent, toNat_unpackExponent, hlow]
    omega
  have hm : @unpackMantissa Format.binary32 x.abs.bits.toBitVec =
      @unpackMantissa Format.binary32 x.bits.toBitVec := by
    rw [← BitVec.toNat_inj, toNat_unpackMantissa, toNat_unpackMantissa, hlow]
    omega
  rw [value, value, unpack_eq, unpack_eq, abs_ofFields, hs, he, hm]
  rfl

theorem isFinite_ofFields (s : Sign) (e : BitVec 8) (m : BitVec 23) :
    (ofFields s e m).isFinite = !decide (e = 255#8) := by
  unfold ofFields
  by_cases htop : e = 255#8
  · by_cases hm : m = 0#23 <;> simp [htop, hm, UnpackedFloat.isFinite]
  · by_cases hzero : e = 0#8
    · by_cases hm : m = 0#23 <;> simp [hzero, hm, UnpackedFloat.isFinite]
    · simp [htop, hzero, UnpackedFloat.isFinite]

theorem isFinite_eq (x : Binary32) : x.isFinite = x.value.isFinite := by
  -- the mask cuts out the exponent
  have hmask : ∀ n : Nat, n &&& (2 ^ 8 - 1) <<< 23 = (n >>> 23 % 2 ^ 8) <<< 23 := by
    refine fun n => Nat.eq_of_testBit_eq fun i => ?_
    simp only [Nat.testBit_and, Nat.testBit_shiftLeft, Nat.testBit_two_pow_sub_one,
      Nat.testBit_mod_two_pow, Nat.testBit_shiftRight]
    by_cases hi : 23 ≤ i
    · simp [hi, Bool.and_comm]
    · simp [hi]
  have hbits : x.bits &&& 0x7f800000 = 0x7f800000 ↔ x.bits.toNat / 2 ^ 23 % 2 ^ 8 = 255 := by
    rw [← UInt32.toNat_inj, UInt32.toNat_and]
    change x.bits.toNat &&& (2 ^ 8 - 1) <<< 23 = 2139095040 ↔ _
    rw [hmask, Nat.shiftRight_eq_div_pow, Nat.shiftLeft_eq]
    omega
  have hexponent : @unpackExponent Format.binary32 x.bits.toBitVec = 255#8 ↔
      x.bits.toNat / 2 ^ 23 % 2 ^ 8 = 255 := by
    rw [← BitVec.toNat_inj, toNat_unpackExponent]
    rfl
  rw [value, unpack_eq, isFinite_ofFields, isFinite, bne, ← decide_eq_decide.mpr
    (hbits.trans hexponent.symm)]
  rfl

/-! ### Signs -/

/-- A number of the given sign; zeros are of either. -/
def Signed (s : Sign) : UnpackedFloat → Prop
  | .notANumber => False
  | .zero _ => True
  | .infinity s' => s' = s
  | .finite s' _ _ _ => s' = s

theorem signed_ofFields {s : Sign} {e : BitVec 8} {m : BitVec 23} (h : e ≠ 255#8) :
    Signed s (ofFields s e m) := by
  rw [ofFields, if_neg h]
  split
  · split
    · trivial
    · rfl
  · rfl

/-- Storing a number keeps its sign, also where it rounds up to infinity or down to zero. -/
theorem Signed.stored {s : Sign} {u : UnpackedFloat} (h : Signed s u) : Signed s (stored u) := by
  cases u with
  | notANumber => exact h.elim
  | infinity s' => rwa [(Canonical.infinite s').stored]
  | zero s' => rwa [(Canonical.zero s').stored]
  | finite s' m e pos =>
    obtain rfl : s' = s := h
    rw [Binary32.stored, UnpackedFloat.pack]
    simp only
    split
    · rw [packedInfinity, unpack_packComponents]
      rfl
    · next hbiased =>
      split
      · rw [unpack_packComponents]
        refine signed_ofFields fun he => hbiased ?_
        have hh := congrArg BitVec.toNat he
        simp only [BitVec.toNat_ofNat] at hh
        omega
      · rw [unpack_packComponents]
        exact signed_ofFields (by decide)

theorem signed_round (s : Sign) (m : Nat) (e : Int) (a : Accuracy) :
    Signed s (roundWithAccuracy Format.binary32 s m e a) := by
  unfold roundWithAccuracy
  simp only
  split
  · trivial
  · rfl

theorem zero_le_of_signed {s : Sign} {u : UnpackedFloat} (h : Signed .positive u) :
    (UnpackedFloat.zero s).le u = true := by
  cases u with
  | notANumber => exact h.elim
  | infinity s' =>
    cases h
    rfl
  | zero s' => rfl
  | finite s' m e pos =>
    cases h
    rfl

theorem mantissa_shiftRight (em : ExtendedMantissa) (k : Nat) :
    (em >>> k).mantissa = em.mantissa / 2 ^ k := by
  induction k with
  | zero => simp [HShiftRight.hShiftRight, Nat.repeat]
  | succ k ih =>
    change (em >>> k).mantissa / 2 = _
    rw [ih, Nat.div_div_eq_div_mul, Nat.pow_succ]

theorem le_roundedMantissa (em : ExtendedMantissa) : em.mantissa ≤ em.roundedMantissa := by
  obtain ⟨m, round, sticky⟩ := em
  cases round <;> cases sticky <;>
    simp [ExtendedMantissa.roundedMantissa, ExtendedMantissa.accuracy, Accuracy.roundToNearestEven]

theorem div_pow_pos {m k : Nat} (hm : 0 < m) (hk : k ≤ m.log2) : 0 < m / 2 ^ k :=
  Nat.div_pos ((Nat.le_log2 hm.ne').mp hk) (Nat.two_pow_pos k)

theorem cut_bounds {m : Nat} {e : Int} (hm : 0 < m) (he : -149 - e ≤ m.log2) :
    0 < m / 2 ^ (Format.binary32.targetExponent (totalExponent m e) - e).toNat ∧
      m / 2 ^ (Format.binary32.targetExponent (totalExponent m e) - e).toNat < 2 ^ 24 ∧
      -149 ≤ e + (Format.binary32.targetExponent (totalExponent m e) - e).toNat := by
  have htarget : Format.binary32.targetExponent (totalExponent m e) =
      max ((m.log2 : Int) + 1 + e - 24) (-149) := rfl
  rw [htarget]
  generalize hk : (max ((m.log2 : Int) + 1 + e - 24) (-149) - e).toNat = k
  refine ⟨div_pow_pos hm (by omega), ?_, by omega⟩
  rw [Nat.div_lt_iff_lt_mul (Nat.two_pow_pos k), ← Nat.pow_add]
  exact Nat.lt_log2_self.trans_le (Nat.pow_le_pow_right (by decide) (by omega))

theorem round_eq_finite (s : Sign) {m : Nat} {e : Int} (hm : 0 < m) (he : -149 - e ≤ m.log2) :
    ∃ m' e' pos, roundWithAccuracy Format.binary32 s m e .exact = .finite s m' e' pos ∧
      m' < 2 ^ 24 ∧ -149 ≤ e' := by
  obtain ⟨hpos, -, hlow⟩ := cut_bounds hm he
  unfold roundWithAccuracy shiftToTargetExponent shiftToExponent
  simp only [mantissa_shiftRight, ExtendedMantissa.ofMantissaAndAccuracy]
  generalize hk : (Format.binary32.targetExponent (totalExponent m e) - e).toNat = k at *
  have hrounded : 0 < (ExtendedMantissa.mk m false false >>> k).roundedMantissa := by
    have hle := le_roundedMantissa (ExtendedMantissa.mk m false false >>> k)
    rw [mantissa_shiftRight] at hle
    exact hpos.trans_le hle
  obtain ⟨hpos', hlt, hlow'⟩ := cut_bounds (e := e + k) hrounded (by omega)
  split
  · next hzero => exact absurd hzero hpos'.ne'
  · exact ⟨_, _, hpos', rfl, hlt, hlow'⟩

/-- A finite number does not vanish when it is stored. -/
theorem stored_finite {s : Sign} {m : Nat} {e : Int} (pos : 0 < m) (lt : m < 2 ^ 24)
    (low : -149 ≤ e) :
    stored (.finite s m e pos) = .infinity s ∨
      ∃ m' e' pos', stored (.finite s m e pos) = .finite s m' e' pos' := by
  have hsigned : Signed s (stored (.finite s m e pos)) := Signed.stored (u := .finite s m e pos) rfl
  have hzero : ∀ s', stored (.finite s m e pos) ≠ .zero s' := by
    intro s'
    rw [Binary32.stored, UnpackedFloat.pack]
    simp only
    split
    · rw [packedInfinity, unpack_packComponents]
      simp [ofFields]
    · next hbiased =>
      have hbias : ((Format.binary32.exponentBias : Nat) : Int) = 127 := rfl
      simp only [hbias] at hbiased ⊢
      split
      · -- a normal number has an exponent
        have hexponent : BitVec.ofNat 8 (e + 127 + (23 : Nat)).toNat ≠ 0#8 := fun h => by
          have hh := congrArg BitVec.toNat h
          simp only [BitVec.toNat_ofNat] at hh
          omega
        rw [unpack_packComponents, ofFields, if_neg hexponent]
        split
        · split <;> simp
        · simp
      · next hlog =>
        -- and a smaller one has a fraction
        have hsmall : m < 2 ^ 23 := by
          by_contra hle
          exact hlog (congrArg (· + 1) ((Nat.log2_eq_iff pos.ne').mpr ⟨not_lt.mp hle, lt⟩))
        have hfraction : BitVec.ofNat 23 m ≠ 0#23 := fun h => by
          have hh := congrArg BitVec.toNat h
          simp only [BitVec.toNat_ofNat] at hh
          omega
        rw [unpack_packComponents, ofFields, if_neg (by decide), if_pos rfl, dif_neg hfraction]
        simp
  generalize stored (.finite s m e pos) = u at *
  cases u with
  | notANumber => exact hsigned.elim
  | infinity s' => exact .inl (congrArg _ hsigned)
  | zero s' => exact absurd rfl (hzero s')
  | finite s' m' e' pos' =>
    obtain rfl : s' = s := hsigned
    exact .inr ⟨m', e', pos', rfl⟩

theorem signed_of_zero_le {s : Sign} {u : UnpackedFloat}
    (h : (UnpackedFloat.zero s).le u = true) : Signed .positive u := by
  cases u with
  | notANumber => cases h
  | infinity s' =>
    cases s' with
    | negative => cases h
    | positive => rfl
  | zero s' => trivial
  | finite s' m e pos =>
    cases s' with
    | negative => cases h
    | positive => rfl

/-! ### Zeros -/

/-- Numbers that compare alike: zeros of either sign do. -/
inductive Agrees : UnpackedFloat → UnpackedFloat → Prop
  | refl (u : UnpackedFloat) : Agrees u u
  | zeros (s s' : Sign) : Agrees (.zero s) (.zero s')

theorem Agrees.stored {u v : UnpackedFloat} (h : Agrees u v) (hv : Canonical v) :
    Agrees (stored u) v := by
  cases h with
  | refl =>
    rw [hv.stored]
    exact .refl u
  | zeros s s' =>
    rw [(Canonical.zero s).stored]
    exact .zeros s s'

theorem Agrees.lt_eq {u v : UnpackedFloat} (h : Agrees u v) (w : UnpackedFloat) :
    u.lt w = v.lt w := by
  cases h with
  | refl => rfl
  | zeros s s' =>
    cases w with
    | infinity t => cases t <;> rfl
    | finite t => cases t <;> rfl
    | _ => rfl

theorem Agrees.sub_eq_zero {u v : UnpackedFloat} (h : Agrees u v) (hv : v.isFinite = true) :
    ∃ s, UnpackedFloat.sub Format.binary32 u v = .zero s := by
  cases h with
  | refl =>
    cases u with
    | notANumber => cases hv
    | infinity s => cases hv
    | zero s => cases s <;> exact ⟨_, rfl⟩
    | finite s m e pos =>
      refine ⟨.positive, ?_⟩
      rw [UnpackedFloat.sub]
      simp only [Int.sub_self]
      rfl
  | zeros s s' => cases s <;> cases s' <;> exact ⟨_, rfl⟩

theorem agrees_add_zero (u : UnpackedFloat) (s : Sign) :
    Agrees (UnpackedFloat.add Format.binary32 u (.zero s)) u := by
  cases u with
  | zero s' => cases s <;> cases s' <;> exact .zeros _ _
  | _ => exact .refl _

theorem agrees_zero_add (s : Sign) (u : UnpackedFloat) :
    Agrees (UnpackedFloat.add Format.binary32 (.zero s) u) u := by
  cases u with
  | zero s' => cases s <;> cases s' <;> exact .zeros _ _
  | _ => exact .refl _

theorem value_mul_zero {x z : Binary32} {s : Sign} (hx : x.isFinite = true)
    (hz : z.value = .zero s) : ∃ s', (x * z).value = .zero s' := by
  rw [isFinite_eq] at hx
  rw [value_mul, hz]
  generalize x.value = u at *
  cases u with
  | notANumber => cases hx
  | infinity s' => cases hx
  | zero s' => exact ⟨s' * s, (Canonical.zero _).stored⟩
  | finite s' m e pos => exact ⟨s' * s, (Canonical.zero _).stored⟩

theorem sub_add_of_not_finite {u : UnpackedFloat} (h : u.isFinite = false) (v : UnpackedFloat) :
    UnpackedFloat.sub Format.binary32 (stored (UnpackedFloat.add Format.binary32 u v)) u =
      .notANumber := by
  have hundefined : stored .notANumber = .notANumber := Canonical.undefined.stored
  cases u with
  | notANumber =>
    rw [UnpackedFloat.add, hundefined]
    rfl
  | infinity s =>
    have hsum : UnpackedFloat.add Format.binary32 (.infinity s) v = .infinity s ∨
        UnpackedFloat.add Format.binary32 (.infinity s) v = .notANumber := by
      cases v with
      | notANumber => exact .inr rfl
      | infinity s' => cases s <;> cases s' <;> simp [UnpackedFloat.add]
      | zero s' => exact .inl rfl
      | finite s' m e pos => exact .inl rfl
    obtain hsum | hsum := hsum <;> rw [hsum]
    · rw [(Canonical.infinite s).stored]
      cases s <;> rfl
    · rw [hundefined]
      rfl
  | zero s => cases h
  | finite s m e pos => cases h

theorem unpacked_mul_comm (u v : UnpackedFloat) :
    UnpackedFloat.mul Format.binary32 u v = UnpackedFloat.mul Format.binary32 v u := by
  have hsign : ∀ s s' : Sign, s * s' = s' * s := by rintro (_ | _) (_ | _) <;> rfl
  cases u <;> cases v <;> simp [UnpackedFloat.mul, hsign, Nat.mul_comm, Int.add_comm]

theorem value_mul_comm (x y : Binary32) : (x * y).value = (y * x).value := by
  rw [value_mul, value_mul, unpacked_mul_comm]

def Negative (u : UnpackedFloat) : Prop :=
  u = .infinity .negative ∨ ∃ m e pos, u = .finite .negative m e pos

theorem negative_of_not_zero_le {s : Sign} {u : UnpackedFloat}
    (h : (UnpackedFloat.zero s).le u = false) : u = .notANumber ∨ Negative u := by
  cases u with
  | notANumber => exact .inl rfl
  | infinity s' =>
    cases s' with
    | negative => exact .inr (.inl rfl)
    | positive => cases h
  | zero s' => cases h
  | finite s' m e pos =>
    cases s' with
    | negative => exact .inr (.inr ⟨m, e, pos, rfl⟩)
    | positive => cases h

theorem not_abs_le_of_negative {u v : UnpackedFloat} (h : Negative v) : u.abs.le v = false := by
  obtain rfl | ⟨m, e, pos, rfl⟩ := h <;> cases u <;> rfl

theorem value_two :
    (⟨0x40000000⟩ : Binary32).value = .finite .positive (2 ^ 23) (-22) (by decide) := rfl

theorem signed_twice {s : Sign} {x : Binary32} (h : Signed s x.value) :
    Signed s (⟨0x40000000⟩ * x : Binary32).value := by
  have hsign : Sign.positive * s = s := by cases s <;> rfl
  rw [value_mul, value_two]
  refine Signed.stored ?_
  generalize x.value = u at *
  cases u with
  | notANumber => exact h.elim
  | infinity s' =>
    cases h
    exact hsign
  | zero s' => trivial
  | finite s' m e pos =>
    cases h
    have hmul : UnpackedFloat.mul Format.binary32 (.finite .positive (2 ^ 23) (-22) (by decide))
        (.finite s m e pos) = UnpackedFloat.roundWithAccuracy Format.binary32
          (Sign.positive * s) (2 ^ 23 * m) (-22 + e) .exact := rfl
    rw [hmul, hsign]
    exact signed_round s (2 ^ 23 * m) (-22 + e) .exact

theorem negative_twice {x : Binary32} (h : Negative x.value) :
    Negative (⟨0x40000000⟩ * x : Binary32).value := by
  have hcanonical := canonical_value x
  rw [value_mul, value_two]
  obtain hx | ⟨m, e, pos, hx⟩ := h
  · rw [hx]
    exact .inl (Canonical.infinite .negative).stored
  · rw [hx] at hcanonical ⊢
    have hlow : -149 ≤ e := by
      cases hcanonical with
      | subnormal => exact le_rfl
      | normal _ _ _ _ low => exact low
    have hlog : 23 ≤ (2 ^ 23 * m).log2 :=
      (Nat.le_log2 (by omega)).mpr (Nat.le_mul_of_pos_right _ pos)
    obtain ⟨m', e', pos', hround, hlt, hlow'⟩ := round_eq_finite .negative (m := 2 ^ 23 * m)
      (e := -22 + e) (by omega) (by omega)
    have hmul : UnpackedFloat.mul Format.binary32 (.finite .positive (2 ^ 23) (-22) (by decide))
        (.finite .negative m e pos) = .finite .negative m' e' pos' := hround
    rw [hmul]
    exact stored_finite pos' hlt hlow'

end Backprop.Binary32
