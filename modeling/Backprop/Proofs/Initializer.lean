import Mathlib
import Backprop.Initializer
import Backprop.Proofs.Backend.Allocation
import Backprop.Proofs.Number.Binary32

/-! Which first values can be drawn. A range has to be of finite width, and a loop that draws until
it accepts a value has to accept one at all. -/

namespace Backprop

open Float.Model (Format UnpackedFloat)
open Float.Model.UnpackedFloat

/-- A loop that draws until a value is accepted. -/
structure Redraw where
  draw : Generator → Binary32 × Generator
  accept : Binary32 → Bool

namespace Redraw

variable {r : Redraw}

def Accepts (r : Redraw) (g : Generator) : Prop := r.accept (r.draw g).1 = true

def after (r : Redraw) (count : Nat) (g : Generator) : Generator :=
  (fun g => (r.draw g).2)^[count] g

def run (r : Redraw) (limit : Nat) (g : Generator) : Except Error (Binary32 × Generator) :=
  g.redraw r.draw r.accept limit

theorem run_succ (limit : Nat) (g : Generator) : r.run (limit + 1) g =
    if r.accept (r.draw g).1 then .ok (r.draw g) else r.run limit (r.draw g).2 := rfl

/-- The loop is cut short where all draws up to its limit are rejected, and does not fail
otherwise. -/
theorem run_error_iff {limit : Nat} {g : Generator} {e : Error} : r.run limit g = .error e ↔
    e = .fault .endlessRedraw ∧ ∀ k < limit, ¬r.Accepts (r.after k g) := by
  induction limit generalizing g with
  | zero =>
    have hrun : r.run 0 g = .error (.fault .endlessRedraw) := rfl
    simp [hrun, eq_comm]
  | succ limit ih =>
    rw [run_succ]
    by_cases hg : r.accept (r.draw g).1 = true
    · rw [if_pos hg]
      constructor
      · intro h
        cases h
      · rintro ⟨-, h⟩
        exact absurd hg (h 0 (Nat.succ_pos limit))
    · rw [if_neg hg, ih]
      refine and_congr_right fun _ => ⟨fun h k hk => ?_, fun h k hk => ?_⟩
      · cases k with
        | zero => exact hg
        | succ k => exact h k (by omega)
      · exact h (k + 1) (by omega)

end Redraw

namespace Generator

variable {draw : Generator → Except Error (Binary32 × Generator)} {count : Nat}
  {drawn : Array Binary32} {g : Generator} {e : Error}

theorem drawMany_error (h : g.drawMany draw count drawn = .error e) : ∃ g', draw g' = .error e := by
  induction count generalizing g drawn with
  | zero => cases h
  | succ count ih =>
    rw [drawMany] at h
    split at h
    · exact ih h
    · next e' he =>
      cases h
      exact ⟨g, he⟩

theorem drawMany_of_error (h : ∀ g, draw g = .error e) (hcount : count ≠ 0) :
    g.drawMany draw count drawn = .error e := by
  obtain ⟨count, rfl⟩ := Nat.exists_eq_succ_of_ne_zero hcount
  rw [drawMany, h]

def starting (word : UInt32) : Generator :=
  { key := Vector.replicate 8 0, drawn := 0, block := .ofFn fun i => if i.val = 0 then word else 0 }

theorem standardNormal_starting_zero : (starting 0).standardNormal.1 = ⟨0x80000000⟩ := by
  decide +kernel

theorem standardNormal_starting_half :
    (starting 0x80000000).standardNormal.1 = ⟨0x3f96b55f⟩ := by
  decide +kernel

/-! ### Values near the mean -/

variable {mean stddev z : Binary32}

theorem normal_fst (mean stddev : Binary32) (g : Generator) :
    (g.normal mean stddev).1 = mean + stddev * g.standardNormal.1 := rfl

theorem isNear_eq (mean stddev x : Binary32) : isNear mean stddev x =
    (Binary32.stored (UnpackedFloat.sub Format.binary32 x.value mean.value)).abs.le
      (⟨0x40000000⟩ * stddev : Binary32).value := by
  rw [isNear, Binary32.lessEq_eq, Binary32.value_abs, Binary32.value_sub]

theorem isNear_of_zero {s : Sign} (hz : z.value = .zero s) (hmean : mean.isFinite = true)
    (hfinite : stddev.isFinite = true) (hstddev : Binary32.Signed .positive stddev.value) :
    isNear mean stddev (mean + stddev * z) = true := by
  obtain ⟨s', hproduct⟩ := Binary32.value_mul_zero hfinite hz
  have hsum : Binary32.Agrees (mean + stddev * z).value mean.value := by
    rw [Binary32.value_add, hproduct]
    exact (Binary32.agrees_add_zero _ _).stored (Binary32.canonical_value mean)
  obtain ⟨t, hdifference⟩ := hsum.sub_eq_zero (Binary32.isFinite_eq mean ▸ hmean)
  rw [isNear_eq, hdifference, (Binary32.Canonical.zero t).stored]
  exact Binary32.zero_le_of_signed (Binary32.signed_twice hstddev)

theorem isNear_of_infinite {m : Nat} {e : Int} {pos : 0 < m}
    (hz : z.value = .finite .positive m e pos) (hmean : mean.isFinite = true)
    (hstddev : stddev.value = .infinity .positive) :
    isNear mean stddev (mean + stddev * z) = true := by
  have hinfinite := (Binary32.Canonical.infinite .positive).stored
  have hproduct : (stddev * z).value = .infinity .positive := by
    rw [Binary32.value_mul, hstddev, hz]
    exact hinfinite
  have htwice : (⟨0x40000000⟩ * stddev : Binary32).value = .infinity .positive := by
    rw [Binary32.value_mul, hstddev, Binary32.value_two]
    exact hinfinite
  rw [isNear_eq, htwice, Binary32.value_add, hproduct]
  rw [Binary32.isFinite_eq] at hmean
  generalize mean.value = u at *
  cases u with
  | notANumber => cases hmean
  | infinity s => cases hmean
  | zero s =>
    rw [UnpackedFloat.add, hinfinite, UnpackedFloat.sub, hinfinite]
    · rfl
    all_goals simp
  | finite s m e pos =>
    rw [UnpackedFloat.add, hinfinite, UnpackedFloat.sub, hinfinite]
    · rfl
    all_goals simp

theorem not_isNear (h : ¬(mean.isFinite = true ∧ (0 : Binary32).lessEq stddev = true))
    (x : Binary32) : isNear mean stddev (mean + x) = false := by
  rw [isNear_eq]
  by_cases hmean : mean.isFinite = true
  · have hstddev : (UnpackedFloat.zero .positive).le stddev.value = false := by
      rw [Binary32.lessEq_eq] at h
      exact Bool.eq_false_iff.mpr fun hle => h ⟨hmean, hle⟩
    obtain hundefined | hnegative := Binary32.negative_of_not_zero_le hstddev
    · have htwice : (⟨0x40000000⟩ * stddev : Binary32).value = .notANumber := by
        rw [Binary32.value_mul, hundefined]
        exact Binary32.Canonical.undefined.stored
      rw [htwice]
      generalize (Binary32.stored _).abs = u
      cases u <;> rfl
    · exact Binary32.not_abs_le_of_negative (Binary32.negative_twice hnegative)
  · have hinfinite : mean.value.isFinite = false := by
      rw [← Binary32.isFinite_eq]
      exact Bool.eq_false_iff.mpr hmean
    rw [Binary32.value_add, Binary32.sub_add_of_not_finite hinfinite,
      Binary32.Canonical.undefined.stored]
    rfl

/-- Some value lies near the mean, unless none can. -/
theorem exists_isNear_iff : (∃ g : Generator, isNear mean stddev (g.normal mean stddev).1 = true) ↔
    mean.isFinite = true ∧ (0 : Binary32).lessEq stddev = true := by
  constructor
  · rintro ⟨g, hg⟩
    by_contra h
    have hnot := not_isNear h (stddev * g.standardNormal.1)
    exact Bool.false_ne_true (hnot.symm.trans hg)
  · rintro ⟨hmean, hstddev⟩
    have hsigned : Binary32.Signed .positive stddev.value := by
      rw [Binary32.lessEq_eq] at hstddev
      exact Binary32.signed_of_zero_le hstddev
    by_cases hfinite : stddev.isFinite = true
    · refine ⟨starting 0, ?_⟩
      rw [normal_fst, standardNormal_starting_zero]
      exact isNear_of_zero (s := .negative) rfl hmean hfinite hsigned
    · refine ⟨starting 0x80000000, ?_⟩
      rw [normal_fst, standardNormal_starting_half]
      have hz : (⟨0x3f96b55f⟩ : Binary32).value =
          .finite .positive (2 ^ 23 + 0x16b55f) (-23) (by decide) := rfl
      refine isNear_of_infinite hz hmean ?_
      rw [Binary32.isFinite_eq] at hfinite
      generalize stddev.value = u at *
      cases u with
      | notANumber => exact hsigned.elim
      | infinity s =>
        cases hsigned
        rfl
      | zero s => exact absurd rfl hfinite
      | finite s m e pos => exact absurd rfl hfinite

theorem exists_candidate {low high : Binary32} (hless : low.less high = true)
    (hscale : (high - low).isFinite = true) :
    ∃ g : Generator, (g.nextCandidate low (high - low)).1.less high = true := by
  have hfraction : (⟨((starting 0).nextWord.1 >>> 9) ||| 0x3f800000⟩ - 1 : Binary32) = 0 := by
    decide +kernel
  have hcandidate : ((starting 0).nextCandidate low (high - low)).1 = 0 * (high - low) + low := by
    rw [← hfraction]
    rfl
  obtain ⟨s, hproduct⟩ := Binary32.value_mul_zero (z := 0) (s := .positive) hscale rfl
  have hlow : Binary32.Agrees (0 * (high - low) + low).value low.value := by
    rw [Binary32.value_add, Binary32.value_mul_comm, hproduct]
    exact (Binary32.agrees_zero_add s _).stored (Binary32.canonical_value low)
  refine ⟨starting 0, ?_⟩
  rw [hcandidate, Binary32.less_eq, hlow.lt_eq, ← Binary32.less_eq]
  exact hless

end Generator

namespace Binary32

theorem bits_ofInt_le (n : Nat) : (ofInt n).bits.toNat ≤ 0x7f800000 := by
  have hmagnitude : ∀ magnitude : Nat, (if magnitude < 0x7f800000 then ⟨UInt32.ofNat magnitude⟩
      else infinite false : Binary32).bits.toNat ≤ 0x7f800000 := by
    intro magnitude
    split
    · next hlt =>
      rw [UInt32.toNat_ofNat_of_lt' (hlt.trans (by decide))]
      exact hlt.le
    · exact le_rfl
  have hsign : ¬(n : Int) < 0 := by omega
  simp only [ofInt, ofDyadic, hsign, decide_false, Bool.false_eq_true, if_false]
  exact hmagnitude _

theorem signed_sqrt {x : Binary32} (h : Signed .positive x.value) :
    Signed .positive x.sqrt.value := by
  rw [value_sqrt]
  refine Signed.stored ?_
  generalize x.value = u at *
  cases u with
  | notANumber => exact h.elim
  | infinity s =>
    cases h
    rfl
  | zero s => trivial
  | finite s m e pos =>
    cases h
    exact signed_round _ _ _ _

theorem signed_two_div {x : Binary32} (h : x.bits.toNat ≤ 0x7f800000) :
    Signed .positive (⟨0x40000000⟩ / x : Binary32).value := by
  have hsign : @unpackSign Format.binary32 x.bits.toBitVec = 0#1 := by
    rw [← BitVec.toNat_inj, toNat_unpackSign, UInt32.toNat_toBitVec]
    change _ = 0
    omega
  have hvalue : x.value ≠ .notANumber := by
    rw [value, unpack_eq, ne_eq, ofFields_eq_notANumber_iff, toNat_unpackExponent,
      toNat_unpackMantissa, UInt32.toNat_toBitVec]
    omega
  rw [value_div, value_two]
  refine Signed.stored ?_
  rw [value, unpack_eq, hsign] at hvalue ⊢
  generalize @unpackExponent Format.binary32 x.bits.toBitVec = e at *
  generalize @unpackMantissa Format.binary32 x.bits.toBitVec = m at *
  unfold ofFields at hvalue ⊢
  split
  · split
    · trivial
    · simp_all
  · split
    · split
      · rfl
      · exact signed_round _ _ _ _
    · exact signed_round _ _ _ _

end Binary32

namespace Initializer

variable {init : Initializer} {shape : Shape} {g : Generator} {r : Redraw}

/-- Whether values can be drawn. -/
def Drawable : Initializer → Prop
  | constant _ => True
  | uniform low high => low.less high = true → (high - low).isFinite = true
  | normal _ _ => True
  | truncated mean stddev => mean.isFinite = true ∧ (0 : Binary32).lessEq stddev = true
  | xavier mean => mean.isFinite = true

/-- A range to draw from has to be of finite width. -/
def Bounded (init : Initializer) : Prop :=
  ∀ low high, init = uniform low high → low.less high = true → (high - low).isFinite = true

/-- The loop that draws a value, where there is one. -/
def redraw? (init : Initializer) (shape : Shape) : Option Redraw :=
  match init with
  | constant _ => none
  | uniform low high =>
    if low.less high then some ⟨(·.nextCandidate low (high - low)), (·.less high)⟩ else none
  | normal _ _ => none
  | truncated mean stddev => some ⟨Generator.normal mean stddev, Generator.isNear mean stddev⟩
  | xavier mean =>
    some ⟨Generator.normal mean (xavierStddev shape), Generator.isNear mean (xavierStddev shape)⟩

theorem zero_le_xavierStddev (shape : Shape) :
    (0 : Binary32).lessEq (xavierStddev shape) = true := by
  rw [Binary32.lessEq_eq]
  exact Binary32.zero_le_of_signed
    (Binary32.signed_sqrt (Binary32.signed_two_div (Binary32.bits_ofInt_le _)))

/-- Values can be drawn exactly where the range is bounded and the loop accepts some value. -/
theorem drawable_iff (init : Initializer) (shape : Shape) : init.Drawable ↔
    init.Bounded ∧ ∀ r ∈ init.redraw? shape, ∃ g, r.Accepts g := by
  cases init with
  | constant value => simp [Drawable, Bounded, redraw?]
  | normal mean stddev => simp [Drawable, Bounded, redraw?]
  | uniform low high =>
    have hbounded : (uniform low high).Bounded ↔
        (low.less high = true → (high - low).isFinite = true) := by
      simp [Bounded]
    rw [hbounded]
    refine ⟨fun h => ⟨h, fun r hr => ?_⟩, fun h => h.1⟩
    rw [redraw?, Option.mem_def] at hr
    split at hr
    · next hless =>
      cases hr
      exact Generator.exists_candidate hless (h hless)
    · cases hr
  | truncated mean stddev =>
    have hbounded : (truncated mean stddev).Bounded := fun _ _ h => by cases h
    have haccepts : (∀ r ∈ (truncated mean stddev).redraw? shape, ∃ g, r.Accepts g) ↔
        ∃ g : Generator, Generator.isNear mean stddev (g.normal mean stddev).1 = true := by
      simp [redraw?, Redraw.Accepts]
    rw [haccepts, Generator.exists_isNear_iff]
    exact (and_iff_right hbounded).symm
  | xavier mean =>
    have hbounded : (xavier mean).Bounded := fun _ _ h => by cases h
    have haccepts : (∀ r ∈ (xavier mean).redraw? shape, ∃ g, r.Accepts g) ↔
        ∃ g : Generator, Generator.isNear mean (xavierStddev shape)
          (g.normal mean (xavierStddev shape)).1 = true := by
      simp [redraw?, Redraw.Accepts]
    rw [haccepts, Generator.exists_isNear_iff, and_iff_right hbounded]
    exact (and_iff_left (zero_le_xavierStddev shape)).symm

theorem sample_eq_of_redraw (hr : r ∈ init.redraw? shape) (bounded : init.Bounded)
    (room : shape.elements * 4 ≤ sequenceLimit) :
    init.sample shape g = g.drawMany (r.run redrawLimit) shape.elements #[] := by
  have hroom : requireRoom shape.elements 4 = .ok ⟨⟩ := requireRoom_ok_iff.mpr room
  cases init with
  | constant value => cases hr
  | normal mean stddev => cases hr
  | uniform low high =>
    rw [redraw?, Option.mem_def] at hr
    split at hr
    · next hless =>
      cases hr
      have hscale := bounded low high rfl hless
      have huniform : (fun g : Generator => g.uniform low high) =
          Redraw.run ⟨(·.nextCandidate low (high - low)), (·.less high)⟩ redrawLimit := by
        funext g
        simp only [Generator.uniform, hscale, if_true]
        rfl
      rw [← huniform]
      simp only [sample, hroom, hless, if_true]
      rfl
    · cases hr
  | truncated mean stddev =>
    cases hr
    simp only [sample, hroom]
    rfl
  | xavier mean =>
    cases hr
    simp only [sample, hroom]
    rfl

theorem sample_of_not_redraw (hr : init.redraw? shape = none)
    (room : shape.elements * 4 ≤ sequenceLimit) :
    ∃ values g', init.sample shape g = .ok (values, g') := by
  have hroom : requireRoom shape.elements 4 = .ok ⟨⟩ := requireRoom_ok_iff.mpr room
  cases init with
  | constant value =>
    simp only [sample, hroom]
    exact ⟨_, _, rfl⟩
  | uniform low high =>
    rw [redraw?] at hr
    split at hr
    · cases hr
    · next hless =>
      simp only [sample, hroom, hless]
      exact ⟨_, _, rfl⟩
  | normal mean stddev =>
    have hsample : (normal mean stddev).sample shape g =
        g.drawMany (fun g => .ok (g.normal mean stddev)) shape.elements #[] := by
      simp only [sample, hroom]
      rfl
    cases hd : (normal mean stddev).sample shape g with
    | ok p => exact ⟨p.1, p.2, rfl⟩
    | error e =>
      obtain ⟨g', hg⟩ := Generator.drawMany_error (hsample.symm.trans hd)
      cases hg
  | truncated mean stddev => cases hr
  | xavier mean => cases hr

theorem sample_of_drawable (h : init.Drawable) (room : shape.elements * 4 ≤ sequenceLimit) :
    (∃ values g', init.sample shape g = .ok (values, g')) ∨
      init.sample shape g = .error (.fault .endlessRedraw) ∧
        ∃ r ∈ init.redraw? shape, ∃ g', ∀ k < redrawLimit, ¬r.Accepts (r.after k g') := by
  cases hr : init.redraw? shape with
  | none => exact .inl (sample_of_not_redraw hr room)
  | some r =>
    have hsample := sample_eq_of_redraw (g := g) hr ((drawable_iff init shape).mp h).1 room
    cases hd : init.sample shape g with
    | ok p => exact .inl ⟨p.1, p.2, rfl⟩
    | error e =>
      obtain ⟨g', hg⟩ := Generator.drawMany_error (hsample.symm.trans hd)
      obtain ⟨rfl, hrejects⟩ := Redraw.run_error_iff.mp hg
      exact .inr ⟨rfl, r, rfl, g', hrejects⟩

theorem sample_of_not_bounded (h : ¬init.Bounded) (hn : shape.elements ≠ 0)
    (room : shape.elements * 4 ≤ sequenceLimit) :
    init.sample shape g = .error (.fault .unboundedRange) := by
  have hroom : requireRoom shape.elements 4 = .ok ⟨⟩ := requireRoom_ok_iff.mpr room
  simp only [Bounded, not_forall] at h
  obtain ⟨low, high, rfl, hless, hscale⟩ := h
  have huniform : ∀ g : Generator, g.uniform low high = .error (.fault .unboundedRange) := by
    intro g
    simp only [Generator.uniform, hscale]
    rfl
  simp only [sample, hroom, hless, if_true]
  exact Generator.drawMany_of_error huniform hn

theorem sample_of_rejecting (hr : r ∈ init.redraw? shape) (bounded : init.Bounded)
    (rejecting : ∀ g, ¬r.Accepts g) (hn : shape.elements ≠ 0)
    (room : shape.elements * 4 ≤ sequenceLimit) :
    init.sample shape g = .error (.fault .endlessRedraw) := by
  rw [sample_eq_of_redraw hr bounded room]
  exact Generator.drawMany_of_error
    (fun g => Redraw.run_error_iff.mpr ⟨rfl, fun k _ => rejecting _⟩) hn

end Initializer

end Backprop
