import Backprop.Error

/-! How large sizes may be. The program is taken as a build that checks its arithmetic: a size is a
number of 64 bits, and to compute one that is not is a fault; sums and products never wrap. A
sequence may be even less long, as its bytes are counted by a signed number. -/

namespace Backprop

/-- Goes wrong where a size has been computed that is no number of 64 bits. What is at hand has a
size, so one that is no larger is such a number. -/
def requireSize (size : Nat) (atHand : Nat := 0) : Except Error Unit :=
  if size ≤ atHand ∨ size < UInt64.size then .ok () else .error (.fault .overflow)

theorem requireSize_ok_iff {size atHand : Nat} {u : Unit} :
    requireSize size atHand = .ok u ↔ size ≤ atHand ∨ size < UInt64.size := by
  unfold requireSize
  split <;> simp_all

theorem requireSize_error_iff {size atHand : Nat} {e : Error} : requireSize size atHand = .error e ↔
    e = .fault .overflow ∧ atHand < size ∧ UInt64.size ≤ size := by
  unfold requireSize
  split <;> simp_all [eq_comm]
  omega

theorem requireSize_of_beyond {size atHand : Nat} (h : atHand < size) :
    requireSize size atHand = requireSize size := by
  simp only [requireSize, Nat.not_le.mpr h, Nat.not_le.mpr (Nat.zero_lt_of_lt h), false_or]

/-- The most bytes of one sequence. -/
def sequenceLimit : Nat := 9223372036854775807

/-- Goes wrong where `count` entries of `width` bytes each are more than a sequence takes. -/
def requireRoom (count width : Nat) : Except Error Unit :=
  if count * width ≤ sequenceLimit then .ok () else .error (.fault .noRoom)

end Backprop
