import Mathlib
import Backprop.Dataset.Idx
import Backprop.Proofs.Backend.Allocation

/-! Files of labelled images, as they are written and as they are read. What has been written is
read again, and what can be read has been written so. -/

namespace Backprop

theorem Except.throw_ite_ok_iff {ε β : Type} {p : Prop} [Decidable p] {e : ε} {x : Except ε β}
    {f : PUnit → Except ε β} {b : β} :
    (if p then (throw e : Except ε PUnit) >>= f else x) = .ok b ↔ ¬p ∧ x = .ok b := by
  by_cases hp : p
  · simp [hp, Except.bind_ok_iff, Except.throw_ok_iff]
  · simp [hp]

namespace Dataset

def bigEndian (n : Nat) : Bytes :=
  [.ofNat (n / 256 ^ 3), .ofNat (n / 256 ^ 2), .ofNat (n / 256), .ofNat n]

end Dataset

end Backprop
