import Mathlib
import Backprop.Backend.Words
import Backprop.Proofs.Backend.Effects
import Backprop.Proofs.Snapshot

/-! Memory seen byte by byte. What a window holds are the bytes of its range, and what is stored
in a window replaces these and no others. -/

namespace Backprop

namespace Device

open Binary32

variable {d : Device Binary32} {w : Window}

def byte? (d : Device Binary32) (a p : Nat) : Option UInt8 :=
  (d.word? a (p / 4)).bind (·.toBytes[p % 4]?)

theorem getElem?_bytes_words (d : Device Binary32) (w : Window) (p : Nat) (hp : p < 4 * w.count) :
    (bytesOfList (d.words w).toList)[p]? = d.byte? w.allocation (4 * w.start + p) := by
  rw [getElem?_bytesOfList, byte?, word?, show (4 * w.start + p) / 4 = w.start + p / 4 by omega,
    show (4 * w.start + p) % 4 = p % 4 by omega]
  congr 1
  unfold words
  cases d.memory[w.allocation]? with
  | none => rfl
  | some found =>
    rw [Array.getElem?_toList, Array.getElem?_extract, Option.bind_some]
    split
    · rfl
    · rw [Array.getElem?_eq_none (by omega)]

theorem byte?_store {data : Array Binary32} (h : d.Holds w) (hs : data.size = w.count) (a p : Nat) :
    (d.store w data).byte? a p =
      if a = w.allocation ∧ 4 * w.start ≤ p ∧ p < 4 * (w.start + w.count) then
        (bytesOfList data.toList)[p - 4 * w.start]?
      else d.byte? a p := by
  split
  · next hin =>
    obtain ⟨rfl, hlow, hhigh⟩ := hin
    have hself := getElem?_bytes_words (d.store w data) w (p - 4 * w.start) (by omega)
    rw [words_store_self h hs, Nat.add_sub_cancel' hlow] at hself
    exact hself.symm
  · next hout => rw [byte?, byte?, word?_store fun ha => by omega]

end Device

end Backprop
