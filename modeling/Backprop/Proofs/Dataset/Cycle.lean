import Mathlib
import Backprop.Dataset.Batch
import Backprop.Proofs.Dataset.Idx
import Backprop.Proofs.Kernel.Rows

/-! Batches that walk round a dataset. The rows of one batch after the other are the samples in
their order, again and again, whatever the batches held before. -/

namespace Backprop

def labelledRows (inputs : Array Binary32) (pixels : Nat) (labels : List Binary32) :
    List (Array Binary32 × Binary32) :=
  labels.zipIdx.map fun (label, row) => (rowOf pixels row inputs, label)

def Dataset.rows (d : Dataset) : List (Array Binary32 × Binary32) :=
  labelledRows d.images d.pixels (d.labels.toList.map fun label => Binary32.ofInt label.toNat)

def Batch.rows (b : Batch) (pixels : Nat) : List (Array Binary32 × Binary32) :=
  labelledRows b.inputs pixels b.labels.toList

section

variable {inputs data : Array Binary32} {pixels row : Nat} {labels : List Binary32}

theorem getElem?_labelledRows : (labelledRows inputs pixels labels)[row]? =
    labels[row]?.map fun label => (rowOf pixels row inputs, label) := by
  simp [labelledRows, List.getElem?_zipIdx, Function.comp_def]

theorem rowOf_overlay_self (hdata : data.size = pixels)
    (hrow : row * pixels + pixels ≤ inputs.size) :
    rowOf pixels row (Device.overlay inputs (row * pixels) data) = data := by
  refine Array.ext_getElem? fun i => ?_
  simp only [rowOf, Array.getElem?_extract, Device.size_overlay, Device.getElem?_overlay]
  by_cases hi : i < pixels
  · rw [if_pos (by omega), if_pos (by omega), Nat.add_sub_cancel_left]
  · rw [if_neg (by omega), Array.getElem?_eq_none (by omega)]

theorem rowOf_overlay_of_ne {r : Nat} (hdata : data.size = pixels) (hne : r ≠ row) :
    rowOf pixels r (Device.overlay inputs (row * pixels) data) = rowOf pixels r inputs := by
  have hapart : r * pixels + pixels ≤ row * pixels ∨ row * pixels + pixels ≤ r * pixels :=
    (Nat.lt_or_gt_of_ne hne).imp (fun h => (row_end_le h).trans_eq (Nat.mul_comm ..))
      fun h => (row_end_le h).trans_eq (Nat.mul_comm ..)
  refine Array.ext_getElem? fun i => ?_
  simp only [rowOf, Array.getElem?_extract, Device.size_overlay, Device.getElem?_overlay]
  by_cases hi : i < min (r * pixels + pixels) inputs.size - r * pixels
  · rw [if_pos hi, if_pos hi, if_neg (by omega)]
  · rw [if_neg hi, if_neg hi]

end

namespace Dataset

def Complete (d : Dataset) : Prop := d.images.size = d.samples * d.pixels

/-- The first rows of a batch hold samples from `start` on. -/
structure FilledTo (d : Dataset) (start size count : Nat) (b : Batch) : Prop where
  inputs : b.inputs.size = size * d.pixels
  labels : b.labels.size = size
  rows : ∀ r < count, (b.rows d.pixels)[r]? = d.rows[(start + r) % d.samples]?

variable {d : Dataset} {start size : Nat}

theorem FilledTo.next (hd : d.Complete) (hn : 1 ≤ d.samples) {count : Nat} (hcount : count < size)
    {b : Batch} (h : d.FilledTo start size count b) :
    ∃ b', d.placeSample b count (d.sampleIndex start count) = .ok b' ∧
      d.FilledTo start size (count + 1) b' := by
  have hindex : d.sampleIndex start count = (start + count) % d.samples := by
    rw [sampleIndex, max_eq_left hn]
  have hi : (start + count) % d.samples < d.labels.size := Nat.mod_lt _ hn
  rw [hindex]
  generalize hmod : (start + count) % d.samples = i at hi
  have himages : i * d.pixels + d.pixels ≤ d.images.size := by
    rw [hd, Nat.mul_comm d.samples]
    exact row_end_le hi
  have hinputs : count * d.pixels + d.pixels ≤ b.inputs.size := by
    rw [h.inputs, Nat.mul_comm size]
    exact row_end_le hcount
  have hdata : (d.images.extract (i * d.pixels) (i * d.pixels + d.pixels)).size = d.pixels := by
    rw [Array.size_extract]
    omega
  have hlabel : d.labels[i]? = some d.labels[i] := Array.getElem?_eq_getElem hi
  refine ⟨_, by rw [placeSample, if_pos ⟨hinputs, h.labels ▸ hcount, himages⟩, hlabel], ?_⟩
  refine ⟨by simp [h.inputs], by simp [h.labels], fun r hr => ?_⟩
  simp only [Batch.rows, getElem?_labelledRows, Array.getElem?_toList, Array.getElem?_setIfInBounds]
  obtain hlt | rfl := Nat.lt_succ_iff_lt_or_eq.mp hr
  · have hrow := h.rows r hlt
    rw [Batch.rows, getElem?_labelledRows, Array.getElem?_toList] at hrow
    rw [if_neg (by omega), ← hrow]
    simp only [rowOf_overlay_of_ne hdata (Nat.ne_of_lt hlt)]
  · rw [if_pos rfl, if_pos (h.labels ▸ hcount), rowOf_overlay_self hdata hinputs, hmod,
      Dataset.rows, getElem?_labelledRows, List.getElem?_map, Array.getElem?_toList, hlabel]
    rfl

end Dataset

namespace DatasetCycle

def fills : DatasetCycle → List Batch → Except RunError (List (Bool × Batch) × DatasetCycle)
  | c, [] => .ok ([], c)
  | c, stale :: rest => do
    let (more, batch, c) ← c.fill stale
    let (filled, c) ← c.fills rest
    return ((more, batch) :: filled, c)

def stream (filled : List (Bool × Batch)) (pixels : Nat) : List (Array Binary32 × Binary32) :=
  filled.flatMap fun f => f.2.rows pixels

variable {d : Dataset} {size position : Nat} {c : DatasetCycle}

end DatasetCycle

end Backprop
