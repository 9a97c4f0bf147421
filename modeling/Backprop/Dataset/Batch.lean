import Backprop.Dataset.Idx

/-! Batches of samples, and sources that produce one batch after the other. -/

namespace Backprop

/-- Rows of inputs, and a class for each row. -/
structure Batch where
  inputs : Array Binary32 := #[]
  labels : Array Binary32 := #[]
deriving DecidableEq, Repr, Inhabited

def Batch.zeros (inputs labels : Nat) : Except Error Batch := do
  requireRoom inputs 4
  requireRoom labels 4
  return ⟨Array.replicate inputs 0, Array.replicate labels 0⟩

/-- As many entries as asked for: the first ones of a sequence, and zeros after its end. -/
def resized (xs : Array Binary32) (count : Nat) : Array Binary32 :=
  xs.extract 0 count ++ Array.replicate (count - xs.size) 0

namespace Dataset

def sampleIndex (d : Dataset) (start row : Nat) : Nat := (start + row) % max d.samples 1

def placeSample (d : Dataset) (batch : Batch) (row i : Nat) : Except Error Batch :=
  if row * d.pixels + d.pixels ≤ batch.inputs.size ∧ row < batch.labels.size ∧
      i * d.pixels + d.pixels ≤ d.images.size then
    match d.labels[i]? with
    | some label => .ok {
        inputs := Device.overlay batch.inputs (row * d.pixels)
          (d.images.extract (i * d.pixels) (i * d.pixels + d.pixels))
        labels := batch.labels.setIfInBounds row (Binary32.ofInt label.toNat) }
    | none => .error (.fault .outOfBounds)
  else .error (.fault .outOfBounds)

def fill (d : Dataset) (batch : Batch) (start size : Nat) : Except Error Batch := do
  requireSize (size * d.pixels)
  requireRoom (size * d.pixels) 4
  requireRoom size 4
  (List.range size).foldlM (fun batch row => d.placeSample batch row (d.sampleIndex start row))
    { inputs := resized batch.inputs (size * d.pixels), labels := resized batch.labels size }

def batch (d : Dataset) (start size : Nat) : Except Error Batch := d.fill {} start size

end Dataset

/-- An endless stream of batches that walks round a dataset. -/
structure DatasetCycle where
  dataset : Dataset
  size : Nat
  cursor : Nat := 0

namespace DatasetCycle

def fill (c : DatasetCycle) (batch : Batch) : Except RunError (Bool × Batch × DatasetCycle) :=
  if c.dataset.samples = 0 then .error (.dataset .empty)
  else match c.dataset.fill batch c.cursor c.size with
    | .ok batch =>
      .ok (true, batch, { c with cursor := (c.cursor + c.size) % c.dataset.samples })
    | .error e => .error (.call e)

def next (c : DatasetCycle) : Except RunError (Batch × DatasetCycle) := (c.fill {}).map (·.2)

end DatasetCycle

end Backprop
