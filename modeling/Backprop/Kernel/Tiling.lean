import Backprop.Extent
import Backprop.Kernel.Loop
import Backprop.Kernel.Operands

/-! Cutting image planes into tiles. One list of index pairs says which cell of a
tile holds which cell of the image, for the cut and for its gradient. -/

namespace Backprop.Kernel

variable {α : Type} [Scalar α]

/-- Tile number `tile` of the `tileX` by `tileY` tiles of `planes` planes of `imageX` by `imageY`. -/
structure Tiling where
  tile : Nat
  tileX : Nat
  tileY : Nat
  imageX : Nat
  imageY : Nat
  planes : Nat

namespace Tiling

/-- A tile takes up a cell of a row even where it has none. -/
def width (t : Tiling) : Nat := max t.tileX 1

def perRow (t : Tiling) : Nat := max (ceilDiv t.imageX t.width) 1

def originX (t : Tiling) : Nat := t.tile % t.perRow * t.tileX

def originY (t : Tiling) : Nat := t.tile / t.perRow * t.tileY

def tileCells (t : Tiling) : Nat := t.tileX * t.tileY * t.planes

def imageCells (t : Tiling) : Nat := t.imageX * t.imageY * t.planes

/-- Cells of the tile that lie on the image, each with the cell of the image it lies on. -/
def pairs (t : Tiling) : List (Nat × Nat) :=
  if t.tileCells = 0 then []
  else (List.range t.planes).flatMap fun plane =>
    ((List.range t.tileY).filter (t.originY + · < t.imageY)).flatMap fun y =>
      ((List.range t.tileX).filter (t.originX + · < t.imageX)).map fun x =>
        ((plane * t.tileY + y) * t.tileX + x,
          (plane * t.imageY + (t.originY + y)) * t.imageX + (t.originX + x))

/-- The tiling, if its tiles can be counted: that is done by dividing. -/
def checked (t : Tiling) : Except Error Tiling := do
  let _ ← divisor t.width
  let _ ← divisor t.perRow
  return t

theorem width_pos (t : Tiling) : 0 < t.width := by
  unfold width
  omega

theorem perRow_pos (t : Tiling) : 0 < t.perRow := by
  unfold perRow
  omega

theorem checked_eq (t : Tiling) : t.checked = .ok t := by
  rw [checked, divisor_of_pos t.width_pos, divisor_of_pos t.perRow_pos]
  rfl

def ofOperands (o : Operands α) : Except Error Tiling := do
  let tile ← o.extent 2
  let tileX ← o.extent 3
  let tileY ← o.extent 4
  let imageX ← o.extent 5
  let imageY ← o.extent 6
  let z ← o.extent 7
  let w ← o.extent 8
  checked ⟨tile, tileX, tileY, imageX, imageY, z * w⟩

end Tiling

/-- Cells of the tile past the edge of the image are zero. -/
@[specialize] def splitData : Kernel α := fun o => do
  let t ← Tiling.ofOperands o
  let out ← o.words 1 t.tileCells
  let image ← o.words 0 t.imageCells
  let result ← t.pairs.foldlM (fun out (dst, src) => do write out dst (← read image src))
    (Array.replicate out.size 0)
  return [(1, result)]

@[specialize] def splitDataGrad : Kernel α := fun o => do
  let t ← Tiling.ofOperands o
  let dx ← o.words 1 t.imageCells
  let dy ← o.words 0 t.tileCells
  let result ← t.pairs.foldlM
    (fun dx (dst, src) => update dx src fun old => do return old + (← read dy dst)) dx
  return [(1, result)]

end Backprop.Kernel
