import Backprop.Extent
import Backprop.Kernel.Loop
import Backprop.Kernel.Operands

/-! Convolution of image planes, its gradients, and the rotated kernel the input
gradient needs. An output entry is a sum of products, and the list of its terms says
which entries are multiplied; a term without a first entry lies outside the plane. -/

namespace Backprop.Kernel

variable {α : Type} [Scalar α]

/-- Planes of `x` by `y`, `z` of them for every batch row. -/
structure Planes where
  x : Nat
  y : Nat
  z : Nat

/-- The index of a cell, where the coordinates lie inside the plane. -/
def Planes.cell? (p : Planes) (w z : Nat) (y x : Int) : Option Nat :=
  if x < 0 ∨ y < 0 ∨ (p.x : Int) ≤ x ∨ (p.y : Int) ≤ y then none
  else some (((w * p.z + z) * p.y + y.toNat) * p.x + x.toNat)

/-- Extents of convolution kernels: width, height, input and output channels. -/
structure KernelExtents where
  x : Nat
  y : Nat
  z : Nat
  w : Nat

def KernelExtents.size (k : KernelExtents) : Nat := k.x * k.y * k.z * k.w

def KernelExtents.index (k : KernelExtents) (w z y x : Nat) : Nat :=
  ((w * k.z + z) * k.y + y) * k.x + x

/-- Coordinates of entry `i` of an array with the extents `x`, `y`, `z`, first axis first. -/
def coordinates (x y z i : Nat) : Nat × Nat × Nat × Nat :=
  (i % x, i / x % y, i / x / y % z, i / x / y / z)

/-- The sum of the products of two arrays' entries; missing entries count as zero. -/
@[specialize] def sumOfProducts (a b : Array α) (terms : List (Option Nat × Nat)) :
    Except Error α :=
  terms.foldlM (fun sum (i?, j) => do
    let x ← match i? with
      | some i => read a i
      | none => pure 0
    return sum + x * (← read b j)) 0

/-- Input cell and kernel entry of every product in output cell `(ox, oy)` of channel
`channel` in batch row `b`. -/
def convolutionTerms (input : Planes) (k : KernelExtents) (pad stride : Nat)
    (ox oy channel b : Nat) : List (Option Nat × Nat) :=
  if k.z * k.y * k.x = 0 then []
  else (List.range k.z).flatMap fun z => (List.range k.y).flatMap fun y => (List.range k.x).map fun x =>
    (input.cell? b z ((oy * stride + y : Nat) - pad) ((ox * stride + x : Nat) - pad),
      k.index channel z y x)

@[specialize] def convolution : Kernel α := fun o => do
  let inX ← o.extent 3
  let inY ← o.extent 4
  let kx ← o.extent 5
  let ky ← o.extent 6
  let kz ← o.extent 7
  let kw ← o.extent 8
  let pad ← o.extent 9
  let stride ← o.extent 10
  let batch ← o.extent 11
  let k : KernelExtents := ⟨kx, ky, kz, kw⟩
  match convolvedExtent? inX kx pad stride, convolvedExtent? inY ky pad stride with
  | some outX, some outY =>
    let stride ← divisor stride
    let n := outX * outY * kw * batch
    let out ← o.words 2 n
    let input ← o.words 0 (inX * inY * kz * batch)
    let kernel ← o.words 1 k.size
    return [(2, ← updateFirst n out fun i _ =>
      let (ox, oy, channel, b) := coordinates outX outY kw i
      sumOfProducts input kernel (convolutionTerms ⟨inX, inY, kz⟩ k pad stride ox oy channel b))]
  | _, _ => throw (.emptyConvolution inX inY kx ky pad stride)

/-- The coordinate that an offset of a dilated axis falls on, where it falls on one. -/
def dilated? (offset : Int) (dilation : Nat) : Option Int :=
  if offset < 0 ∨ offset % dilation ≠ 0 then none else some (offset / dilation)

/-- Input cell and kernel entry of every product, over an input whose cells lie
`dilation` apart. -/
def dilatedTerms (input : Planes) (k : KernelExtents) (padX padY : Int) (dilation : Nat)
    (ox oy channel b : Nat) : List (Option Nat × Nat) :=
  if k.z * k.y * k.x = 0 then []
  else (List.range k.z).flatMap fun z => (List.range k.y).flatMap fun (y : Nat) =>
    match dilated? (oy - padY + y) dilation with
    | none => []
    | some iy => (List.range k.x).filterMap fun (x : Nat) =>
      (dilated? (ox - padX + x) dilation).map fun ix =>
        (input.cell? b z iy ix, k.index channel z y x)

/-- Adds the convolution of a dilated input; paddings may be negative. -/
@[specialize] def convolutionAdd : Kernel α := fun o => do
  let inX ← o.extent 3
  let inY ← o.extent 4
  let kx ← o.extent 5
  let ky ← o.extent 6
  let kz ← o.extent 7
  let kw ← o.extent 8
  let padX ← o.int 9
  let padY ← o.int 10
  let dilation ← divisor (max (← o.extent 11) 1)
  let outX ← o.extent 12
  let outY ← o.extent 13
  let batch ← o.extent 14
  let k : KernelExtents := ⟨kx, ky, kz, kw⟩
  let n := outX * outY * kw * batch
  let out ← o.words 2 n
  let input ← o.words 0 (inX * inY * kz * batch)
  let kernel ← o.words 1 k.size
  return [(2, ← updateFirst n out fun i old => do
    let (ox, oy, channel, b) := coordinates outX outY kw i
    return old + (← sumOfProducts input kernel
      (dilatedTerms ⟨inX, inY, kz⟩ k padX padY dilation ox oy channel b)))]

/-- Input cell and output cell of every product in the gradient of a kernel entry. -/
def weightTerms (input : Planes) (outX outY channels pad stride batch : Nat)
    (x y z channel : Nat) : List (Option Nat × Nat) :=
  if batch * outY * outX = 0 then []
  else (List.range batch).flatMap fun b => (List.range outY).flatMap fun oy =>
    (List.range outX).map fun ox =>
      (input.cell? b z ((oy * stride + y : Nat) - pad) ((ox * stride + x : Nat) - pad),
        ((b * channels + channel) * outY + oy) * outX + ox)

@[specialize] def convolutionWeightGrad : Kernel α := fun o => do
  let inX ← o.extent 3
  let inY ← o.extent 4
  let outX ← o.extent 5
  let outY ← o.extent 6
  let kx ← o.extent 7
  let ky ← o.extent 8
  let kz ← o.extent 9
  let kw ← o.extent 10
  let pad ← o.extent 11
  let stride ← o.extent 12
  let batch ← o.extent 13
  let k : KernelExtents := ⟨kx, ky, kz, kw⟩
  let dk ← o.words 2 k.size
  let input ← o.words 0 (inX * inY * kz * batch)
  let dy ← o.words 1 (outX * outY * kw * batch)
  return [(2, ← updateFirst k.size dk fun i old => do
    let (x, y, z, channel) := coordinates kx ky kz i
    return old + (← sumOfProducts input dy
      (weightTerms ⟨inX, inY, kz⟩ outX outY kw pad stride batch x y z channel)))]

/-- Where entry `i` of the rotated kernels comes from: both spatial axes are reversed
and the channel axes change places. -/
def rotationSource (k : KernelExtents) (i : Nat) : Nat :=
  let (x, y, w, z) := coordinates k.x k.y k.w i
  k.index w z (k.y - 1 - y) (k.x - 1 - x)

@[specialize] def rotateAndReorder : Kernel α := fun o => do
  let kx ← o.extent 2
  let ky ← o.extent 3
  let kz ← o.extent 4
  let kw ← o.extent 5
  let k : KernelExtents := ⟨kx, ky, kz, kw⟩
  let out ← o.words 1 k.size
  let kernel ← o.words 0 k.size
  return [(1, ← updateFirst k.size out fun i _ => read kernel (rotationSource k i))]

end Backprop.Kernel
