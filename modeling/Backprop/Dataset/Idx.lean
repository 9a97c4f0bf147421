import Backprop.Backend.Words
import Backprop.Capacity
import Backprop.FileTree
import Backprop.RunError

/-! Labelled images, read from a file of images and a file of labels. Both start with
a magic number and their extents, most significant byte first. -/

namespace Backprop

structure Dataset where
  images : Array Binary32
  labels : Array UInt8
  width : Nat
  height : Nat
deriving DecidableEq, Repr

namespace Dataset

def imagesMagic : Nat := 2051

def labelsMagic : Nat := 2049

def samples (d : Dataset) : Nat := d.labels.size

def pixels (d : Dataset) : Nat := d.width * d.height

/-- A number of four bytes, and what follows it. -/
def number : Bytes → Except DatasetError (Nat × Bytes)
  | a :: b :: c :: d :: rest =>
    .ok (((a.toNat * 256 + b.toNat) * 256 + c.toNat) * 256 + d.toNat, rest)
  | _ => .error .shortHeader

def payload (path : String) (count : Nat) (bytes : Bytes) : Except DatasetError Bytes := do
  (requireRoom count 1).mapError .call
  let taken := bytes.take count
  if taken.length = count then return taken else throw (.truncated path)

/-- A byte as a brightness between zero and one. -/
def brightness (pixel : UInt8) : Binary32 := Binary32.ofInt pixel.toNat / ⟨0x437f0000⟩

/-- Pixels row by row, width and height. -/
def parseImages (path : String) (bytes : Bytes) :
    Except DatasetError (Array Binary32 × Nat × Nat) := do
  let (magic, bytes) ← number bytes
  if magic ≠ imagesMagic then throw (.notImages path magic)
  let (count, bytes) ← number bytes
  let (rows, bytes) ← number bytes
  let (columns, bytes) ← number bytes
  (requireSize (count * rows * columns)).mapError .call
  let pixels ← payload path (count * rows * columns) bytes
  (requireRoom pixels.length 4).mapError .call
  return ((pixels.map brightness).toArray, columns, rows)

def parseLabels (path : String) (bytes : Bytes) : Except DatasetError (Array UInt8) := do
  let (magic, bytes) ← number bytes
  if magic ≠ labelsMagic then throw (.notLabels path magic)
  let (count, bytes) ← number bytes
  return (← payload path count bytes).toArray

def ofParts (images : Array Binary32) (width height : Nat) (labels : Array UInt8) :
    Except DatasetError Dataset := do
  let pixels := width * height
  (requireSize (labels.size * pixels) images.size).mapError .call
  if images.size = labels.size * pixels then return { images, labels, width, height }
  else throw (.countMismatch (images.size / max pixels 1) labels.size)

/-- The bytes of a file; a directory can be opened, but not read. -/
def openFile (read : FileReader) (path : String) : Except DatasetError Bytes :=
  match read path with
  | .ok bytes => .ok bytes
  | .error .isDirectory => .error (.cannotRead .isDirectory)
  | .error cause => .error (.cannotOpen path cause)

/-- The images are read before the labels are opened. -/
def load (read : FileReader) (imagesPath labelsPath : String) : Except DatasetError Dataset := do
  let (images, width, height) ← parseImages imagesPath (← openFile read imagesPath)
  let labels ← parseLabels labelsPath (← openFile read labelsPath)
  ofParts images width height labels

def loadTraining (read : FileReader) (directory : String) : Except DatasetError Dataset :=
  load read (FileTree.join directory "train-images-idx3-ubyte")
    (FileTree.join directory "train-labels-idx1-ubyte")

def loadTest (read : FileReader) (directory : String) : Except DatasetError Dataset :=
  load read (FileTree.join directory "t10k-images-idx3-ubyte")
    (FileTree.join directory "t10k-labels-idx1-ubyte")

end Dataset

end Backprop
