import Backprop.Backend.Basic

/-! Bytes of memory, four to a word with the lowest first. -/

namespace Backprop

namespace Binary32

def ofBytes (a b c d : UInt8) : Binary32 :=
  ⟨a.toUInt32 ||| (b.toUInt32 <<< 8) ||| (c.toUInt32 <<< 16) ||| (d.toUInt32 <<< 24)⟩

def toBytes (x : Binary32) : Bytes :=
  [x.bits.toUInt8, (x.bits >>> 8).toUInt8, (x.bits >>> 16).toUInt8, (x.bits >>> 24).toUInt8]

/-- The words of a text of bytes after those in `before`, whose last one comes first. -/
def wordsFrom (before : List Binary32) : Bytes → List Binary32
  | a :: b :: c :: d :: rest => wordsFrom (ofBytes a b c d :: before) rest
  | _ => before.reverse

/-- The words of a text of bytes; what is left of a last, short word is dropped. -/
def listOfBytes (bytes : Bytes) : List Binary32 := wordsFrom [] bytes

def bytesOfList (xs : List Binary32) : Bytes := xs.flatMap toBytes

end Binary32

namespace Backend

/-- Writes bytes; their number has to be one of whole words. -/
def writeBytes (h : BufferId) (offset : Nat) (bytes : Bytes) : Call Binary32 Unit := do
  let b ← get
  discard <| ofExcept (b.window h offset bytes.length)
  write h offset (Binary32.listOfBytes bytes).toArray

def readBytes (h : BufferId) (offset length : Nat) : Call Binary32 Bytes := do
  return Binary32.bytesOfList (← readNew h offset length).toList

end Backend

end Backprop
