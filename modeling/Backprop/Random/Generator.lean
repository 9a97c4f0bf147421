import Backprop.Random.Keystream
import Backprop.Number.Scalar

/-! A seeded generator: the words of a keystream in order, read as numbers of the
unit interval or of a given range. -/

namespace Backprop

/-- The keystream of `key` after `drawn` words; `block` is the one the next word is in. -/
structure Generator where
  key : Vector UInt32 8
  drawn : Nat
  block : Block

namespace Generator

/-- One step of the sequence that a seed is spread with. -/
def nextSeed (state : UInt64) : UInt64 := state * 6364136223846793005 + 11634580027462260723

/-- The word a seed state is read as: its high bits, rotated by its highest five. -/
def seedWord (state : UInt64) : UInt32 :=
  let mixed := (((state >>> 18) ^^^ state) >>> 27).toUInt32
  let turn := (state >>> 59).toUInt32
  (mixed >>> turn) ||| (mixed <<< ((32 - turn) % 32))

def seedKey (seed : UInt64) : Vector UInt32 8 :=
  Vector.ofFn fun i => seedWord (Nat.repeat nextSeed (i + 1) seed)

def ofSeed (seed : UInt64) : Generator :=
  let key := seedKey seed
  { key, drawn := 0, block := .keystream key 0 }

/-- The next word of the keystream. -/
def nextWord (g : Generator) : UInt32 × Generator :=
  let drawn := g.drawn + 1
  let block := if drawn % 16 = 0 then .keystream g.key (drawn / 16) else g.block
  (g.block.get ⟨g.drawn % 16, Nat.mod_lt _ (by decide)⟩, { g with drawn, block })

/-- A multiple of `2 ^ -24`, at least zero and below one. -/
def nextUnit (g : Generator) : Binary32 × Generator :=
  let (word, g) := g.nextWord
  (.ofDyadic false (word >>> 8).toNat (-24), g)

/-- One candidate of the range that starts at `low` and is `scale` wide. -/
def nextCandidate (g : Generator) (low scale : Binary32) : Binary32 × Generator :=
  let (word, g) := g.nextWord
  let fraction : Binary32 := ⟨(word >>> 9) ||| 0x3f800000⟩ - 1
  (fraction * scale + low, g)

end Generator

end Backprop
