/-! A keystream of 32-bit words: blocks of sixteen words, each mixed in six double
rounds out of a key, a block counter and four constants. -/

namespace Backprop

abbrev Block := Vector UInt32 16

namespace Block

@[inline] def rotateLeft (x : UInt32) (n : UInt32) : UInt32 :=
  (x <<< n) ||| (x >>> (32 - n))

/-- Mixes four distinct words of a block. -/
def quarterRound (s : Block) (a b c d : Fin 16) : Block :=
  let s := s.set a (s[a] + s[b])
  let s := s.set d (rotateLeft (s[d] ^^^ s[a]) 16)
  let s := s.set c (s[c] + s[d])
  let s := s.set b (rotateLeft (s[b] ^^^ s[c]) 12)
  let s := s.set a (s[a] + s[b])
  let s := s.set d (rotateLeft (s[d] ^^^ s[a]) 8)
  let s := s.set c (s[c] + s[d])
  s.set b (rotateLeft (s[b] ^^^ s[c]) 7)

/-- Mixes the four columns, then the four diagonals. -/
def doubleRound (s : Block) : Block :=
  let s := s.quarterRound 0 4 8 12
  let s := s.quarterRound 1 5 9 13
  let s := s.quarterRound 2 6 10 14
  let s := s.quarterRound 3 7 11 15
  let s := s.quarterRound 0 5 10 15
  let s := s.quarterRound 1 6 11 12
  let s := s.quarterRound 2 7 8 13
  s.quarterRound 3 4 9 14

/-- The block before mixing: constants, key, counter with its low word first, zero stream. -/
def start (key : Vector UInt32 8) (counter : Nat) : Block :=
  let constants : Vector UInt32 4 := #v[0x61707865, 0x3320646e, 0x79622d32, 0x6b206574]
  let position : Vector UInt32 4 := #v[.ofNat counter, .ofNat (counter / UInt32.size), 0, 0]
  constants ++ key ++ position

/-- Block `counter` of the keystream of `key`. -/
def keystream (key : Vector UInt32 8) (counter : Nat) : Block :=
  let first := start key counter
  first.zipWith (· + ·) (Nat.repeat doubleRound 6 first)

end Block

end Backprop
