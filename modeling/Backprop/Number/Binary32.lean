import Backprop.Number.Decoded

/-! Words of memory read as IEEE single-precision numbers. The bits are kept as
they are, so a word that is only moved keeps every pattern. -/

namespace Backprop

structure Binary32 where
  bits : UInt32
deriving DecidableEq, Inhabited, Repr

namespace Binary32

@[inline] def ofFloat32 (x : Float32) : Binary32 := ⟨x.toBits⟩

@[inline] def toFloat32 (x : Binary32) : Float32 := .ofBits x.bits

def undefined : Binary32 := ⟨0x7fc00000⟩

def invalid : Binary32 := ⟨0xffc00000⟩

def infinite (negative : Bool) : Binary32 := ⟨if negative then 0xff800000 else 0x7f800000⟩

def decode (x : Binary32) : Decoded :=
  let bits := x.bits.toNat
  .ofFields (0x80000000 ≤ bits) (bits / 0x800000 % 0x100) (bits % 0x800000) 0x800000 0xff (-149)

/-- The number nearest to `significand * 2 ^ exponent`, a half to the even pattern. -/
def ofDyadic (negative : Bool) (significand : Nat) (exponent : Int) : Binary32 :=
  let unit : Int := max (-149) (exponent + significand.log2 - 23)
  let rounded := if unit ≤ exponent then significand <<< (exponent - unit).toNat
    else nearestQuotient significand (1 <<< (unit - exponent).toNat)
  let magnitude := if significand = 0 then 0 else (unit + 149).toNat * 0x800000 + rounded
  if magnitude < 0x7f800000 then
    ⟨UInt32.ofNat (if negative then magnitude + 0x80000000 else magnitude)⟩
  else infinite negative

/-- The number nearest to `num / den`. The quotient is cut where 27 bits are known
and its last bit stands for all that was cut, which no later tie can mistake. -/
def ofRatio (negative : Bool) (num den : Nat) : Binary32 :=
  let scale := den.log2 + 27 - num.log2
  let shifted := num <<< scale
  let sticky := if shifted % den = 0 then 0 else 1
  ofDyadic negative (2 * (shifted / den) + sticky) (-(scale : Int) - 1)

def ofInt (n : Int) : Binary32 := ofDyadic (n < 0) n.natAbs 0

def ofFloat (x : Float) : Binary32 :=
  match Decoded.ofFloat x with
  | .finite negative significand exponent => ofDyadic negative significand exponent
  | .infinite negative => infinite negative
  | .undefined => undefined

def toFloat (x : Binary32) : Float :=
  match x.decode with
  | .finite negative significand exponent =>
    let power := Float.ofBits (UInt64.ofNat ((exponent + 1023).toNat * 0x10000000000000))
    let magnitude := significand.toUInt64.toFloat * power
    if negative then -magnitude else magnitude
  | .infinite negative => if negative then -1.0 / 0.0 else 1.0 / 0.0
  | .undefined => 0.0 / 0.0

instance : OfScientific Binary32 where
  ofScientific significand negativeExponent exponent :=
    if negativeExponent then ofRatio false significand (Nat.pow 10 exponent)
    else ofRatio false (significand * Nat.pow 10 exponent) 1

@[inline] def isUndefined (x : Binary32) : Bool := 0x7f800000 < x.bits &&& 0x7fffffff

/-- The same pattern, marked as one that raises no alarm. -/
@[inline] def quieted (x : Binary32) : Binary32 := ⟨x.bits ||| 0x400000⟩

/-- What an operation on `a` and `b` leaves: its value, or where that is undefined the
first of the two that was undefined before. -/
@[inline] def settle (a b : Binary32) (value : Float32) : Binary32 :=
  let result := ofFloat32 value
  if !result.isUndefined then result
  else if a.isUndefined then a.quieted
  else if b.isUndefined then b.quieted
  else invalid

instance : Zero Binary32 := ⟨⟨0⟩⟩
instance : One Binary32 := ⟨⟨0x3f800000⟩⟩
instance : Add Binary32 := ⟨fun a b => settle a b (a.toFloat32 + b.toFloat32)⟩
instance : Sub Binary32 := ⟨fun a b => settle a b (a.toFloat32 - b.toFloat32)⟩
instance : Mul Binary32 := ⟨fun a b => settle a b (a.toFloat32 * b.toFloat32)⟩
instance : Div Binary32 := ⟨fun a b => settle a b (a.toFloat32 / b.toFloat32)⟩

/-- The sign is turned also where the value is zero or undefined. -/
instance : Neg Binary32 := ⟨fun a => ⟨a.bits ^^^ 0x80000000⟩⟩

@[inline] def isFinite (x : Binary32) : Bool := x.bits &&& 0x7f800000 != 0x7f800000

@[inline] def abs (x : Binary32) : Binary32 := ⟨x.bits &&& 0x7fffffff⟩

@[inline] def less (a b : Binary32) : Bool := a.toFloat32 < b.toFloat32

@[inline] def lessEq (a b : Binary32) : Bool := a.toFloat32 ≤ b.toFloat32

@[inline] def larger (a b : Binary32) : Binary32 :=
  if b.isUndefined then a
  else if a.isUndefined || a.lessEq b then b
  else a

def sqrt (x : Binary32) : Binary32 := settle x x x.toFloat32.sqrt

/-- The integer part of a number that is not negative, at most `2 ^ 64 - 1`. -/
def wholePart? (x : Binary32) : Option Nat :=
  match x.decode with
  | .finite negative significand exponent =>
    if negative ∧ significand ≠ 0 then none
    else some (min (Decoded.finite false significand exponent).truncate.toNat (UInt64.size - 1))
  | .infinite negative => if negative then none else some (UInt64.size - 1)
  | .undefined => none

/-- The value with exactly `places` decimals. -/
def toFixed (places : Nat) (x : Binary32) : String := x.decode.toFixed places

end Binary32

end Backprop
