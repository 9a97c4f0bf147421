import Backprop.Number.Binary32

/-! The hyperbolic tangent in single precision, from `exp x - 1`. -/

namespace Backprop.Binary32

/-- A rational approximation of `exp x - 1` near zero: with `half = x * x / 2`, the
value is `x - (x * e - half)`. -/
def expm1Core (x : Binary32) : Binary32 × Binary32 :=
  let hfx := ⟨0x3f000000⟩ * x
  let hxs := x * hfx
  let inner := ⟨0x3ad00d01⟩ + hxs * (⟨0xb8a670cd⟩ + hxs * (⟨0x36867e54⟩ + hxs * ⟨0xb457edbb⟩))
  let r := 1 + hxs * (⟨0xbd088889⟩ + hxs * inner)
  let t := ⟨0x40400000⟩ - r * hfx
  (hxs * ((r - t) / (⟨0x40c00000⟩ - x * t)), hxs)

def scaleBy (x : Binary32) (k : Int) : Binary32 :=
  ⟨x.bits + (UInt32.ofInt k <<< 23)⟩

/-- `exp x - 1` once `x` has been reduced by `k` times the logarithm of two; `c` is
the error of the reduction. -/
def expm1Reduced (x c : Binary32) (k : Int) : Binary32 :=
  let half : Binary32 := ⟨0x3f000000⟩
  let two : Binary32 := ⟨0x40000000⟩
  let (e₀, hxs) := expm1Core x
  let e := x * (e₀ - c) - c - hxs
  if k = -1 then half * (x - e) - half
  else if k = 1 then
    if less x ⟨0xbe800000⟩ then -two * (e - (x + half)) else 1 + two * (x - e)
  else if k ≤ -2 ∨ 56 < k then scaleBy (1 - (e - x)) k - 1
  else if k < 23 then scaleBy (⟨0x3f800000 - ((0x1000000 : UInt32) >>> UInt32.ofInt k)⟩ - (e - x)) k
  else scaleBy (x - (e + ⟨UInt32.ofInt (0x7f - k) <<< 23⟩) + 1) k

/-- `exp x - 1` for arguments below 44 in magnitude. -/
def expm1 (x : Binary32) : Binary32 :=
  let magnitude := x.abs.bits
  let negative := 0x80000000 ≤ x.bits
  let ln2Hi : Binary32 := ⟨0x3f317180⟩
  let ln2Lo : Binary32 := ⟨0x3717f7d1⟩
  if 0x4195b844 ≤ magnitude ∧ negative then -1
  else if magnitude < 0x33000000 then x
  else if magnitude ≤ 0x3eb17218 then
    let (e, hxs) := expm1Core x
    x - (x * e - hxs)
  else
    let k : Int := if magnitude < 0x3f851592 then (if negative then -1 else 1)
      else
        let offset : Binary32 := if negative then ⟨0xbf000000⟩ else ⟨0x3f000000⟩
        (⟨0x3fb8aa3b⟩ * x + offset).decode.truncate
    let t := ofInt k
    let high := x - t * ln2Hi
    let low := t * ln2Lo
    let reduced := high - low
    expm1Reduced reduced (high - reduced - low) k

def tanh (x : Binary32) : Binary32 :=
  let magnitude := x.abs.bits
  let two : Binary32 := ⟨0x40000000⟩
  if x.isUndefined then x.quieted
  else if magnitude < 0x24000000 then x
  else
    let value :=
      if 0x41b00000 ≤ magnitude then 1
      else if 0x3f800000 ≤ magnitude then 1 - two / (expm1 (two * x.abs) + two)
      else
        let t := expm1 (-two * x.abs)
        Neg.neg t / (t + two)
    if x.bits < 0x80000000 then value else -value

end Backprop.Binary32
