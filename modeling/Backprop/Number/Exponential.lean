import Backprop.Number.Binary32
import Backprop.Number.Fused

/-! The exponential in single precision: `2 ^ (k / 32)` from a table times a cubic
for the rest of the exponent, evaluated in double precision with fused sums. -/

namespace Backprop.Binary32

/-- Patterns of `2 ^ (i / 32)`, less `i / 32` in the exponent field. -/
def exponentialTable : Array UInt64 := #[
  0x3ff0000000000000, 0x3fefd9b0d3158574, 0x3fefb5586cf9890f, 0x3fef9301d0125b51,
  0x3fef72b83c7d517b, 0x3fef54873168b9aa, 0x3fef387a6e756238, 0x3fef1e9df51fdee1,
  0x3fef06fe0a31b715, 0x3feef1a7373aa9cb, 0x3feedea64c123422, 0x3feece086061892d,
  0x3feebfdad5362a27, 0x3feeb42b569d4f82, 0x3feeab07dd485429, 0x3feea47eb03a5585,
  0x3feea09e667f3bcd, 0x3fee9f75e8ec5f74, 0x3feea11473eb0187, 0x3feea589994cce13,
  0x3feeace5422aa0db, 0x3feeb737b0cdc5e5, 0x3feec49182a3f090, 0x3feed503b23e255d,
  0x3feee89f995ad3ad, 0x3feeff76f2fb5e47, 0x3fef199bdd85529c, 0x3fef3720dcef9069,
  0x3fef5818dcfba487, 0x3fef7c97337b9b5f, 0x3fefa4afa2a490da, 0x3fefd0765b6e4540]

/-- The exponential of an argument whose result neither overflows nor vanishes. -/
def expReduced (x : Float) : Float :=
  let shift := Float.ofBits 0x4338000000000000
  let stepsPerUnit := Float.ofBits 0x40471547652b82fe
  let shifted := fused stepsPerUnit x shift
  let index := shifted.toBits
  let r := fused stepsPerUnit x (shift - shifted)
  let entry := exponentialTable[(index % 32).toNat]?.getD 0
  let scale := Float.ofBits (entry + (index <<< 47))
  let upper := fused (.ofBits 0x3ebc6af84b912394) r (.ofBits 0x3f2ebfce50fac4f3)
  let lower := fused (.ofBits 0x3f962e42ff0c52d6) r 1
  fused upper (r * r) lower * scale

def exp (x : Binary32) : Binary32 :=
  if x.isUndefined then x.quieted
  else if less ⟨0x42b17217⟩ x then infinite false
  else if less x ⟨0xc2cff1b4⟩ then 0
  else ofFloat (expReduced x.toFloat)

end Backprop.Binary32
