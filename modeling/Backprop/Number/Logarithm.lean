import Backprop.Number.Binary32
import Backprop.Number.Fused

/-! The natural logarithm in single precision: the argument is split into a power
of two and a number near a table point, whose logarithm and reciprocal are known. -/

namespace Backprop.Binary32

/-- Reciprocal and logarithm of the table points. -/
def logarithmTable : Array (UInt64 × UInt64) := #[
  (0x3ff661ec79f8f3be, 0xbfd57bf7808caade),
  (0x3ff571ed4aaf883d, 0xbfd2bef0a7c06ddb),
  (0x3ff49539f0f010b0, 0xbfd01eae7f513a67),
  (0x3ff3c995b0b80385, 0xbfcb31d8a68224e9),
  (0x3ff30d190c8864a5, 0xbfc6574f0ac07758),
  (0x3ff25e227b0b8ea0, 0xbfc1aa2bc79c8100),
  (0x3ff1bb4a4a1a343f, 0xbfba4e76ce8c0e5e),
  (0x3ff12358f08ae5ba, 0xbfb1973c5a611ccc),
  (0x3ff0953f419900a7, 0xbfa252f438e10c1e),
  (0x3ff0000000000000, 0x0000000000000000),
  (0x3fee608cfd9a47ac, 0x3faaa5aa5df25984),
  (0x3feca4b31f026aa0, 0x3fbc5e53aa362eb4),
  (0x3feb2036576afce6, 0x3fc526e57720db08),
  (0x3fe9c2d163a1aa2d, 0x3fcbc2860d224770),
  (0x3fe886e6037841ed, 0x3fd1058bc8a07ee1),
  (0x3fe767dcf5534862, 0x3fd4043057b6ee09)]

/-- The logarithm of the positive normal number with the pattern `bits`, times two
to the power `lift`. -/
def logNormal (bits : UInt32) (lift : Int) : Float :=
  let offset := bits - 0x3f330000
  let entry := logarithmTable[(offset >>> 19 % 16).toNat]?.getD (0, 0)
  let power := offset.toInt32.toInt / 0x800000
  let z := toFloat ⟨bits - (offset &&& 0xff800000)⟩
  let r := fused z (.ofBits entry.1) (-1)
  let start := fused (.ofInt (power + lift)) (.ofBits 0x3fe62e42fefa39ef) (.ofBits entry.2)
  let square := r * r
  let tail := fused (.ofBits 0x3fd5575b0be00b6a) r (.ofBits 0xbfdffffef20a4123)
  fused (fused (.ofBits 0xbfd00ea348b88334) square tail) square (start + r)

def log (x : Binary32) : Binary32 :=
  if x.bits = 0x3f800000 then 0
  else if x.bits &&& 0x7fffffff = 0 then infinite true
  else if x.isUndefined then x.quieted
  else if 0x80000000 ≤ x.bits then invalid
  else if x.bits = 0x7f800000 then x
  else if x.bits < 0x00800000 then
    ofFloat (logNormal (x * ⟨0x4b000000⟩).bits (-23))
  else ofFloat (logNormal x.bits 0)

end Backprop.Binary32
