import Backprop.Number.Binary32
import Backprop.Number.Fused

/-! The cosine in single precision for angles of at most 120 in magnitude: the
angle is reduced to an eighth of a turn and a polynomial is evaluated in double precision. -/

namespace Backprop.Binary32

def cosPolynomial (square : Float) : Float :=
  let fourth := square * square
  let high := fused square (.ofBits 0x3ef99343027bf8c3) (.ofBits 0xbf56c087e89a359d)
  let low := fused square (.ofBits 0xbfdffffffd0c621c) 1
  fused (fourth * square) high (fused fourth (.ofBits 0x3fa55553e1068f19) low)

def sinPolynomial (angle square : Float) : Float :=
  let third := angle * square
  let high := fused square (.ofBits 0xbf2994eb3774cf24) (.ofBits 0x3f81107605230bc4)
  fused (third * square) high (fused third (.ofBits 0xbfc555545995a603) angle)

/-- Angles beyond 120 are not reduced and have no answer. -/
def cos (x : Binary32) : Binary32 :=
  let magnitude := x.abs
  let angle := x.toFloat
  if x.isUndefined then x.quieted
  else if magnitude.bits < 0x39800000 then 1
  else if magnitude.bits < 0x3f400000 then ofFloat (cosPolynomial (angle * angle))
  else if magnitude.bits < 0x42f00000 then
    let turns := (Decoded.ofFloat (angle * Float.ofBits 0x41645f306dc9c883)).truncate
    let quadrant := (turns + 0x800000) / 0x1000000
    let rest := fused (-.ofInt quadrant) (.ofBits 0x3ff921fb54442d18) angle
    let square := rest * rest
    ofFloat <| match quadrant % 4 with
      | 0 => cosPolynomial square
      | 1 => sinPolynomial (-rest) square
      | 2 => -cosPolynomial square
      | _ => sinPolynomial rest square
  else invalid

end Backprop.Binary32
