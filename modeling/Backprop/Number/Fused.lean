/-! Products added to a number with a single rounding, in double precision: the sum and
the product are taken with what their roundings left off, and these rests are put together
so that the last rounding sees on which side of a tie the exact value lies. -/

namespace Backprop

/-- A rounded sum, and the rest that makes it exact. -/
@[inline] def exactSum (a b : Float) : Float × Float :=
  let sum := a + b
  let added := sum - a
  (sum, (a - (sum - added)) + (b - added))

/-- The upper digits of a number and the lower ones: each half multiplies exactly. -/
@[inline] def halves (a : Float) : Float × Float :=
  let scaled := 134217729 * a
  let upper := scaled - (scaled - a)
  (upper, a - upper)

/-- A rounded product, and the rest that makes it exact. -/
@[inline] def exactProduct (a b : Float) : Float × Float :=
  let product := a * b
  let (a₁, a₀) := halves a
  let (b₁, b₀) := halves b
  (product, a₀ * b₀ - (((product - a₁ * b₁) - a₀ * b₁) - a₁ * b₀))

/-- A sum that, where it has to be rounded, goes to the neighbour whose last digit is one. -/
@[inline] def oddSum (a b : Float) : Float :=
  let (sum, rest) := exactSum a b
  let bits := sum.toBits
  if rest == 0 || bits &&& 1 == 1 then sum
  else .ofBits (if decide (0 < rest) == decide (0 < sum) then bits + 1 else bits - 1)

/-- `a * b + c`, rounded once, where neither the product nor its rest leaves the range. -/
def fused (a b c : Float) : Float :=
  let (product, productRest) := exactProduct a b
  let (low, lowRest) := exactSum c productRest
  let (sum, sumRest) := exactSum product low
  sum + oddSum lowRest sumRest

end Backprop
