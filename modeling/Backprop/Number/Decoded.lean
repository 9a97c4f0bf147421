/-! The exact value of a binary floating-point pattern, rounding of quotients to
the nearest integer, and decimals with a fixed number of places. -/

namespace Backprop

/-- The quotient rounded to the nearest integer, a half to the even one. -/
def nearestQuotient (num den : Nat) : Nat :=
  let quotient := num / den
  let rest := num % den
  if den < 2 * rest ∨ (2 * rest = den ∧ quotient % 2 = 1) then quotient + 1 else quotient

/-- A sign, with `significand * 2 ^ exponent` where there is a finite value. -/
inductive Decoded where
  | finite (negative : Bool) (significand : Nat) (exponent : Int)
  | infinite (negative : Bool)
  | undefined
deriving DecidableEq, Repr

namespace Decoded

/-- Reads a sign, an exponent field and a fraction field. A normal number has the bit
`hidden` too; the special field is that of infinities and undefined numbers. -/
def ofFields (negative : Bool) (exponentField fraction : Nat)
    (hidden specialField : Nat) (lowest : Int) : Decoded :=
  if exponentField = specialField then
    if fraction = 0 then infinite negative else undefined
  else if exponentField = 0 then finite negative fraction lowest
  else finite negative (fraction + hidden) (lowest + exponentField - 1)

def ofFloat (x : Float) : Decoded :=
  let bits := x.toBits.toNat
  ofFields (0x8000000000000000 ≤ bits) (bits / 0x10000000000000 % 0x800) (bits % 0x10000000000000)
    0x10000000000000 0x7ff (-1074)

def truncate : Decoded → Int
  | finite negative significand exponent =>
    let magnitude := if 0 ≤ exponent then significand <<< exponent.toNat
      else significand >>> (-exponent).toNat
    if negative then -(magnitude : Int) else magnitude
  | _ => 0

/-- Digits of `n` with a decimal point before the last `places` of them. -/
def pointed (n places : Nat) : String :=
  let digits := toString n
  let padded := "".pushn '0' (places + 1 - digits.length) ++ digits
  if places = 0 then padded
  else
    let whole := padded.length - places
    String.ofList (padded.toList.take whole) ++ "." ++ String.ofList (padded.toList.drop whole)

/-- The value with exactly `places` decimals, a half going to the even last digit.
A negative zero keeps its sign. -/
def toFixed (places : Nat) : Decoded → String
  | finite negative significand exponent =>
    let scaled := significand * Nat.pow 10 places
    let rounded := if 0 ≤ exponent then scaled <<< exponent.toNat
      else nearestQuotient scaled (1 <<< (-exponent).toNat)
    (if negative then "-" else "") ++ pointed rounded places
  | infinite negative => if negative then "-inf" else "inf"
  | undefined => "NaN"

end Decoded

end Backprop
