import Backprop.Number.Binary32

/-! Numbers written in decimal: digits with at most one point, and an exponent. -/

namespace Backprop.Decimal

def natural? (text : String) : Option Nat :=
  let digits := match text.toList with
    | '+' :: rest => rest
    | all => all
  if digits.isEmpty || !digits.all Char.isDigit then none else some (ofDigits digits)
where
  /-- The number that digits stand for. -/
  ofDigits (digits : List Char) : Nat :=
    digits.foldl (fun n c => 10 * n + (c.toNat - '0'.toNat)) 0

/-- An integer after a sign, or none. -/
def exponent? (text : List Char) : Option Int :=
  match text with
  | '-' :: rest => digits? rest |>.map fun n => -(n : Int)
  | '+' :: rest => digits? rest |>.map (↑·)
  | rest => digits? rest |>.map (↑·)
where
  digits? (digits : List Char) : Option Nat :=
    if digits.isEmpty || !digits.all Char.isDigit then none else some (natural?.ofDigits digits)

/-- Beyond these powers of ten a number is infinite or zero. -/
def powerLimit : Int := 1000

/-- The number nearest to `digits * 10 ^ power`. -/
def nearest (negative : Bool) (digits : List Char) (power : Int) : Binary32 :=
  let significand := natural?.ofDigits digits
  let magnitude := power + (digits.dropWhile (· == '0')).length
  if significand = 0 ∨ magnitude < -powerLimit then .ofRatio negative 0 1
  else if powerLimit < magnitude then .infinite negative
  else if power < 0 then .ofRatio negative significand (Nat.pow 10 (-power).toNat)
  else .ofRatio negative (significand * Nat.pow 10 power.toNat) 1

def unsigned? (negative : Bool) (text : List Char) : Option Binary32 :=
  let word := text.map Char.toLower
  if word = "inf".toList ∨ word = "infinity".toList then some (.infinite negative)
  else if word = "nan".toList then some (if negative then -.undefined else .undefined)
  else
    let whole := text.takeWhile Char.isDigit
    let rest := text.dropWhile Char.isDigit
    let (fraction, rest) := match rest with
      | '.' :: rest => (rest.takeWhile Char.isDigit, rest.dropWhile Char.isDigit)
      | rest => ([], rest)
    let digits := whole ++ fraction
    if digits.isEmpty then none
    else match rest with
      | [] => some (nearest negative digits (-(fraction.length : Int)))
      | c :: rest =>
        if c = 'e' ∨ c = 'E' then
          (exponent? rest).map fun e => nearest negative digits (e - fraction.length)
        else none

def binary32? (text : String) : Option Binary32 :=
  match text.toList with
  | '-' :: rest => unsigned? true rest
  | '+' :: rest => unsigned? false rest
  | rest => unsigned? false rest

end Backprop.Decimal
