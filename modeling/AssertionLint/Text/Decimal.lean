import AssertionLint.Text.Basic

/-!
# Decimal fractions

Reading numbers with a fraction and an exponent, both optional, as floating-point numbers of double
precision.
-/

namespace AssertionLint.Text

/-- A leading sign and what follows it. -/
def signAndRest : List Char → List Char × List Char
  | '+' :: rest => (['+'], rest)
  | '-' :: rest => (['-'], rest)
  | text => ([], text)

/-- The double nearest to `mantissa · 10 ^ exponent`. A number of more than four hundred digits in
front of the point is infinite, and one with as many zeros behind it is zero. -/
def nearestFloat (mantissa : Nat) (exponent : Int) : Float :=
  let places := exponent + (Nat.toDigits 10 mantissa).length
  if mantissa = 0 ∨ places < -400 then 0
  else if 400 < places then 1 / 0
  else if 0 ≤ exponent then Float.ofScientific mantissa false exponent.toNat
  else Float.ofScientific mantissa true (-exponent).toNat

/-- The exponent behind the digits of a number, zero if there is none. -/
def exponent? : List Char → Option Int
  | [] => some 0
  | mark :: text =>
    let (sign, digits) := signAndRest text
    if mark == 'e' || mark == 'E' then
      (digits? 10 digits).map fun value => if sign == ['-'] then -value else value
    else
      none

/-- A number without a sign, with at least one digit. -/
def unsignedFloat? (text : List Char) : Option Float :=
  let whole := text.takeWhile Char.isDigit
  let rest := text.dropWhile Char.isDigit
  let fraction := if rest.head? == some '.' then (rest.drop 1).takeWhile Char.isDigit else []
  let tail := if rest.head? == some '.' then (rest.drop 1).dropWhile Char.isDigit else rest
  do
    let mantissa ← digits? 10 (whole ++ fraction)
    let exponent ← exponent? tail
    return nearestFloat mantissa (exponent - fraction.length)

/-- A number with an optional sign, or the name of infinity or of no number in any case. -/
def float? (text : List Char) : Option Float :=
  let (sign, rest) := signAndRest text
  let value :=
    if ["inf", "infinity"].contains (lowered (String.ofList rest)) then some (1 / 0)
    else if lowered (String.ofList rest) == "nan" then some (0 / 0)
    else unsignedFloat? rest
  if sign == ['-'] then value.map (- ·) else value

end AssertionLint.Text
