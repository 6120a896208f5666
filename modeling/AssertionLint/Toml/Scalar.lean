import AssertionLint.Text.Decimal
import AssertionLint.Toml.Value

/-!
# Numbers, flags and dates

The values that are written as one word. The digits of a number may be grouped by single
underscores.
-/

namespace AssertionLint

namespace Toml

/-- The character can stand in a word. -/
def isWordChar (c : Char) : Bool := c.isAlphanum || "_+-.:".toList.contains c

/-- The digits of a number without the underscores between them. -/
def ungrouped? (base : Nat) : List Char → Option (List Char)
  | [] => none
  | [c] => if (Text.digitValue? base c).isSome then some [c] else none
  | c :: '_' :: rest =>
    if (Text.digitValue? base c).isSome then (ungrouped? base rest).map (c :: ·) else none
  | c :: rest =>
    if (Text.digitValue? base c).isSome then (ungrouped? base rest).map (c :: ·) else none

/-- The digits of a number that does not start with a superfluous zero. -/
def wholeDigits? (text : List Char) : Option (List Char) := do
  let digits ← ungrouped? 10 text
  -- underscores count as well: `0_1` has a superfluous zero
  if text.head? == some '0' && text.length != 1 then none else some digits

/-- An integer of 64 bits in one of four bases. -/
def integer? : List Char → Option Int
  | '0' :: 'x' :: digits => inBase 16 digits
  | '0' :: 'o' :: digits => inBase 8 digits
  | '0' :: 'b' :: digits => inBase 2 digits
  | text => do
    let (sign, rest) := Text.signAndRest text
    let digits ← wholeDigits? rest
    Text.integer? 10 0x8000000000000000 (sign ++ digits)
where
  inBase (base : Nat) (digits : List Char) : Option Int := do
    let digits ← ungrouped? base digits
    Text.integer? base 0x8000000000000000 digits

/-- The text is empty or an exponent. -/
def isExponent : List Char → Bool
  | [] => true
  | mark :: rest =>
    (mark == 'e' || mark == 'E') && (ungrouped? 10 (Text.signAndRest rest).2).isSome

/-- The text is a number with a fraction, an exponent or both. -/
def isFraction (text : List Char) : Bool :=
  let isDigit (c : Char) : Bool := c.isDigit || c == '_'
  let whole := text.takeWhile isDigit
  (wholeDigits? whole).isSome &&
    match text.dropWhile isDigit with
    | [] => false
    | '.' :: rest =>
      (ungrouped? 10 (rest.takeWhile isDigit)).isSome && isExponent (rest.dropWhile isDigit)
    | rest => isExponent rest

/-- A floating-point number; only the word for it is infinite. -/
def float? (text : List Char) : Option Float :=
  let rest := (Text.signAndRest text).2
  if rest == "inf".toList || rest == "nan".toList then
    Text.float? text
  else if isFraction rest then
    (Text.float? (text.filter (· != '_'))).filter fun number => !number.isInf
  else
    none

/-- The number of days in a month. -/
def daysIn (year month : Nat) : Nat :=
  if month == 2 then
    if year % 4 == 0 && (year % 100 != 0 || year % 400 == 0) then 29 else 28
  else if [4, 6, 9, 11].contains month then 30
  else 31

/-- The text is a number in the given range, whose digits are all written. -/
def isWithin (low high : Nat) (text : List Char) : Bool :=
  (Text.digits? 10 text).any fun value => low ≤ value && value ≤ high

def isDate : List Char → Bool
  | [y1, y2, y3, y4, '-', m1, m2, '-', d1, d2] =>
    ((Text.digits? 10 [y1, y2, y3, y4]).any fun year =>
      (Text.digits? 10 [m1, m2]).any fun month =>
        1 ≤ month && month ≤ 12 && isWithin 1 (daysIn year month) [d1, d2])
  | _ => false

/-- The text is empty or the rest of a second behind a point. -/
def isSecondFraction : List Char → Bool
  | [] => true
  | '.' :: rest => !rest.isEmpty && rest.all Char.isDigit
  | _ => false

def isTime : List Char → Bool
  | h1 :: h2 :: ':' :: m1 :: m2 :: ':' :: s1 :: s2 :: rest =>
    isWithin 0 23 [h1, h2] && isWithin 0 59 [m1, m2] && isWithin 0 60 [s1, s2] &&
      isSecondFraction rest
  | _ => false

/-- The text is empty or a distance from universal time. -/
def isOffset : List Char → Bool
  | [] | ['Z'] | ['z'] => true
  | [sign, h1, h2, ':', m1, m2] =>
    (sign == '+' || sign == '-') && isWithin 0 23 [h1, h2] && isWithin 0 59 [m1, m2]
  | _ => false

/-- The text is a time of day with an optional distance from universal time. -/
def isTimeWithOffset (text : List Char) : Bool :=
  let isTimeChar (c : Char) : Bool := c.isDigit || c == ':' || c == '.'
  isTime (text.takeWhile isTimeChar) && isOffset (text.dropWhile isTimeChar)

/-- The text is a date, a time of day, or both with a letter between them. -/
def isMoment (text : List Char) : Bool :=
  isDate text || isTime text ||
    (isDate (text.take 10) && [some 'T', some 't'].contains text[10]? &&
      isTimeWithOffset (text.drop 11))

/-- The value that a word stands for. -/
def scalar? (word : List Char) : Option Value :=
  if word == "true".toList then some (.boolean true)
  else if word == "false".toList then some (.boolean false)
  else if isMoment word then some (.moment (String.ofList word))
  else (integer? word).map .integer <|> (float? word).map .float

end Toml

end AssertionLint
