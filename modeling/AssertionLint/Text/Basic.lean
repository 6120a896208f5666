/-!
# Texts

Trimming the characters that Unicode counts as white space, replacing all places of a pattern from
left to right, comparing texts without regard to the case of ASCII letters, and reading numbers of a
bounded size in a base of at most sixteen.
-/

namespace AssertionLint.Text

/-- The ranges of the Unicode property for white space. -/
def blankRanges : List (Nat × Nat) :=
  [(0x9, 0xd), (0x20, 0x20), (0x85, 0x85), (0xa0, 0xa0), (0x1680, 0x1680), (0x2000, 0x200a),
    (0x2028, 0x2029), (0x202f, 0x202f), (0x205f, 0x205f), (0x3000, 0x3000)]

/-- The character is white space. -/
def isBlank (c : Char) : Bool :=
  blankRanges.any fun (first, last) => first ≤ c.toNat && c.toNat ≤ last

/-- The text without the blanks at its start. -/
def trimStart (text : List Char) : List Char := text.dropWhile isBlank

/-- The text without the blanks at its end. -/
def trimEnd (text : List Char) : List Char := (trimStart text.reverse).reverse

/-- The text without the blanks at both ends. -/
def trim (text : List Char) : List Char := trimEnd (trimStart text)

/-- Replaces a pattern wherever it occurs behind the next `skipped` characters, from left to right;
places that overlap an earlier one are left alone. -/
def replaceAfter (pattern replacement : List Char) : (skipped : Nat) → List Char → List Char
  | _, [] => []
  | 0, c :: rest =>
    if pattern.isPrefixOf (c :: rest) then
      replacement ++ replaceAfter pattern replacement (pattern.length - 1) rest
    else
      c :: replaceAfter pattern replacement 0 rest
  | skipped + 1, _ :: rest => replaceAfter pattern replacement skipped rest

/-- Replaces all places of a pattern that is not empty. -/
def replaceAll (pattern replacement text : String) : String :=
  String.ofList (replaceAfter pattern.toList replacement.toList 0 text.toList)

/-- The text with all ASCII letters in lower case. -/
def lowered (text : String) : String := String.ofList (text.toList.map Char.toLower)

/-- The texts differ at most in the case of ASCII letters. -/
def sameIgnoringCase (left right : String) : Bool := lowered left == lowered right

/-- The value of a digit in the given base. -/
def digitValue? (base : Nat) (c : Char) : Option Nat :=
  let value :=
    if c.isDigit then c.toNat - 48
    else if 'a' ≤ c ∧ c ≤ 'f' then c.toNat - 87
    else if 'A' ≤ c ∧ c ≤ 'F' then c.toNat - 55
    else base
  if value < base then some value else none

/-- The value of a sequence of digits behind digits with the value `value`. -/
def digitsValue? (base value : Nat) : List Char → Option Nat
  | [] => some value
  | c :: rest =>
    (digitValue? base c).bind fun digit => digitsValue? base (value * base + digit) rest

/-- The value of a sequence of at least one digit. -/
def digits? (base : Nat) : List Char → Option Nat
  | [] => none
  | text => digitsValue? base 0 text

/-- A natural number below `bound`, with an optional plus sign. -/
def natural? (base bound : Nat) (text : List Char) : Option Nat := do
  let value ← digits? base (match text with
    | '+' :: rest => rest
    | _ => text)
  if value < bound then some value else none

/-- An integer from `-bound` up to but without `bound`, with an optional sign. -/
def integer? (base bound : Nat) (text : List Char) : Option Int :=
  match text with
  | '-' :: rest => do
    let value ← digits? base rest
    if value ≤ bound then some (-(value : Int)) else none
  | _ => (natural? base bound text).map fun value => (value : Int)

end AssertionLint.Text
