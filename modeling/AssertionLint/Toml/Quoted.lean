import AssertionLint.Text.Basic

/-!
# Quoted text

Text in double quotes has escapes, text in single quotes has none; either may be tripled to span
lines. `QuoteStyle.read` takes what stands behind the opening quotes, and `nameText` writes a name
with the fewest marks.
-/

namespace AssertionLint

namespace Toml

private def singleQuote : Char := Char.ofNat 39

private def escapeMark : Char := Char.ofNat 92

/-- The characters with an escape of one letter. -/
def shortEscapes : List (Char × Char) :=
  [('b', Char.ofNat 8), ('t', Char.ofNat 9), ('n', Char.ofNat 10), ('f', Char.ofNat 12),
    ('r', Char.ofNat 13), ('"', '"'), (escapeMark, escapeMark)]

/-- The character may stand in a file only as an escape. -/
def isControl (c : Char) : Bool := (c.toNat < 0x20 && c != '\t') || c.toNat == 0x7f

/-- The length of the blanks and line ends at the start of a text. -/
def gapLength : List Char → Nat
  | ' ' :: rest | '\t' :: rest | '\n' :: rest => 1 + gapLength rest
  | '\r' :: '\n' :: rest => 2 + gapLength rest
  | _ => 0

/-- The text starts with a line end. -/
def startsWithLineEnd : List Char → Bool
  | '\n' :: _ | '\r' :: '\n' :: _ => true
  | _ => false

/-- The quotes around a text. -/
structure QuoteStyle where
  quote : Char
  /-- The quotes are tripled, and the text may span lines. -/
  tripled : Bool
  deriving DecidableEq, Repr, Inhabited

namespace QuoteStyle

/-- The style of the quotes at the start of a text. -/
def ofStart? (text : List Char) : Option QuoteStyle := do
  let quote ← text.head?
  if quote == '"' || quote == singleQuote then
    some ⟨quote, text.take 3 == List.replicate 3 quote⟩
  else
    none

/-- The number of quotes at either end of a text. -/
def width (style : QuoteStyle) : Nat := if style.tripled then 3 else 1

/-- The number of quotes that belong to the text, if it ends behind them. Up to two quotes may
stand directly in front of three that end a text. -/
def ending? (style : QuoteStyle) (text : List Char) : Option Nat :=
  if style.tripled then
    let run := (text.takeWhile (· == style.quote)).length
    if run < 3 then none else some (min (run - 3) 2)
  else
    some 0

/-- The character with a number written in exactly `count` hexadecimal digits. -/
def numbered? (count : Nat) (text : List Char) : Option Char := do
  let digits := text.take count
  let value ← Text.digits? 16 digits
  if digits.length = count ∧ value.isValidChar then some (Char.ofNat value) else none

/-- What the text behind an escape mark stands for and how much of it belongs to the escape. -/
def escape? (style : QuoteStyle) (text : List Char) : Option (List Char × Nat) :=
  match text with
  | 'u' :: rest => (numbered? 4 rest).map fun c => ([c], 5)
  | 'U' :: rest => (numbered? 8 rest).map fun c => ([c], 9)
  | letter :: _ =>
    match shortEscapes.find? fun entry => entry.1 == letter with
    | some (_, c) => some ([c], 1)
    | none =>
      if style.tripled && startsWithLineEnd (text.dropWhile fun c => c == ' ' || c == '\t') then
        some ([], gapLength text)
      else
        none
  | [] => none

/-- What a character stands for, and how much of what follows it belongs to it. -/
def piece? (style : QuoteStyle) (c : Char) (following : List Char) : Option (List Char × Nat) :=
  if style.tripled && startsWithLineEnd (c :: following) then
    some (['\n'], if c == '\r' then 1 else 0)
  else if c == escapeMark && style.quote == '"' then style.escape? following
  else if isControl c then none
  else some ([c], 0)

/-- The text behind the next `skipped` characters up to the quotes that end it, and what follows
them. -/
def read (style : QuoteStyle) : (skipped : Nat) → List Char → Option (List Char × List Char)
  | _, [] => none
  | skipped + 1, _ :: rest => style.read skipped rest
  | 0, c :: rest =>
    if c == style.quote then
      match style.ending? (c :: rest) with
      | some kept =>
        some (List.replicate kept style.quote, (c :: rest).drop (kept + style.width))
      | none => (style.read 0 rest).map fun (content, behind) => (c :: content, behind)
    else
      match style.piece? c rest with
      | some (part, taken) =>
        (style.read taken rest).map fun (content, behind) => (part ++ content, behind)
      | none => none

end QuoteStyle

/-- The character may stand in a name without quotes. -/
def isNameChar (c : Char) : Bool := c.isAlphanum || c == '-' || c == '_'

/-- A character in double quotes. -/
def escapedChar (c : Char) : List Char :=
  match shortEscapes.find? fun entry => entry.2 == c with
  | some (letter, _) => [escapeMark, letter]
  | none =>
    if isControl c then
      let digits := (Nat.toDigits 16 c.toNat).map Char.toUpper
      [escapeMark, 'u'] ++ List.replicate (4 - digits.length) '0' ++ digits
    else
      [c]

/-- A name as it is written in a file. -/
def nameText (name : String) : String :=
  let chars := name.toList
  let hasControl := chars.any fun c => c.toNat < 0x20 || c.toNat == 0x7f
  if !chars.isEmpty && chars.all isNameChar then
    name
  else if hasControl || chars.contains singleQuote then
    String.ofList (['"'] ++ chars.flatMap escapedChar ++ ['"'])
  else if chars.contains '"' || chars.contains escapeMark then
    String.ofList ([singleQuote] ++ chars ++ [singleQuote])
  else
    String.ofList (['"'] ++ chars ++ ['"'])

end Toml

end AssertionLint
