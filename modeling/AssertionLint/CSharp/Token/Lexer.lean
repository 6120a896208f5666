import AssertionLint.CSharp.Token
import AssertionLint.Text.Basic

/-!
# Scanning

Splits a document into tokens. The scanner looks at one character and what follows it and decides
what starts there and how many characters it takes, so every step moves on by at least one
character. Inside an interpolated string it keeps a stack that tells text from holes. The kinds of
strings are told apart by the number of their dollar signs and quotes. The scanner is there to be
run on documents that compile; it takes some texts that no compiler takes, such as a string without
its closing quote, for tokens.
-/

namespace AssertionLint

namespace Token

/-- How an interpolated string is written. -/
structure InterpolationStyle where
  /-- A doubled quote stands for a quote. -/
  verbatim : Bool
  /-- The number of braces that open a hole. -/
  dollars : Nat
  /-- The number of quotes that end the string. -/
  quotes : Nat
  deriving Repr, Inhabited

namespace InterpolationStyle

/-- A string in three or more quotes has no escapes. -/
def isRaw (style : InterpolationStyle) : Bool := 3 ≤ style.quotes

end InterpolationStyle

/-- Where the scanner stands. -/
inductive Mode
  /-- In the text of an interpolated string. -/
  | text (style : InterpolationStyle)
  /-- In a hole of an interpolated string, with the number of open brackets and the number of
  conditional expressions outside of them whose colon is still to come. -/
  | hole (style : InterpolationStyle) (depth : Nat) (conditionals : Nat)
  /-- On the line of a conditional directive. -/
  | directive
  deriving Repr, Inhabited

/-- What starts at a character: the kind of a token, or none for a gap, the number of characters
behind the first one that belong to it, and the modes from there on. -/
structure Step where
  kind : Option TokenKind
  extra : Nat
  modes : List Mode

def apostrophe : Char := Char.ofNat 39

def backslash : Char := Char.ofNat 92

/-- The character can start a name. -/
def isWordStart (c : Char) : Bool :=
  c.isAlpha || c == '_' || (0x80 ≤ c.toNat && !Text.isBlank c && c.toNat != 0xfeff)

/-- The character can stand inside a name. -/
def isWordPart (c : Char) : Bool := isWordStart c || c.isDigit

/-- The character belongs to the gap between tokens: a blank or a byte order mark. -/
def isGap (c : Char) : Bool := Text.isBlank c || c.toNat == 0xfeff

def countWhile (accept : Char → Bool) (chars : List Char) : Nat :=
  (chars.takeWhile accept).length

def isDigitPart (c : Char) : Bool := c.isDigit || c == '_'

def isHexPart (c : Char) : Bool :=
  isDigitPart c || ('a' ≤ c && c ≤ 'f') || ('A' ≤ c && c ≤ 'F')

/-- The length of the text up to and including the quote that ends a string with escapes. -/
def escapedLength (ending : Char) : List Char → Nat
  | [] => 0
  | c :: rest =>
    if c == ending then 1
    else if c == '\n' then 0
    else if c == backslash then
      match rest with
      | [] => 1
      | _ :: following => 2 + escapedLength ending following
    else 1 + escapedLength ending rest

/-- The length of the text up to and including the quote that ends a string in which a doubled
quote stands for a quote. -/
def verbatimLength : List Char → Nat
  | [] => 0
  | '"' :: '"' :: rest => 2 + verbatimLength rest
  | '"' :: _ => 1
  | _ :: rest => 1 + verbatimLength rest

/-- The length of the text up to and including the given number of quotes in a row. -/
def rawLength (quotes : Nat) : List Char → Nat → Nat
  | [], _ => 0
  | c :: rest, seen =>
    if c == '"' then
      if quotes ≤ seen + 1 then
        1 + (if rest.head? == some '"' then rawLength quotes rest (seen + 1) else 0)
      else
        1 + rawLength quotes rest (seen + 1)
    else
      1 + rawLength quotes rest 0

/-- The length of a comment up to and including its end. -/
def commentLength : List Char → Nat
  | [] => 0
  | '*' :: '/' :: _ => 2
  | _ :: rest => 1 + commentLength rest

/-- The length of the text of an interpolated string in front of its next hole or its end. Braces
in a row open a hole if there are as many of them as the string has dollar signs, and are text
otherwise; `inBraces` tells that the braces here are known to be text. -/
def interpolatedLength (style : InterpolationStyle) (inBraces : Bool) : List Char → Nat
  | [] => 0
  | [_] => 0
  | c :: next :: rest =>
    let chars := c :: next :: rest
    if c == '"' then
      if style.isRaw then
        if style.quotes ≤ countWhile (· == '"') chars then 0
        else 1 + interpolatedLength style false (next :: rest)
      else if style.verbatim && next == '"' then 2 + interpolatedLength style false rest
      else 0
    else if c == '{' then
      -- braces are counted where a row of them starts, not again at each brace of the row
      if !inBraces && countWhile (· == '{') chars == style.dollars then 0
      else 1 + interpolatedLength style true (next :: rest)
    else if c == backslash && !style.verbatim && !style.isRaw then
      2 + interpolatedLength style false rest
    else
      1 + interpolatedLength style false (next :: rest)

/-- The marks of more than one character, a longer one in front of its own start. An angle bracket
that closes stands alone, so that it can close type arguments whatever follows it. -/
def longMarks : List String :=
  ["??=", "<<=", "??", "::", "->", "=>", "==", "!=", "<=", "&&", "||", "++", "--", "+=", "-=",
    "*=", "/=", "%=", "&=", "|=", "^=", "<<", ".."]

def markExtra (chars : List Char) : Nat :=
  match longMarks.find? fun text => text.toList.isPrefixOf chars with
  | some text => text.length - 1
  | none => 0

def integerSuffix (chars : List Char) : Nat :=
  min 2 (countWhile (fun c => c == 'u' || c == 'U' || c == 'l' || c == 'L') chars)

def exponentLength : List Char → Nat
  | e :: sign :: digit :: rest =>
    if e != 'e' && e != 'E' then 0
    else if (sign == '+' || sign == '-') && digit.isDigit then
      3 + countWhile isDigitPart rest
    else if sign.isDigit then 1 + countWhile isDigitPart (sign :: digit :: rest)
    else 0
  | [e, digit] => if (e == 'e' || e == 'E') && digit.isDigit then 2 else 0
  | _ => 0

/-- The length of a dot and the digits behind it. -/
def fractionLength : List Char → Nat
  | '.' :: digit :: rest => if digit.isDigit then 2 + countWhile isDigitPart rest else 0
  | _ => 0

def isRealSuffix (c : Char) : Bool :=
  c == 'f' || c == 'F' || c == 'd' || c == 'D' || c == 'm' || c == 'M'

/-- The kind and the length of a number. -/
def numberLength (chars : List Char) : LiteralKind × Nat :=
  match chars with
  | '0' :: base :: rest =>
    if base == 'x' || base == 'X' then
      let digits := 2 + countWhile isHexPart rest
      (.integer, digits + integerSuffix (chars.drop digits))
    else if base == 'b' || base == 'B' then
      let digits := 2 + countWhile isDigitPart rest
      (.integer, digits + integerSuffix (chars.drop digits))
    else decimalLength chars
  | _ => decimalLength chars
where
  decimalLength (chars : List Char) : LiteralKind × Nat :=
    let whole := countWhile isDigitPart chars
    let fraction := fractionLength (chars.drop whole)
    let exponent := exponentLength (chars.drop (whole + fraction))
    let digits := whole + fraction + exponent
    let suffix := if (chars.drop digits).head?.any isRealSuffix then 1 else 0
    if fraction + exponent + suffix == 0 then
      (.integer, digits + integerSuffix (chars.drop digits))
    else
      (.real, digits + suffix)

def encodingSuffix : List Char → Nat
  | 'u' :: '8' :: _ | 'U' :: '8' :: _ => 2
  | _ => 0

/-- The kind and the length of a string that starts with the given quote characters. -/
def stringLength (chars : List Char) : LiteralKind × Nat :=
  let quotes := countWhile (· == '"') chars
  if 3 ≤ quotes then
    let length := quotes + rawLength quotes (chars.drop quotes) 0
    (.rawString, length + encodingSuffix (chars.drop length))
  else
    let length := 1 + escapedLength '"' (chars.drop 1)
    (.string, length + encodingSuffix (chars.drop length))

/-- The style and the length of the start of an interpolated string. -/
def interpolationStart? (chars : List Char) : Option (InterpolationStyle × Nat) :=
  let dollars := countWhile (· == '$') chars
  let quotes := countWhile (· == '"') (chars.drop dollars)
  if "$@\"".toList.isPrefixOf chars || "@$\"".toList.isPrefixOf chars then
    some (⟨true, 1, 1⟩, 3)
  else if dollars == 0 || quotes == 0 then none
  else if 3 ≤ quotes then some (⟨false, dollars, quotes⟩, dollars + quotes)
  else if dollars == 1 then some (⟨false, 1, 1⟩, 2)
  else none

/-- The directives of conditional groups. -/
def conditionalDirectives : List String := ["if", "elif", "else", "endif"]

def directiveStep (modes : List Mode) (rest : List Char) : Step :=
  let blanks := countWhile (fun c => c == ' ' || c == '\t') rest
  let word := (rest.drop blanks).takeWhile isWordPart
  if conditionalDirectives.contains (String.ofList word) then
    ⟨some .directive, blanks + word.length, .directive :: modes⟩
  else
    ⟨none, countWhile (· != '\n') rest, modes⟩

/-- Tracks the brackets of a hole. -/
def openBracket (change : Nat → Nat) : List Mode → List Mode
  | .hole style depth conditionals :: modes => .hole style (change depth) conditionals :: modes
  | modes => modes

/-- A question mark in front of the given characters starts a conditional expression: it is not
part of a longer mark, nor does an access follow it at once. -/
def startsConditional : List Char → Bool
  | c :: next :: _ => c != '?' && c != '[' && (c != '.' || next.isDigit)
  | [c] => c != '?' && c != '[' && c != '.'
  | [] => true

/-- A step at a character outside the text of an interpolated string. -/
def plainStep (modes : List Mode) (c : Char) (rest : List Char) : Step :=
  let chars := c :: rest
  if isGap c then
    ⟨none, countWhile isGap rest, modes⟩
  else if "//".toList.isPrefixOf chars then
    ⟨none, countWhile (· != '\n') rest, modes⟩
  else if "/*".toList.isPrefixOf chars then
    ⟨none, 1 + commentLength (rest.drop 1), modes⟩
  else if c == '#' then
    directiveStep modes rest
  else
    match interpolationStart? chars with
    | some (style, length) => ⟨some .interpolationStart, length - 1, .text style :: modes⟩
    | none =>
      if c == '@' && rest.head? == some '"' then
        let length := 1 + verbatimLength (rest.drop 1)
        ⟨some (.literal .verbatimString), length + encodingSuffix (rest.drop length), modes⟩
      else if c == '"' then
        let (kind, length) := stringLength chars
        ⟨some (.literal kind), length - 1, modes⟩
      else if c == apostrophe then
        ⟨some (.literal .character), escapedLength apostrophe rest, modes⟩
      else if c.isDigit || (c == '.' && rest.head?.any Char.isDigit) then
        let (kind, length) := numberLength chars
        ⟨some (.literal kind), length - 1, modes⟩
      else if isWordStart c then
        let extra := countWhile isWordPart rest
        ⟨some (kindOfWord (String.ofList (c :: rest.take extra))), extra, modes⟩
      else if c == '@' && rest.head?.any isWordStart then
        ⟨some .identifier, countWhile isWordPart rest, modes⟩
      else if c == '(' || c == '[' || c == '{' then
        ⟨some .mark, 0, openBracket (· + 1) modes⟩
      else if c == ')' || c == ']' || c == '}' then
        ⟨some .mark, 0, openBracket (· - 1) modes⟩
      else
        ⟨some .mark, markExtra chars, modes⟩

/-- What starts at a character in the given modes. -/
def step (modes : List Mode) (c : Char) (rest : List Char) : Step :=
  match modes with
  | .text style :: outer =>
    let chars := c :: rest
    let length := interpolatedLength style false chars
    if 0 < length then ⟨some .interpolationText, length - 1, modes⟩
    else if c == '{' then ⟨some .mark, style.dollars - 1, .hole style 0 0 :: modes⟩
    else if c == '"' then ⟨some .interpolationEnd, style.quotes - 1, outer⟩
    else ⟨some .interpolationText, 0, modes⟩
  | .hole style 0 conditionals :: outer =>
    if c == '}' then ⟨some .mark, style.dollars - 1, outer⟩
    else if c == ':' && rest.head? != some ':' then
      -- a colon ends the innermost conditional expression before it can start a format
      match conditionals with
      | 0 => ⟨some .interpolationText, countWhile (fun c => c != '}' && c != '"') rest, modes⟩
      | pending + 1 => ⟨some .mark, 0, .hole style 0 pending :: outer⟩
    else if c == '?' && startsConditional rest then
      ⟨some .mark, 0, .hole style 0 (conditionals + 1) :: outer⟩
    else plainStep modes c rest
  | .directive :: outer =>
    if c == '\n' then ⟨some .lineEnd, 0, outer⟩
    else if isGap c then ⟨none, 0, modes⟩
    else plainStep modes c rest
  | _ => plainStep modes c rest

/-- The tokens of a sequence of characters that starts at the given offset. -/
def scanFrom (modes : List Mode) (offset : Nat) : List Char → List Token
  | [] => []
  | c :: rest =>
    let found := step modes c rest
    let text := c :: rest.take found.extra
    let stop := offset + Text.byteSize text
    let following := scanFrom found.modes stop (rest.drop found.extra)
    match found.kind with
    | some kind => ⟨kind, String.ofList text, ⟨offset, stop⟩⟩ :: following
    | none => following
termination_by chars => chars.length
decreasing_by
  simp only [List.length_drop, List.length_cons]
  omega

/-- The tokens of a document. -/
def scan (source : String) : List Token := scanFrom [] 0 source.toList

end Token

end AssertionLint
