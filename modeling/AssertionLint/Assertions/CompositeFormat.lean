import AssertionLint.CSharp.Expr.Build
import AssertionLint.Text.Basic

/-!
# Composite formats

A composite format such as `{0} of {1,5:N}` is text with numbered items in braces; doubled braces
stand for themselves. Written as a literal, it becomes an interpolated string whose holes hold the
arguments: the text keeps its escapes, an item keeps its alignment and its format clause.
-/

namespace AssertionLint

/-- A piece of a composite format. -/
inductive FormatPiece
  /-- Text as it is written, doubled braces included. -/
  | text (written : List Char)
  /-- What stands between the braces of an item. -/
  | item (body : List Char)
  deriving DecidableEq, Repr, Inhabited

namespace FormatPiece

/-- Puts text in front of pieces and joins it with text that follows. -/
def consText (written : List Char) : List FormatPiece → List FormatPiece
  | text following :: rest => text (written ++ following) :: rest
  | pieces => text written :: pieces

/-- The characters in front of the next closing brace and those behind it. -/
def untilBrace? : List Char → Option (List Char × List Char)
  | [] => none
  | c :: rest =>
    if c = '}' then some ([], rest)
    else (untilBrace? rest).map fun (body, after) => (c :: body, after)

theorem length_lt_of_untilBrace? {written body after : List Char}
    (found : untilBrace? written = some (body, after)) : after.length < written.length := by
  induction written generalizing body with
  | nil => simp [untilBrace?] at found
  | cons c rest ih =>
    simp only [untilBrace?] at found
    split at found
    · simp_all
    · obtain ⟨⟨inner, behind⟩, inside, equal⟩ := Option.map_eq_some_iff.1 found
      simp only [Prod.mk.injEq] at equal
      have := ih (equal.2 ▸ inside)
      simp only [List.length_cons]
      omega

/-- Splits a format into its pieces, unless an item is not closed or a closing brace stands
alone. -/
def split? : List Char → Option (List FormatPiece)
  | [] => some []
  | '{' :: '{' :: rest => (split? rest).map (consText ['{', '{'])
  | '}' :: '}' :: rest => (split? rest).map (consText ['}', '}'])
  | '{' :: rest =>
    match found : untilBrace? rest with
    | none => none
    | some (body, after) =>
      have := length_lt_of_untilBrace? found
      (split? after).map (item body :: ·)
  | '}' :: _ => none
  | c :: rest => (split? rest).map (consText [c])
termination_by written => written.length

end FormatPiece

/-- An item of a composite format. -/
structure FormatItem where
  /-- The number of the argument. -/
  index : Nat
  /-- The width that the text of the argument is padded to, as it is written. -/
  alignment : Option (List Char)
  format : Option (List Char)
  deriving DecidableEq, Repr, Inhabited

namespace FormatItem

/-- Cuts a text at the first place of a separator, which is left out. -/
def cutAt (separator : Char) : List Char → List Char × Option (List Char)
  | [] => ([], none)
  | c :: rest =>
    if c = separator then ([], some rest)
    else
      let (before, after) := cutAt separator rest
      (c :: before, after)

/-- The format clause behind a colon; an empty one is refused. -/
def formatClause? : Option (List Char) → Option (Option (List Char))
  | none => some none
  | some [] => none
  | some clause => some (some clause)

/-- The alignment behind a comma; it must be a number of 32 bits. -/
def alignmentClause? : Option (List Char) → Option (Option (List Char))
  | none => some none
  | some written =>
    (Text.integer? 10 0x80000000 (Text.trim written)).map fun _ => some (Text.trim written)

/-- Reads what stands between the braces of an item. -/
def ofBody? (body : List Char) : Option FormatItem := do
  -- the clause goes first, since it may hold commas of its own
  let (head, clause) := cutAt ':' body
  let format ← formatClause? clause
  let (number, width) := cutAt ',' head
  let alignment ← alignmentClause? width
  let index ← Text.natural? 10 0x10000000000000000 (Text.trim number)
  pure ⟨index, alignment, format⟩

end FormatItem

namespace InterpolationPart

/-- An argument as it is written into a hole. A colon would start a format clause, so a conditional
expression is put in parentheses. -/
def holeExpr (value : Expr) : Expr :=
  match value.unparenthesized with
  | .conditional condition whenTrue whenFalse span =>
    Expr.inParentheses (.conditional condition whenTrue whenFalse span)
  | _ => value

/-- The piece of an interpolated string for a piece of a format. -/
def ofPiece? (values : List Expr) : FormatPiece → Option InterpolationPart
  | .text written => some (.text (String.ofList written))
  | .item body => do
    let item ← FormatItem.ofBody? body
    let value ← values[item.index]?
    pure (.hole (holeExpr value) (item.alignment.map String.ofList)
      (item.format.map String.ofList))

/-- The pieces of an interpolated string for a format. -/
def ofFormat? (values : List Expr) (format : List Char) : Option (List InterpolationPart) := do
  (← FormatPiece.split? format).mapM (ofPiece? values)

end InterpolationPart

/-- The text between the delimiters of a plain or verbatim string literal, and whether it is
verbatim. -/
def Literal.stringBody? (written : Literal) : Option (Bool × List Char) :=
  let between (delimited : List Char) : Option (List Char) :=
    match delimited with
    | '"' :: rest => if rest.getLast? = some '"' then some rest.dropLast else none
    | _ => none
  match written.kind with
  | .string => (between written.text.toList).map fun body => (false, body)
  | .verbatimString =>
    match written.text.toList with
    | '@' :: rest => (between rest).map fun body => (true, body)
    | _ => none
  | _ => none

/-- Turns a format literal with arguments into an interpolated string, if the format is a literal
whose items all name an argument. -/
def Expr.interpolate? (format : Expr) (values : List Expr) : Option Expr :=
  match format.unparenthesized with
  | .literal written _ => do
    let (verbatim, body) ← written.stringBody?
    let parts ← InterpolationPart.ofFormat? values body
    pure (.interpolatedString verbatim parts none)
  | _ => none

end AssertionLint
