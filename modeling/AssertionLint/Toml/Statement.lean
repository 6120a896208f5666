import AssertionLint.Toml.Quoted
import AssertionLint.Toml.Scalar
import AssertionLint.Toml.Table

/-!
# Statements of a configuration file

A file is a list of lines. A line opens a table, opens one more row of a list of tables, or sets a
value; it may be empty and may end with a comment. Values nest up to a fixed depth, on which their
reading recurs. A file is the table that its statements build from top to bottom: the settings below
a header go into the table that the header opened.
-/

namespace AssertionLint

namespace Toml

/-- What a line of a file says. -/
inductive Statement
  | table (path : Path)
  | row (path : Path)
  | setting (path : Path) (value : Value)
  deriving Repr, Inhabited

/-- The tables that a key may lead through, and the lists and tables around a value. -/
def maxNesting : Nat := 79

/-- Reads a value from the start of a text and gives the rest. -/
abbrev Scanner := StateT (List Char) Option

namespace Scanner

/-- The characters at the start that are accepted. -/
def takeWhile (accept : Char → Bool) : Scanner (List Char) := fun text =>
  some (text.takeWhile accept, text.dropWhile accept)

/-- Takes the given text. -/
def mark (expected : String) : Scanner Unit := fun text =>
  if expected.toList.isPrefixOf text then some ((), text.drop expected.length) else none

/-- Reads a value if there is one. -/
def maybe {α : Type} (item : Scanner α) : Scanner (Option α) := some <$> item <|> pure none

/-- Reads as many values as there are. -/
def manyFrom {α : Type} (item : Scanner α) (text : List Char) : List α × List Char :=
  match item text with
  | some (value, rest) =>
    -- an item that takes nothing would be read forever
    if rest.length < text.length then
      let (following, stop) := manyFrom item rest
      (value :: following, stop)
    else
      ([], text)
  | none => ([], text)
termination_by text.length

/-- Reads as many values as there are. -/
def many {α : Type} (item : Scanner α) : Scanner (List α) := fun text =>
  some (manyFrom item text)

/-- Reads one or more items with a separator between them. -/
def separated {α : Type} (separator : String) (item : Scanner α) : Scanner (List α) := do
  let first ← item
  let following ← many (mark separator *> item)
  return first :: following

/-- Skips blanks within a line. -/
def blanks : Scanner Unit := do
  let _ ← takeWhile fun c => c == ' ' || c == '\t'

/-- Takes the end of a line. -/
def lineEnd : Scanner Unit := mark "\n" <|> mark "\r\n"

/-- Takes a comment up to the end of its line. -/
def comment : Scanner Unit := do
  mark "#"
  let _ ← takeWhile fun c => !isControl c

/-- Skips blanks, comments and line ends. -/
def gap : Scanner Unit := do
  blanks
  let _ ← many do
    let _ ← maybe comment
    lineEnd
    blanks

/-- Reads a quoted text; tripled quotes only where they are allowed. -/
def quoted (tripled : Bool) : Scanner String := fun text => do
  let found ← QuoteStyle.ofStart? text
  let style := { found with tripled := found.tripled && tripled }
  let opened := text.drop style.width
  let inside :=
    if style.tripled && startsWithLineEnd opened then
      -- a line end right behind the opening quotes is no part of the text
      opened.drop (if opened.head? == some '\r' then 2 else 1)
    else
      opened
  let (content, rest) ← style.read 0 inside
  return (String.ofList content, rest)

/-- Reads a name with or without quotes. -/
def name : Scanner String := quoted false <|> do
  let chars ← takeWhile isNameChar
  if chars.isEmpty then failure else return String.ofList chars

/-- Reads names with points between them. -/
def path : Scanner Path := do
  let names ← separated "." (blanks *> name <* blanks)
  if maxNesting < names.length then failure else Path.ofNames? names

/-- Reads a number, a flag, a date or a time; one blank may stand between a date and a time. -/
def scalar : Scanner Value := do
  let word ← takeWhile isWordChar
  let time ← if isDate word then maybe timeBehindBlank else pure none
  match time with
  | some time => return .moment (String.ofList (word ++ [' '] ++ time))
  | none => return ← scalar? word
where
  timeBehindBlank : Scanner (List Char) := do
    mark " "
    let time ← takeWhile isWordChar
    if isTimeWithOffset time then return time else failure

/-- Reads values in brackets, on any number of lines; a comma may follow the last one. -/
def array (item : Scanner Value) : Scanner Value := do
  mark "["
  let items ← maybe (separated "," (gap *> item <* gap))
  let _ ← if items.isSome then maybe (mark ",") else pure none
  gap
  mark "]"
  return .array (items.getD [])

/-- Reads a name and its value. -/
def setting (item : Scanner Value) : Scanner (Path × Value) := do
  let place ← path
  mark "="
  blanks
  let value ← item
  return (place, value)

/-- Reads settings in braces on one line. -/
def bracedTable (item : Scanner Value) : Scanner Value := do
  mark "\x7b"
  let settings ← maybe (separated "," (setting item <* blanks))
  blanks
  mark "\x7d"
  let entries ← (settings.getD []).foldlM
    (fun entries (path, value) => Entries.set path value .braces entries) []
  return .table .braces entries

/-- Reads a value with at most the given number of lists and tables in each other. -/
def value : (depth : Nat) → Scanner Value
  | 0 => Value.text <$> quoted true <|> scalar
  | depth + 1 =>
    Value.text <$> quoted true <|> array (value depth) <|> bracedTable (value depth) <|> scalar

/-- Reads a statement. -/
def statement : Scanner Statement :=
  (do mark "[["; let place ← path; mark "]]"; return .row place) <|>
  (do mark "["; let place ← path; mark "]"; return .table place) <|>
  (do let (place, value) ← setting (value maxNesting); return .setting place value)

/-- Reads what a line says, if it says anything. -/
def line : Scanner (Option Statement) := do
  blanks
  let found ← maybe statement
  blanks
  let _ ← maybe comment
  return found

def lines : Scanner (List Statement) := do
  let _ ← maybe (mark "\ufeff")
  let first ← line
  let following ← many (lineEnd *> line)
  return (first :: following).filterMap id

end Scanner

/-- The statements of a whole file. -/
def statements? (text : String) : Option (List Statement) :=
  match Scanner.lines text.toList with
  | some (statements, []) => some statements
  | _ => none

/-- What the statements read so far have built. -/
structure Progress where
  entries : Entries := []
  /-- The names that lead to the open table. -/
  opened : List String := []
  deriving Repr, Inhabited

/-- Carries out a statement, if it fits what was built before. -/
def Statement.run? (progress : Progress) : Statement → Option Progress
  | .table path =>
    (progress.entries.define path).map fun entries => ⟨entries, path.tables ++ [path.name]⟩
  | .row path =>
    (progress.entries.addRow path).map fun entries => ⟨entries, path.tables ++ [path.name]⟩
  | .setting path value =>
    (progress.entries.setWithin progress.opened path value).map fun entries =>
      { progress with entries }

/-- The table that the text of a file describes. -/
def document? (text : String) : Option Entries := do
  let statements ← statements? text
  let progress ← statements.foldlM Statement.run? {}
  return progress.entries

end Toml

end AssertionLint
