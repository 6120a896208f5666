import AssertionLint.CSharp.Node

/-!
# Reading tokens

A reader takes tokens from a position on and either fails or gives a value and the position behind
it. Readers are functions, so a failed reading leaves no trace and the next alternative starts
where the failed one did.

The rules of the grammar refer to each other through a table of `Nonterminal`s: a rule receives
the table as an argument and is not recursive itself. `Reader.many` and `Reader.iterate` repeat a
reader as long as it moves on, so they end.
-/

namespace AssertionLint

/-- Reads a value from the tokens at a position. -/
abbrev Reader := ReaderT (Array Token) (StateT Nat Option)

/-- The mark that ends an expression at the place where it stands. -/
inductive Ending
  /-- Any bracket or separator. -/
  | plain
  /-- An arrow: a name in front of it is no lambda. -/
  | arrow
  /-- A colon: an element access behind a question mark may stand in front of it. -/
  | colon
  deriving DecidableEq, Repr

/-- The rules of the grammar that refer to each other. -/
inductive Nonterminal
  /-- An expression whose operators bind at least as strongly as `floor`. -/
  | expression (floor : Nat) (ending : Ending)
  | type
  | pattern
  | statement
  | declaration

/-- Readers for the rules that refer to each other. -/
abbrev Rules := Nonterminal → Reader Node

namespace Reader

/-- The token a number of places ahead. -/
def peek? (ahead : Nat) : Reader (Option Token) := fun tokens position =>
  some (tokens[position + ahead]?, position)

/-- The token a number of places ahead is one of the given words and marks. -/
def seesAt (ahead : Nat) (texts : List String) : Reader Bool := do
  return (← peek? ahead).any (·.isOneOf texts)

/-- The next token is the given word or mark. -/
def sees (text : String) : Reader Bool := seesAt 0 [text]

/-- The next token is one of the given words and marks. -/
def seesOneOf (texts : List String) : Reader Bool := seesAt 0 texts

/-- The token a number of places ahead is a name. -/
def seesNameAt (ahead : Nat) : Reader Bool := do
  return (← peek? ahead).any (·.kind == .identifier)

/-- The token a number of places ahead can start a type. -/
def seesTypeAt (ahead : Nat) : Reader Bool := do
  return (← peek? ahead).any fun token => token.kind == .identifier || token.isTypeKeyword

/-- Takes a token that is accepted. -/
def take (accept : Token → Bool) : Reader Token := fun tokens position =>
  match tokens[position]? with
  | some token => if accept token then some (token, position + 1) else none
  | none => none

/-- Takes the given word or mark. -/
def mark (text : String) : Reader Node := return .ofToken (← take (·.is text))

/-- Takes one of the given words and marks. -/
def markOneOf (texts : List String) : Reader Node := return .ofToken (← take (·.isOneOf texts))

/-- The directive of a token, without the number sign and blanks. -/
def directiveName (token : Token) : Option String :=
  if token.kind = .directive then
    some (String.ofList (token.text.toList.filter Char.isAlpha))
  else
    none

/-- Takes one of the given directives of conditional groups. -/
def directive (names : List String) : Reader Node :=
  return .ofToken (← take fun token => (directiveName token).any names.contains)

/-- Takes the end of the line of a directive, which the end of the document may stand for. -/
def lineEnd : Reader (List Node) := fun tokens position =>
  match tokens[position]? with
  | some token =>
    if token.kind = .lineEnd then some ([.ofToken token], position + 1) else none
  | none => some ([], position)

def name : Reader Node := do
  let token ← take (·.kind == .identifier)
  return .leaf (.identifier token.text) token.span

/-- Goes on only if the condition holds. -/
def check (condition : Bool) : Reader Unit := if condition then pure () else failure

/-- Reads a value if there is one. -/
def maybe {α : Type} (item : Reader α) : Reader (Option α) := some <$> item <|> pure none

/-- Reads a list of parts if there is one. -/
def maybeAll {α : Type} (items : Reader (List α)) : Reader (List α) := items <|> pure []

/-- The reading succeeds; no token is taken. -/
def holds {α : Type} (item : Reader α) : Reader Bool := fun tokens position =>
  some ((item tokens position).isSome, position)

/-- Reads as many values as there are, from a position on. -/
def manyFrom {α : Type} (item : Reader α) (tokens : Array Token) (position : Nat) : List α × Nat :=
  match item tokens position with
  | some (value, next) =>
    if position < next ∧ next ≤ tokens.size then
      let (following, stop) := manyFrom item tokens next
      (value :: following, stop)
    else
      ([], position)
  | none => ([], position)
termination_by tokens.size - position

/-- Reads as many values as there are. -/
def many {α : Type} (item : Reader α) : Reader (List α) := fun tokens position =>
  some (manyFrom item tokens position)

/-- Extends a value as often as it can be extended, from a position on. -/
def iterateFrom {α : Type} (extend : α → Reader α) (tokens : Array Token) (position : Nat)
    (value : α) : α × Nat :=
  match extend value tokens position with
  | some (extended, next) =>
    if position < next ∧ next ≤ tokens.size then
      iterateFrom extend tokens next extended
    else
      (value, position)
  | none => (value, position)
termination_by tokens.size - position

/-- Extends a value as often as it can be extended. -/
def iterate {α : Type} (extend : α → Reader α) (value : α) : Reader α := fun tokens position =>
  some (iterateFrom extend tokens position value)

/-- Reads one or more items and the separators between them. -/
def separated (separator : String) (item : Reader Node) : Reader (List Node) := do
  let first ← item
  let following ← many do
    let between ← mark separator
    let next ← item
    return [between, next]
  return first :: following.flatten

/-- Reads a separator behind the last item, if there is one. -/
def trailing (separator : String) : Reader (List Node) := do
  return (← maybe (mark separator)).toList

/-- Marks two or three tokens without a gap between them as one token. -/
def joined (texts : List String) : Reader Node := do
  let parts ← texts.mapM fun text => take (·.is text)
  -- marks with a gap between them stay separate
  check ((parts.zip (parts.drop 1)).all fun (left, right) => left.span.stop == right.span.start)
  let start := (parts.head?.map (·.span.start)).getD 0
  let stop := (parts.getLast?.map (·.span.stop)).getD 0
  return .leaf (.token (String.join texts)) ⟨start, stop⟩

/-- The number of tokens from an opening bracket to the one that closes it, both included. -/
def bracketLength (tokens : Array Token) (position : Nat) : Option Nat :=
  go (tokens.size - position) position 0
where
  go : Nat → Nat → Nat → Option Nat
    | 0, _, _ => none
    | left + 1, here, depth =>
      match tokens[here]? with
      | none => none
      | some token =>
        if token.isOneOf ["(", "[", "\x7b"] then go left (here + 1) (depth + 1)
        else if token.isOneOf [")", "]", "\x7d"] then
          if depth == 0 then none
          else if depth == 1 then some (here + 1 - position)
          else go left (here + 1) (depth - 1)
        else if depth == 0 then none
        else go left (here + 1) depth

/-- Takes everything from an opening bracket to the one that closes it. -/
def bracketed (form : Form) : Reader Node := fun tokens position =>
  (bracketLength tokens position).map fun length =>
    let inside := (tokens.toSubarray position (position + length)).toArray.toList
    (.branch form (inside.map .ofToken), position + length)

/-- The number of tokens of a part that fits no rule: up to and including the next semicolon or a
pair of braces, and up to a closing brace. -/
def brokenLength (tokens : Array Token) (position : Nat) : Nat :=
  go (tokens.size - position) position
where
  go : Nat → Nat → Nat
    | 0, here => here - position
    | left + 1, here =>
      match tokens[here]? with
      | none => here - position
      | some token =>
        if token.is ";" then here + 1 - position
        else if token.is "\x7d" then here - position
        else
          match if token.isOneOf ["(", "[", "\x7b"] then bracketLength tokens here else none with
          | some length =>
            if token.is "\x7b" then here + length - position
            else go left (here + length)
          | none => go left (here + 1)

/-- Takes a part that fits no rule; a closing brace is left to what it closes. -/
def broken : Reader Node := fun tokens position =>
  let length := brokenLength tokens position
  if length = 0 then none
  else
    let inside := (tokens.toSubarray position (position + length)).toArray.toList
    some (.branch .error (inside.map .ofToken), position + length)

/-- The token behind a pair of brackets that opens here. -/
def behindBrackets? : Reader (Option Token) := fun tokens position =>
  some ((bracketLength tokens position).bind fun length => tokens[position + length]?, position)

end Reader

end AssertionLint
