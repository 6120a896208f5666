import AssertionLint.CSharp.Grammar.Operands

/-!
# Expressions

The grammar of expressions: an operand and whatever operators behind it extend it, as far as their
levels allow.
-/

namespace AssertionLint

namespace Grammar

open Reader

def assignmentOperators : List String :=
  ["=", "+=", "-=", "*=", "/=", "%=", "&=", "^=", "|=", "<<=", "??="]

def assignmentOperator : Reader Node :=
  joined [">", ">", ">", "="] <|> joined [">", ">", "="] <|> markOneOf assignmentOperators

/-- A binary operator with its level and grouping. -/
def binaryOperator : Reader (Node × Nat × Grouping) := do
  -- the scanner leaves closing angle brackets apart, so that they can close type arguments
  let operator ← joined [">", ">", ">"] <|> joined [">", ">"] <|> joined [">", "="] <|> (do
    let token ← take (·.kind == .mark)
    return .ofToken token)
  match operator.tokenText?.bind binaryLevel? with
  | some (level, grouping) => return (operator, level, grouping)
  | none => failure

def assignmentRest (rules : Rules) (floor : Nat) (ending : Ending) (target : Node) :
    Reader Node := do
  check (floor ≤ assignmentLevel && isAssignable target)
  let operator ← assignmentOperator
  let value ← rules (.expression 0 ending)
  return .branch (.otherExpression "assignment_expression") [target, operator, value]

/-- A binary operator and its right side. -/
def binaryRest (rules : Rules) (floor : Nat) (ending : Ending) (left : Node) : Reader Node := do
  let (operator, level, grouping) ← binaryOperator
  check (floor ≤ level)
  -- one level up on the right makes operators of one level group to the left
  let right ← rules (.expression (if grouping = .left then level + 1 else level) ending)
  return .branch .binary [left, operator, right]

/-- A test against a pattern. -/
def testRest (rules : Rules) (floor : Nat) (value : Node) : Reader Node := do
  check (floor ≤ testLevel)
  let word ← mark "is"
  let pattern ← rules .pattern
  let form := if isTypePattern pattern then "is_expression" else "is_pattern_expression"
  return .branch (.otherExpression form) [value, word, pattern]

/-- A conversion to a type; what follows an operand directly may follow it as well. -/
def typeConversionRest (rules : Rules) (floor : Nat) (value : Node) : Reader Node := do
  check (floor ≤ testLevel)
  let word ← mark "as"
  let type ← testedType rules
  iterate (extendOperand rules) (.branch (.otherExpression "as_expression") [value, word, type])

/-- A choice between two expressions. -/
def conditionalRest (rules : Rules) (floor : Nat) (ending : Ending) (condition : Node) :
    Reader Node := do
  check (floor ≤ conditionalLevel)
  let question ← mark "?"
  let whenTrue ← rules (.expression 0 .colon)
  let colon ← mark ":"
  let whenFalse ← rules (.expression conditionalLevel ending)
  return .branch .conditional [condition, question, whenTrue, colon, whenFalse]

/-- An access to a member or an element of a value that may be null. Where no colon ends the
expression, brackets in front of a colon belong to a choice between two expressions instead. -/
def conditionalAccessRest (rules : Rules) (floor : Nat) (ending : Ending) (value : Node) :
    Reader Node := do
  check (floor ≤ conditionalLevel)
  let question ← mark "?"
  let binding ← (do
    let dot ← mark "."
    let member ← simpleName rules
    return .branch (.otherExpression "member_binding_expression") [dot, member]) <|> (do
    check (ending == .colon || !(← behindBrackets?).any (·.is ":"))
    indexList (.otherExpression "element_binding_expression") rules)
  iterate (extendOperand rules)
    (.branch (.otherExpression "conditional_access_expression") [value, question, binding])

def switchArm (rules : Rules) : Reader Node := do
  let pattern ← rules .pattern
  let guard ← maybeAll do
    let word ← mark "when"
    let condition ← rules (.expression 0 .arrow)
    return [word, condition]
  let arrow ← mark "=>"
  let value ← rules (.expression 0 .plain)
  return .branch .group (pattern :: guard ++ [arrow, value])

/-- A choice by patterns. -/
def switchRest (rules : Rules) (floor : Nat) (value : Node) : Reader Node := do
  check (floor ≤ switchLevel)
  let word ← mark "switch"
  let opening ← mark "\x7b"
  let arms ← maybeAll (separated "," (switchArm rules))
  let comma ← trailing ","
  let closing ← mark "\x7d"
  return .branch (.otherExpression "switch_expression")
    (value :: word :: opening :: arms ++ comma ++ [closing])

/-- A copy with other members. -/
def withRest (rules : Rules) (floor : Nat) (value : Node) : Reader Node := do
  check (floor ≤ withLevel)
  let word ← mark "with"
  let members ← memberInitializers rules
  return .branch (.otherExpression "with_expression") [value, word, .branch .group members]

/-- A range behind its start. -/
def rangeRest (rules : Rules) (floor : Nat) (ending : Ending) (start : Node) : Reader Node := do
  check (floor ≤ rangeLevel)
  let dots ← mark ".."
  let stop ← maybe (rules (.expression rangeLevel ending))
  return .branch (.otherExpression "range_expression") (start :: dots :: stop.toList)

/-- An operator that extends an expression to its left. -/
def extendExpression (rules : Rules) (floor : Nat) (ending : Ending) (left : Node) : Reader Node :=
  assignmentRest rules floor ending left <|> conditionalAccessRest rules floor ending left <|>
    conditionalRest rules floor ending left <|> testRest rules floor left <|>
    typeConversionRest rules floor left <|> switchRest rules floor left <|>
    withRest rules floor left <|> rangeRest rules floor ending left <|>
    binaryRest rules floor ending left

/-- A variable of a query with an optional type. -/
def queryVariable (rules : Rules) : Reader (List Node) :=
  (do
    let word ← name
    check (← sees "in")
    return [word]) <|> (do
    let type ← rules .type
    let word ← name
    check (← sees "in")
    return [type, word])

/-- The expression behind a word. -/
def wordAndValue (word : String) (rules : Rules) : Reader (List Node) := do
  let keyword ← mark word
  let value ← rules (.expression 0 .plain)
  return [keyword, value]

/-- The clause that opens a query. -/
def fromClause (rules : Rules) : Reader Node := do
  let keyword ← mark "from"
  let bound ← queryVariable rules
  let source ← wordAndValue "in" rules
  return .branch .group (keyword :: bound ++ source)

/-- A key of an ordering. -/
def orderingKey (rules : Rules) : Reader Node := do
  let key ← rules (.expression 0 .plain)
  let direction ← maybe (markOneOf ["ascending", "descending"])
  return .branch .group (key :: direction.toList)

/-- A clause that names the result of the clauses in front of it. -/
def continuation : Reader (List Node) := do
  let word ← mark "into"
  let bound ← name
  return [word, bound]

/-- A clause of a query behind the first one. -/
def queryClause (rules : Rules) : Reader Node :=
  fromClause rules <|> (do
    let keyword ← mark "let"
    let word ← name
    let value ← wordAndValue "=" rules
    return .branch .group (keyword :: word :: value)) <|> (do
    return .branch .group (← wordAndValue "where" rules)) <|> (do
    let keyword ← mark "join"
    let bound ← queryVariable rules
    let source ← wordAndValue "in" rules
    let left ← wordAndValue "on" rules
    let right ← wordAndValue "equals" rules
    let target ← maybeAll continuation
    return .branch .group (keyword :: bound ++ source ++ left ++ right ++ target)) <|> (do
    let keyword ← mark "orderby"
    let keys ← separated "," (orderingKey rules)
    return .branch .group (keyword :: keys)) <|> (do
    return .branch .group (← wordAndValue "select" rules)) <|> (do
    let source ← wordAndValue "group" rules
    let key ← wordAndValue "by" rules
    return .branch .group (source ++ key)) <|> (do
    return .branch .group (← continuation))

def query (rules : Rules) : Reader Node := do
  let first ← fromClause rules
  let following ← many (queryClause rules)
  check !following.isEmpty
  return .branch (.otherExpression "query_expression") (first :: following)

/-- An operand with the operators in front of it. -/
def operand (rules : Rules) (ending : Ending) : Reader Node :=
  (do
    check (ending != .arrow)
    lambda rules ending) <|> anonymousMethod rules <|> query rules <|> wordOperand rules ending <|>
    unaryOperand rules ending <|> openRange rules ending <|> castOperand rules ending <|>
    primaryOperand rules

/-- An expression that takes only operators at or above a level. -/
def expressionRule (rules : Rules) (floor : Nat) (ending : Ending) : Reader Node := do
  let first ← operand rules ending
  iterate (extendExpression rules floor ending) first

end Grammar

end AssertionLint
