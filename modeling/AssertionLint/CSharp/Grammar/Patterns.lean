import AssertionLint.CSharp.Grammar.Levels
import AssertionLint.CSharp.Grammar.Parameters

/-!
# Patterns

The grammar of patterns. A constant takes in as many binary operators as follow it, and where a
pattern may be read both as a constant and in another way, it is a constant. A pattern that is a
constant is the node of its expression and a pattern that is a type, and could not be an
expression, is the node of this type; any other pattern is a group.
-/

namespace AssertionLint

namespace Grammar

open Reader

/-- An expression of this form can be a pattern. -/
def isConstant (node : Node) : Bool :=
  match node.form with
  | .identifier _ | .genericName | .literal .. | .interpolatedString | .parenthesized
  | .memberAccess | .invocation | .binary | .prefixUnary | .cast | .typeOf => true
  | .otherExpression name =>
    ["default_expression", "member_access_expression", "postfix_unary_expression",
      "sizeof_expression", "tuple_expression"].contains name
  | _ => false

/-- The pattern is a type that could not be an expression. -/
def isTypePattern (node : Node) : Bool :=
  match node.form with
  | .predefinedType _ | .arrayType | .nullableType | .otherType => true
  | _ => false

/-- A name for the matched value, or names for its parts. -/
def patternNames : Reader Node :=
  designation <|> (do
    check (← sees "(")
    bracketed .group)

/-- A member, or a member of a member, in front of a pattern for it. -/
def memberPath : Reader (List Node) := do
  let root ← name
  let path ← iterate (fun target => do
    let dot ← mark "."
    let member ← name
    return .branch .memberAccess [target, dot, member]) root
  let colon ← mark ":"
  return [path, colon]

/-- A pattern for a part of a value, with an optional label. -/
def subpattern (rules : Rules) : Reader Node := do
  let label ← maybeAll memberPath
  let pattern ← rules .pattern
  return .branch .group (label ++ [pattern])

/-- Patterns for properties in braces. -/
def propertyClause (rules : Rules) : Reader Node := do
  let opening ← mark "\x7b"
  let patterns ← maybeAll (separated "," (subpattern rules))
  let comma ← trailing ","
  let closing ← mark "\x7d"
  return .branch .group (opening :: patterns ++ comma ++ [closing])

/-- Patterns for positions in parentheses; a single one may just be in parentheses. -/
def positionalClause (rules : Rules) : Reader Node := do
  let opening ← mark "("
  let patterns ← maybeAll (separated "," (subpattern rules))
  let closing ← mark ")"
  return .branch .group (opening :: patterns ++ [closing])

/-- Patterns for the elements of a list. -/
def listPattern (rules : Rules) : Reader Node := do
  let opening ← mark "["
  let patterns ← maybeAll (separated "," (rules .pattern))
  let comma ← trailing ","
  let closing ← mark "]"
  return .branch .group (opening :: patterns ++ comma ++ [closing])

/-- Patterns for positions, patterns for properties, or both. -/
def partPatterns (rules : Rules) : Reader (List Node) := do
  let positions ← maybe (positionalClause rules)
  let properties ← maybe (propertyClause rules)
  check (positions.isSome || properties.isSome)
  return positions.toList ++ properties.toList

/-- What may follow a type in a pattern: patterns for parts, a name, or both. -/
def typedPatternRest (rules : Rules) : Reader (List Node) := do
  let parts ← maybeAll (partPatterns rules)
  let word ← maybe designation
  check (!parts.isEmpty || word.isSome)
  return parts ++ word.toList

/-- The operators that take a type on their left as part of a test, but no constant. -/
def testFollowers : List String := ["switch", "with", "is", "as", ".."]

/-- A pattern that starts with a type or is one. -/
def typedPattern (rules : Rules) : Reader Node := do
  let type ← testedType rules
  (do
    let following ← typedPatternRest rules
    return .branch .group (type :: following)) <|> (do
    check (isTypePattern type && !(← sees "."))
    return type) <|> (do
    check (← seesOneOf testFollowers)
    return .branch .otherType [type])

/-- A pattern that compares with a bound. -/
def relationalPattern (rules : Rules) : Reader Node := do
  let operator ← joined [">", "="] <|> markOneOf ["<", "<=", ">"]
  let bound ← rules (.expression 0 .arrow)
  return .branch .group [operator, bound]

/-- A pattern that only gives names. -/
def varPattern : Reader Node := do
  let word ← mark "var"
  let names ← patternNames
  return .branch .group [word, names]

/-- The rest of a list. -/
def slicePattern (rules : Rules) : Reader Node := do
  let dots ← mark ".."
  let pattern ← maybe (rules .pattern)
  return .branch .group (dots :: pattern.toList)

/-- A pattern in parentheses or for the parts of a value without a type; array brackets behind it
would make it a type. -/
def untypedPattern (rules : Rules) : Reader Node := do
  let parts ← partPatterns rules
  check (!(← sees "["))
  let word ← maybe designation
  return .branch .group (parts ++ word.toList)

/-- The words and the mark that only start patterns. -/
def patternWords : List String := ["_", "var", "not", "\x7b"]

/-- A pattern starts here that is no constant, although it might be read as one: it starts with a
word of patterns or with patterns for parts, the first of which discards or names its value, or a
name stands behind type arguments. -/
def startsOtherPattern (rules : Rules) : Reader Bool := holds do
  let openings ← many do
    check (!(← seesOneOf patternWords))
    let type ← maybe (typeName rules)
    let opening ← markOneOf ["(", "["]
    return type.toList ++ [opening]
  markOneOf patternWords <|> (do
    check !openings.isEmpty
    let declared ← declarationExpression rules
    check (← seesOneOf [",", "]"])
    return declared) <|> (do
    check openings.isEmpty
    let type ← name
    let arguments ← typeArguments rules
    let word ← designation
    return .branch .group [type, arguments, word])

/-- What follows a value makes it the type of a pattern. -/
def seesTypedPatternRest (value : Node) : Reader Bool := do
  if ← sees "?" then
    match value.form with
    | .identifier _ | .genericName | .memberAccess =>
      return !(← peek? 1).any fun token => startsOperand token || token.is "."
    | _ => return false
  else
    return !(← seesNamedClause) &&
      (← peek? 0).any fun token => startsOperand token || token.isOneOf ["\x7b", "<"]

/-- A constant with all binary operators that follow it. -/
def constantPattern (rules : Rules) : Reader Node := do
  check (!(← startsOtherPattern rules))
  let value ← rules (.expression binaryFloor .arrow)
  check (isConstant value && !(← seesTypedPatternRest value))
  return value

/-- A constant in front of an operator that no constant takes in. -/
def shortConstantPattern (rules : Rules) : Reader Node :=
  (do
    let value ← rules (.expression (testLevel + 1) .arrow)
    check (isConstant value)
    return value) <|> rules (.expression unaryLevel .arrow)

/-- A pattern without `and`, `or` and `not`. -/
def primaryPattern (rules : Rules) : Reader Node :=
  varPattern <|> relationalPattern rules <|> constantPattern rules <|> untypedPattern rules <|>
    typedPattern rules <|> listPattern rules <|> slicePattern rules <|>
    shortConstantPattern rules

/-- A pattern behind any number of `not`. -/
def negatedPattern (rules : Rules) : Reader Node := do
  let words ← many (mark "not")
  let pattern ← primaryPattern rules
  if words.isEmpty then return pattern else return .branch .group (words ++ [pattern])

/-- Patterns joined by a word. -/
def joinedPatterns (word : String) (item : Reader Node) : Reader Node := do
  let first ← item
  iterate (fun left => do
    let between ← mark word
    let right ← item
    return .branch .group [left, between, right]) first

def patternRule (rules : Rules) : Reader Node :=
  joinedPatterns "or" (joinedPatterns "and" (negatedPattern rules))

end Grammar

end AssertionLint
