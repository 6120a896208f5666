import AssertionLint.CSharp.Grammar.Types

/-!
# Parameters and arguments

What methods, lambdas and calls share: attribute lists, parameters with their defaults, arguments
with their labels, and initializers in braces.
-/

namespace AssertionLint

namespace Grammar

open Reader

/-- Attributes in brackets; nothing is looked up in them. -/
def attributeList : Reader Node := do
  check (← sees "[")
  bracketed .attributeList

/-- The words in front of the type of a parameter. -/
def parameterModifier : Reader Node := do
  let token ← take (·.isOneOf ["this", "ref", "out", "in", "params", "readonly", "scoped"])
  check (token.text != "scoped" || (← sees "ref") || (← seesNameAt 1) || (← seesAt 1 ["<", "."]))
  return .leaf (.modifier token.text) token.span

def defaultValue (rules : Rules) : Reader (List Node) := do
  let equals ← mark "="
  let value ← rules (.expression 0 .plain)
  return [equals, value]

/-- A parameter; inside a lambda it may have no type. -/
def parameter (rules : Rules) : Reader Node := do
  let attributes ← many attributeList
  let modifiers ← many parameterModifier
  let typed ← (do
    let type ← rules .type
    let word ← name
    return [type.withRole .type, word.withRole .name]) <|> (do
    let word ← name
    return [word.withRole .name])
  let value ← maybeAll (defaultValue rules)
  return .branch .parameter (attributes ++ modifiers ++ typed ++ value)

/-- Parameters between brackets. -/
def parametersBetween (opening closing : String) (rules : Rules) : Reader Node := do
  let start ← mark opening
  let parameters ← maybeAll (separated "," (parameter rules))
  let stop ← mark closing
  return .branch .parameterList (start :: parameters ++ [stop])

/-- Parameters in parentheses. -/
def parameterList (rules : Rules) : Reader Node := parametersBetween "(" ")" rules

/-- The name that a declaration introduces where a clause may follow. -/
def designation : Reader Node := do
  check (!(← seesOneOf clauseWords) && !(← seesNamedClause))
  name

/-- A type and any name, as in an argument that declares a variable. -/
def declarationExpression (rules : Rules) : Reader Node := do
  check (!(← sees "await"))
  let type ← rules .type
  let word ← name
  return .branch (.otherExpression "declaration_expression")
    [type.withRole .type, word.withRole .name]

/-- The label in front of an argument. -/
def argumentLabel : Reader (List Node) := do
  let word ← name
  let colon ← mark ":"
  return [word.withRole .name, colon]

/-- An argument; a type with a name behind it wins over an expression if nothing else follows. -/
def argument (rules : Rules) : Reader Node := do
  let label ← maybeAll argumentLabel
  let modifier ← maybe (markOneOf ["ref", "out", "in"])
  let value ← (do
    let declared ← declarationExpression rules
    check (← seesOneOf [",", ")", "]"])
    return declared) <|> rules (.expression 0 .plain)
  return .branch .argument (label ++ modifier.toList ++ [value])

/-- Arguments in parentheses. -/
def argumentList (rules : Rules) : Reader Node := do
  let opening ← mark "("
  let arguments ← maybeAll (separated "," (argument rules))
  let closing ← mark ")"
  return .branch .argumentList (opening :: arguments ++ [closing])

/-- Arguments in square brackets. -/
def indexList (form : Form) (rules : Rules) : Reader Node := do
  let opening ← mark "["
  let arguments ← separated "," (argument rules)
  let closing ← mark "]"
  return .branch form (opening :: arguments ++ [closing])

/-- Expressions in braces; a comma may follow the last one. -/
def initializer (rules : Rules) : Reader Node := do
  let opening ← mark "\x7b"
  let elements ← maybeAll (separated "," (rules (.expression 0 .plain)))
  let comma ← trailing ","
  let closing ← mark "\x7d"
  return .branch .initializer (opening :: elements ++ comma ++ [closing])

end Grammar

end AssertionLint
