import AssertionLint.CSharp.Grammar.Expressions

/-!
# Statements

The grammar of statements. A declaration of locals wins over an expression where both fit. Inside
a block, a statement that fits no rule becomes an error that ends at its semicolon, and reading
goes on behind it.
-/

namespace AssertionLint

namespace Grammar

open Reader

/-- A group of items between conditional directives. -/
def conditionalGroup (rules : Rules) (item : Reader Node) : Reader Node := do
  let opening ← directive ["if"]
  let condition ← rules (.expression 0 .arrow)
  let ending ← lineEnd
  let items ← many item
  let branches ← many do
    let word ← directive ["elif"]
    let condition ← rules (.expression 0 .arrow)
    let ending ← lineEnd
    let items ← many item
    return .branch .group (word :: condition :: ending ++ items)
  let otherwise ← maybe do
    let word ← directive ["else"]
    let ending ← lineEnd
    let items ← many item
    return .branch .group (word :: ending ++ items)
  let closing ← directive ["endif"]
  let last ← lineEnd
  return .branch .group
    (opening :: condition :: ending ++ items ++ branches ++ otherwise.toList ++ closing :: last)

/-- The rest of a statement that was not understood. -/
def brokenPart : Reader Node := do
  check (!(← peek? 0).any fun token => token.kind = .directive)
  broken

/-- Statements in braces. -/
def block (rules : Rules) : Reader Node := do
  let opening ← mark "\x7b"
  let statements ← many (rules .statement <|> brokenPart)
  let closing ← mark "\x7d"
  return .branch .block (opening :: statements ++ [closing])

/-- A variable with its value. -/
def declarator (rules : Rules) : Reader Node := do
  let word ← name
  let size ← maybe (do
    check (← sees "[")
    bracketed .group)
  let value ← maybeAll (defaultValue rules)
  return .branch .declarator (word.withRole .name :: size.toList ++ value)

/-- Names for the parts of a value. -/
def deconstruction (rules : Rules) : Reader Node := do
  check (← sees "(")
  let names ← bracketed .group
  let value ← defaultValue rules
  return .branch .declarator (names :: value)

/-- A type and the variables that are declared with it. -/
def variableDeclaration (rules : Rules) : Reader Node := do
  -- the scanner takes `await` for a name, which would be a type here
  check (!(← sees "await"))
  let type ← rules .type
  let declarators ← (do
    check (type.word? == some "var")
    return [← deconstruction rules]) <|> separated "," (declarator rules)
  return .branch .variableDeclaration (type.withRole .type :: declarators)

/-- The words in front of a declaration of locals or of a local function. -/
def localModifier : Reader Node := do
  let token ← take (·.isOneOf ["const", "static", "async", "unsafe", "extern", "readonly"])
  -- in front of these `async` is a name
  check (token.text != "async" || !(← seesOneOf ["=", ".", "(", "=>", ";", ","]))
  return .leaf (.modifier token.text) token.span

def localDeclaration (rules : Rules) : Reader Node := do
  let waiting ← maybe (mark "await")
  let keyword ← maybe (mark "using")
  let modifiers ← many localModifier
  let declaration ← variableDeclaration rules
  let semicolon ← mark ";"
  return .branch .statement
    (waiting.toList ++ keyword.toList ++ modifiers ++ [declaration, semicolon])

def typeParameterList : Reader Node := do
  let opening ← mark "<"
  let parameters ← separated "," do
    let attributes ← many attributeList
    let variance ← maybe (markOneOf ["in", "out"])
    let word ← name
    return .branch .typeParameter (attributes ++ variance.toList ++ [word.withRole .name])
  let closing ← mark ">"
  return .branch .typeParameterList (opening :: parameters ++ [closing])

def typeConstraint (rules : Rules) : Reader Node :=
  (do
    let keyword ← markOneOf ["class", "struct", "default"]
    let question ← maybe (mark "?")
    return .branch .group (keyword :: question.toList)) <|> (do
    let keyword ← mark "new"
    let opening ← mark "("
    let closing ← mark ")"
    return .branch .group [keyword, opening, closing]) <|> rules .type

/-- The constraints on one type parameter. -/
def typeConstraints (rules : Rules) : Reader Node := do
  let keyword ← mark "where"
  let word ← name
  let colon ← mark ":"
  let constraints ← separated "," (typeConstraint rules)
  return .branch .group (keyword :: word :: colon :: constraints)

/-- An expression behind an arrow. -/
def arrowClause (rules : Rules) : Reader Node := do
  let arrow ← mark "=>"
  let value ← rules (.expression 0 .plain)
  return .branch .arrowClause [arrow, value]

/-- The body of a method or something like it, which may be missing. -/
def functionBody (rules : Rules) : Reader (List Node) :=
  (do
    let body ← block rules
    return [body.withRole .body]) <|> (do
    let clause ← arrowClause rules
    let semicolon ← mark ";"
    return [clause.withRole .body, semicolon]) <|> (do
    return [← mark ";"])

/-- Name, parameters, constraints and body of a method. -/
def methodRest (rules : Rules) : Reader (List Node) := do
  let word ← name
  let typeParameters ← maybe typeParameterList
  let parameters ← parameterList rules
  let constraints ← many (typeConstraints rules)
  let body ← functionBody rules
  return word.withRole .name :: typeParameters.toList ++ parameters.withRole .parameters ::
    constraints ++ body

/-- A function inside a body. -/
def localFunction (rules : Rules) : Reader Node := do
  let attributes ← many attributeList
  let modifiers ← many localModifier
  check (!(← sees "await"))
  let type ← rules .type
  let following ← methodRest rules
  return .branch .localFunction (attributes ++ modifiers ++ type.withRole .type :: following)

/-- An expression that may stand alone as a statement. -/
def standsAlone (node : Node) : Bool :=
  match node.form with
  | .invocation | .objectCreation | .prefixUnary | .parenthesized => true
  | .otherExpression name =>
    ["assignment_expression", "postfix_unary_expression", "await_expression"].contains name
  | _ => false

/-- A test against a type that is called like a method. -/
def calledTest (rules : Rules) : Reader Node := do
  let value ← rules (.expression (testLevel + 1) .plain)
  let word ← mark "is"
  let type ← testedType rules
  let arguments ← argumentList rules
  return .branch .invocation
    [.branch (.otherExpression "is_expression") [value, word, type], arguments]

/-- An expression as a statement. As neither a cast nor a test stands alone, a name in parentheses
in front of arguments is called, and so is a test against a name in front of arguments. -/
def expressionStatement (rules : Rules) : Reader Node :=
  let standing (expression : Reader Node) : Reader Node := do
    let value ← expression
    check (standsAlone value)
    let semicolon ← mark ";"
    return .branch .statement [value, semicolon]
  standing (rules (.expression 0 .plain)) <|> standing (do
    check (← sees "(")
    iterate (extendExpression rules 0 .plain) (← primaryOperand rules)) <|>
  standing (calledTest rules)

/-- An expression in parentheses. -/
def condition (rules : Rules) : Reader (List Node) := do
  let opening ← mark "("
  let value ← rules (.expression 0 .plain)
  let closing ← mark ")"
  return [opening, value, closing]

/-- A choice between two statements. -/
def ifStatement (rules : Rules) : Reader Node := do
  let keyword ← mark "if"
  let test ← condition rules
  let whenTrue ← rules .statement
  let otherwise ← maybeAll do
    let keyword ← mark "else"
    let whenFalse ← rules .statement
    return [keyword, whenFalse]
  return .branch .statement (keyword :: test ++ whenTrue :: otherwise)

/-- A statement behind a keyword and an expression in parentheses. -/
def guardedStatement (keyword : String) (rules : Rules) : Reader Node := do
  let word ← mark keyword
  let test ← condition rules
  let body ← rules .statement
  return .branch .statement (word :: test ++ [body])

/-- A loop that tests behind its body. -/
def doStatement (rules : Rules) : Reader Node := do
  let keyword ← mark "do"
  let body ← rules .statement
  let word ← mark "while"
  let test ← condition rules
  let semicolon ← mark ";"
  return .branch .statement (keyword :: body :: word :: test ++ [semicolon])

/-- A loop with an initializer, a test and a step. -/
def forStatement (rules : Rules) : Reader Node := do
  let keyword ← mark "for"
  let opening ← mark "("
  let expressions := maybeAll (separated "," (rules (.expression 0 .plain)))
  let start ← (do
    let declaration ← variableDeclaration rules
    -- otherwise it is an expression that starts like a declaration
    check (← sees ";")
    return [declaration]) <|> expressions
  let first ← mark ";"
  let test ← maybe (rules (.expression 0 .plain))
  let second ← mark ";"
  let step ← expressions
  let closing ← mark ")"
  let body ← rules .statement
  return .branch .forStatement
    (keyword :: opening :: start ++ first :: test.toList ++ second :: step ++ [closing, body])

/-- What a loop over a collection declares. -/
def loopVariable (rules : Rules) : Reader (List Node) :=
  (do
    let type ← rules .type
    let word ← name <|> (do
      check (← sees "(")
      bracketed .group)
    return [type.withRole .type, word.withRole .left]) <|> (do
    check (← sees "(")
    let names ← bracketed .group
    return [names.withRole .left])

/-- A loop over a collection. -/
def foreachStatement (rules : Rules) : Reader Node := do
  let waiting ← maybe (mark "await")
  let keyword ← mark "foreach"
  let opening ← mark "("
  let declared ← loopVariable rules
  let word ← mark "in"
  let collection ← rules (.expression 0 .plain)
  let closing ← mark ")"
  let body ← rules .statement
  return .branch .foreachStatement
    (waiting.toList ++ keyword :: opening :: declared ++
      [word, collection.withRole .right, closing, body.withRole .body])

/-- A statement with a resource or with pinned variables. -/
def resourceStatement (keyword : String) (form : Form) (rules : Rules) : Reader Node := do
  let waiting ← maybe (mark "await")
  let word ← mark keyword
  let opening ← mark "("
  let resource ← (do
    let declaration ← variableDeclaration rules
    check (← sees ")")
    return declaration) <|> rules (.expression 0 .plain)
  let closing ← mark ")"
  let body ← rules .statement
  return .branch form (waiting.toList ++ [word, opening, resource, closing, body])

/-- An expression that a value is compared with; what is in square brackets is a pattern. -/
def caseValue (rules : Rules) : Reader (List Node) := do
  check (!(← sees "[") && !(← startsOtherPattern rules))
  let value ← rules (.expression 0 .colon)
  check (← sees ":")
  return [value]

/-- A pattern with an optional condition. -/
def casePattern (rules : Rules) : Reader (List Node) := do
  let pattern ← rules .pattern
  let guard ← maybeAll do
    let word ← mark "when"
    let test ← rules (.expression 0 .colon)
    return [word, test]
  return pattern :: guard

/-- A label of a switch with the statements behind it. -/
def switchSection (rules : Rules) : Reader Node := do
  let label ← (do
    let keyword ← mark "case"
    let matched ← caseValue rules <|> casePattern rules
    return keyword :: matched) <|> (do
    return [← mark "default"])
  let colon ← mark ":"
  let statements ← many ((do
    -- the next label would otherwise be read as a broken statement
    check (!(← sees "case") && !((← sees "default") && (← seesAt 1 [":"])))
    rules .statement <|> brokenPart))
  return .branch .switchSection (label ++ colon :: statements)

/-- A choice between many sections. -/
def switchStatement (rules : Rules) : Reader Node := do
  let keyword ← mark "switch"
  let value ← condition rules <|> (do
    return [← rules (.expression unaryLevel .plain)])
  let opening ← mark "\x7b"
  let sections ← many (switchSection rules)
  let closing ← mark "\x7d"
  return .branch .statement (keyword :: value ++ opening :: sections ++ [closing])

/-- A handler of exceptions. -/
def catchClause (rules : Rules) : Reader Node := do
  let keyword ← mark "catch"
  let declaration ← maybeAll do
    let opening ← mark "("
    let type ← rules .type
    let word ← maybe name
    let closing ← mark ")"
    return opening :: type :: word.toList ++ [closing]
  let guard ← maybeAll do
    let word ← mark "when"
    let test ← condition rules
    return word :: test
  let body ← block rules
  return .branch .group (keyword :: declaration ++ guard ++ [body])

/-- A block with handlers. -/
def tryStatement (rules : Rules) : Reader Node := do
  let keyword ← mark "try"
  let body ← block rules
  let handlers ← many (catchClause rules)
  let cleanup ← maybe do
    let word ← mark "finally"
    let body ← block rules
    return .branch .group [word, body]
  return .branch .statement (keyword :: body :: handlers ++ cleanup.toList)

/-- A block behind a keyword. -/
def markedBlock (rules : Rules) : Reader Node := do
  let keyword ← markOneOf ["checked", "unchecked", "unsafe"]
  let body ← block rules
  return .branch .statement [keyword, body]

/-- A keyword, an expression that may be missing, and a semicolon. -/
def leavingStatement (rules : Rules) : Reader Node := do
  let words ← (do
    let first ← mark "yield"
    let second ← markOneOf ["return", "break"]
    return [first, second]) <|> (do
    return [← markOneOf ["return", "throw", "break", "continue"]])
  let value ← maybe (rules (.expression 0 .plain))
  let semicolon ← mark ";"
  return .branch .statement (words ++ value.toList ++ [semicolon])

/-- A jump to a label. -/
def gotoStatement (rules : Rules) : Reader Node := do
  let keyword ← mark "goto"
  let target ← (do
    return [← name]) <|> (do
    return [← mark "default"]) <|> (do
    let word ← mark "case"
    let value ← rules (.expression 0 .plain)
    return [word, value])
  let semicolon ← mark ";"
  return .branch .statement (keyword :: target ++ [semicolon])

/-- A statement with a label. -/
def labeledStatement (rules : Rules) : Reader Node := do
  let label ← name
  let colon ← mark ":"
  let body ← rules .statement
  return .branch .statement [label, colon, body]

def emptyStatement : Reader Node := do
  return .branch .statement [← mark ";"]

/-- The statements that start with a keyword. -/
def keywordStatement (rules : Rules) : Reader Node :=
  ifStatement rules <|> guardedStatement "while" rules <|> guardedStatement "lock" rules <|>
    doStatement rules <|> forStatement rules <|> foreachStatement rules <|>
    resourceStatement "using" .usingStatement rules <|>
    resourceStatement "fixed" .fixedStatement rules <|> switchStatement rules <|>
    tryStatement rules <|> markedBlock rules <|> gotoStatement rules

def statementRule (rules : Rules) : Reader Node :=
  -- where several of these fit, the first one counts
  block rules <|> emptyStatement <|>
    conditionalGroup rules (rules .statement <|> brokenPart) <|>
    keywordStatement rules <|> leavingStatement rules <|> labeledStatement rules <|>
    localDeclaration rules <|> localFunction rules <|> expressionStatement rules

end Grammar

end AssertionLint
