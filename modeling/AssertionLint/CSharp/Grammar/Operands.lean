import AssertionLint.CSharp.Grammar.Patterns

/-!
# Operands

The grammar of expressions without binary operators: literals, names, creations, lambdas, casts
and whatever may follow an operand directly. Parentheses are a cast if they hold nothing but a
type and an operand follows them.
-/

namespace AssertionLint

namespace Grammar

open Reader

/-- A literal that is one token. -/
def literalOperand : Reader Node := do
  let token ← take fun token =>
    match token.kind with
    | .literal _ => true
    | _ => token.isOneOf ["true", "false", "null"]
  match token.kind with
  | .literal kind => return .leaf (.literal kind token.text) token.span
  | _ =>
    let kind := if token.text == "null" then LiteralKind.null else .boolean
    return .leaf (.literal kind token.text) token.span

/-- A hole of an interpolated string. -/
def interpolationHole (rules : Rules) : Reader Node := do
  let opening ← take fun token => token.kind == .mark && token.text.startsWith "\x7b"
  let value ← rules (.expression 0 .plain)
  let alignment ← maybeAll do
    let comma ← mark ","
    let width ← rules (.expression 0 .plain)
    return [comma, width]
  let format ← maybe (take (·.kind == .interpolationText))
  let closing ← take fun token => token.kind == .mark && token.text.startsWith "\x7d"
  return .branch .group
    (.ofToken opening :: value :: alignment ++ (format.map Node.ofToken).toList ++
      [.ofToken closing])

def interpolatedString (rules : Rules) : Reader Node := do
  let start ← take (·.kind == .interpolationStart)
  let text : Reader Node := return .ofToken (← take (·.kind == .interpolationText))
  let parts ← many (interpolationHole rules <|> text)
  let stop ← take (·.kind == .interpolationEnd)
  return .branch .interpolatedString (.ofToken start :: parts ++ [.ofToken stop])

/-- The next token may follow a generic name in an expression: it starts no operand, or it is as
well an operator behind one. Anything else makes the angle brackets comparisons. -/
def seesGenericNameEnd : Reader Bool := do
  match ← peek? 0 with
  | none => return true
  | some token =>
    if token.isOneOf ["++", "--", "!"] then
      return !(← peek? 1).any startsOperand
    else
      return token.isOneOf ["(", "[", "&", "^", "+", "-", "*", ".."] || !startsOperand token

/-- A name with optional type arguments in an expression. -/
def simpleName (rules : Rules) : Reader Node := do
  let word ← name
  (do
    let arguments ← typeArguments rules
    check (← seesGenericNameEnd)
    return .branch .genericName [word, arguments]) <|> pure word

/-- A name, a name behind an alias, or a built-in type in front of a dot. -/
def nameOperand (rules : Rules) : Reader Node :=
  (do
    let type ← keywordType
    check (← sees ".")
    return type) <|> (do
    let aliasName ← name
    let colons ← mark "::"
    let member ← simpleName rules
    return .branch .aliasQualifiedName [aliasName, colons, member]) <|> (do
    check (!(← peek? 0).any (·.isTypeKeyword))
    simpleName rules)

/-- A keyword with one type in parentheses. -/
def typeOperator (keyword : String) (form : Form) (rules : Rules) : Reader Node := do
  let word ← mark keyword
  let opening ← mark "("
  let type ← rules .type
  let closing ← mark ")"
  return .branch form [word, opening, type, closing]

/-- A keyword with one expression in parentheses. -/
def valueOperator (keyword name : String) (rules : Rules) : Reader Node := do
  let word ← mark keyword
  let opening ← mark "("
  let value ← rules (.expression 0 .plain)
  let closing ← mark ")"
  return .branch (.otherExpression name) [word, opening, value, closing]

/-- The value behind a typed reference, read as a type. -/
def referenceValue (rules : Rules) : Reader Node := do
  let word ← mark "__refvalue"
  let opening ← mark "("
  let value ← rules (.expression 0 .plain)
  let comma ← mark ","
  let type ← rules .type
  let closing ← mark ")"
  return .branch (.otherExpression "refvalue_expression")
    [word, opening, value, comma, type, closing]

def defaultLiteral : Reader Node := do
  let token ← take (·.is "default")
  return .leaf (.literal .default token.text) token.span

/-- The operands that start with a keyword of their own. -/
def keywordOperand (rules : Rules) : Reader Node :=
  typeOperator "typeof" .typeOf rules <|>
  typeOperator "sizeof" (.otherExpression "sizeof_expression") rules <|>
  typeOperator "default" (.otherExpression "default_expression") rules <|>
  defaultLiteral <|>
  valueOperator "checked" "checked_expression" rules <|>
  valueOperator "unchecked" "checked_expression" rules <|>
  valueOperator "__makeref" "makeref_expression" rules <|>
  valueOperator "__reftype" "reftype_expression" rules <|>
  referenceValue rules <|>
  markOneOf ["this", "base"]

/-- The array type of an array creation. -/
def createdArrayType (rules : Rules) : Reader Node := do
  let element ← createdType rules
  iterate arraySuffix (← sizedSuffix rules element)

/-- A member of an anonymous object. -/
def anonymousMember (rules : Rules) : Reader (List Node) := do
  let label ← maybeAll do
    let word ← name
    let equals ← mark "="
    return [word, equals]
  let value ← rules (.expression 0 .plain)
  return label ++ [value]

/-- A member that is set in braces. -/
def memberInitializers (rules : Rules) : Reader (List Node) := do
  let opening ← mark "\x7b"
  let first ← maybeAll (anonymousMember rules)
  let following ← many do
    let comma ← mark ","
    let next ← anonymousMember rules
    return comma :: next
  let comma ← trailing ","
  let closing ← mark "\x7d"
  return opening :: first ++ following.flatten ++ comma ++ [closing]

/-- What `new` creates. -/
def creation (rules : Rules) : Reader Node := do
  let keyword ← mark "new"
  (do
    let opening ← mark "["
    let commas ← many (mark ",")
    let closing ← mark "]"
    let elements ← initializer rules
    return .branch .implicitArrayCreation
      (keyword :: opening :: commas ++ [closing, elements])) <|> (do
    let members ← memberInitializers rules
    return .branch (.otherExpression "anonymous_object_creation_expression")
      (keyword :: members)) <|> (do
    let type ← createdArrayType rules
    let elements ← maybe (initializer rules)
    return .branch .arrayCreation (keyword :: type :: elements.toList)) <|> (do
    -- what stands in parentheses here are arguments, as a tuple type cannot be created
    check (!(← sees "("))
    let type ← createdType rules
    let arguments ← maybe (argumentList rules)
    let members ← maybe (initializer rules)
    return .branch .objectCreation
      (keyword :: type.withRole .type :: arguments.toList ++ members.toList)) <|> (do
    let arguments ← argumentList rules
    let members ← maybe (initializer rules)
    return .branch (.otherExpression "implicit_object_creation_expression")
      (keyword :: arguments :: members.toList))

/-- An array on the stack. -/
def stackAllocation (rules : Rules) : Reader Node := do
  let keyword ← mark "stackalloc"
  (do
    let opening ← mark "["
    let closing ← mark "]"
    let elements ← initializer rules
    return .branch (.otherExpression "implicit_stackalloc_expression")
      [keyword, opening, closing, elements]) <|> (do
    let type ← createdArrayType rules
    let elements ← maybe (initializer rules)
    return .branch (.otherExpression "stackalloc_expression")
      (keyword :: type :: elements.toList))

def lambdaBody (rules : Rules) (ending : Ending) : Reader Node := do
  if ← sees "\x7b" then return (← rules .statement).withRole .body
  else return (← rules (.expression 0 ending)).withRole .body

/-- The parameters of a lambda in front of its arrow. -/
def lambdaParameters (rules : Rules) : Reader Node := do
  if ← sees "(" then
    check ((← behindBrackets?).any (·.is "=>"))
    parameterList rules
  else
    check (← seesAt 1 ["=>"])
    name

/-- A type in front of the parameters of a lambda. -/
def lambdaType (rules : Rules) : Reader Node := do
  let type ← rules .type
  check ((← sees "(") || (← seesNameAt 0))
  return type.withRole .type

/-- A lambda. In front of a colon, a question mark behind a name starts a conditional expression and
is no part of the type of a lambda. -/
def lambda (rules : Rules) (ending : Ending) : Reader Node := do
  let attributes ← many attributeList
  let modifiers ← many do
    check ((← seesTypeAt 1) || (← seesAt 1 ["(", "static", "async"]))
    markOneOf ["async", "static"]
  let leading := attributes ++ modifiers
  (do
    let parameters ← lambdaParameters rules
    let arrow ← mark "=>"
    let body ← lambdaBody rules ending
    return .branch .lambda (leading ++ [parameters.withRole .parameters, arrow, body])) <|> (do
    let type ← lambdaType rules
    let parameters ← lambdaParameters rules
    let arrow ← mark "=>"
    let body ← lambdaBody rules ending
    check (type.form != .nullableType || !(← sees ":"))
    return .branch .lambda (leading ++ [type, parameters.withRole .parameters, arrow, body]))

def anonymousMethod (rules : Rules) : Reader Node := do
  let modifiers ← many do
    check (← seesAt 1 ["delegate", "static", "async"])
    markOneOf ["async", "static"]
  let keyword ← mark "delegate"
  let parameters ← maybe (parameterList rules)
  check (← sees "\x7b")
  let body ← rules .statement
  return .branch .lambda
    (modifiers ++ keyword :: (parameters.map (·.withRole .parameters)).toList ++
      [body.withRole .body])

/-- An expression that can be assigned to. -/
def isAssignable (node : Node) : Bool :=
  match node.form with
  | .identifier _ | .genericName | .memberAccess => true
  | .token text => text == "this"
  | .parenthesized => node.children.attach.any fun ⟨child, _⟩ => isAssignable child
  | .prefixUnary => node.children.head?.any (·.isToken "*")
  | .otherExpression name =>
    ["tuple_expression", "element_access_expression", "element_binding_expression",
      "member_access_expression"].contains name
  | _ => false
termination_by sizeOf node
decreasing_by exact Node.sizeOf_lt_of_mem_children ‹_›

/-- The token behind a pair of parentheses can make them a cast. Two marks `&` in a row are read one
by one here, and some of the words that join clauses can be names. -/
def startsCastValue (token : Token) : Bool :=
  startsOperand token ||
    token.isOneOf ["&&", "static", "ascending", "descending", "where", "orderby"]

/-- The next word starts a clause, and no value of a cast: `where` and `orderby` are names only if
they are called, and the key of a group does not follow a name. -/
def seesClause : Reader Bool := do
  let called (endings : List String) : Reader Bool := holds do
    let word ← name
    check (← sees "(")
    check (!(← behindBrackets?).any fun token =>
      token.isOneOf endings || (startsOperand token && token.kind != .mark))
    return word
  if ← seesOneOf ["where", "orderby"] then
    return !(← called [",", "ascending", "descending"])
  else if (← sees "group") && (← seesAt 1 ["("]) then
    return !(← called ["by"])
  else
    seesNamedClause

/-- A cast. Behind a star, which may also multiply, the value has to end where another operator or
the end of the expression stands. -/
def castOperand (rules : Rules) (ending : Ending) : Reader Node := do
  check ((← sees "(") && (← behindBrackets?).any startsCastValue)
  let opening ← mark "("
  let type ← castType rules
  let closing ← mark ")"
  check (!(← seesClause))
  let starred ← sees "*"
  let value ← rules (.expression unaryLevel ending)
  check (!starred || !(← peek? 0).any fun token => startsOperand token && token.kind != .mark)
  return .branch .cast [opening, type.withRole .type, closing, value.withRole .value]

/-- The first element of a tuple, or the expression in a pair of parentheses. -/
def firstElement (rules : Rules) : Reader Node :=
  (do
    let label ← argumentLabel
    let value ← rules (.expression 0 .plain)
    return .branch .argument (label ++ [value])) <|> (do
    let declared ← declarationExpression rules
    check (← sees ",")
    return declared) <|> rules (.expression 0 .plain)

/-- An expression in parentheses or a tuple. -/
def parenthesizedOperand (rules : Rules) : Reader Node := do
  let opening ← mark "("
  let first ← firstElement rules
  let following ← many do
    let comma ← mark ","
    let element ← argument rules
    return [comma, element]
  let closing ← mark ")"
  if following.isEmpty then
    check (first.form != .argument)
    return .branch .parenthesized [opening, first, closing]
  else
    let first := if first.form == .argument then first else .branch .argument [first]
    return .branch (.otherExpression "tuple_expression")
      (opening :: first :: following.flatten ++ [closing])

/-- Two marks `&` without a gap between them in front of an operand. -/
def doubledReference : Reader (Node × Node) := do
  let token ← take (·.is "&&")
  let between := token.span.start + 1
  return (.leaf (.token "&") ⟨token.span.start, between⟩,
    .leaf (.token "&") ⟨between, token.span.stop⟩)

/-- An operator in front of an operand. -/
def unaryOperand (rules : Rules) (ending : Ending) : Reader Node :=
  (do
    let operator ← markOneOf ["+", "-", "!", "~", "++", "--", "&", "^"]
    let operand ← rules (.expression unaryLevel ending)
    return .branch .prefixUnary [operator, operand]) <|> (do
    let (outer, inner) ← doubledReference
    let operand ← rules (.expression unaryLevel ending)
    return .branch .prefixUnary [outer, .branch .prefixUnary [inner, operand]])

/-- The operators that are words in front of an expression. -/
def wordOperand (rules : Rules) (ending : Ending) : Reader Node :=
  (do
    let word ← mark "throw"
    let value ← rules (.expression 0 ending)
    return .branch (.otherExpression "throw_expression") [word, value]) <|> (do
    let word ← mark "ref"
    let value ← rules (.expression 0 ending)
    return .branch (.otherExpression "ref_expression") [word, value]) <|> (do
    let word ← mark "await"
    check ((← peek? 0).any fun token =>
      startsOperand token && (token.kind != .mark || token.is "("))
    let value ← rules (.expression unaryLevel ending)
    return .branch (.otherExpression "await_expression") [word, value])

/-- A range without a start. -/
def openRange (rules : Rules) (ending : Ending) : Reader Node := do
  let dots ← mark ".."
  let stop ← maybe (rules (.expression rangeLevel ending))
  return .branch (.otherExpression "range_expression") (dots :: stop.toList)

/-- What follows an operand directly. -/
def extendOperand (rules : Rules) (operand : Node) : Reader Node :=
  (do
    let dot ← mark "."
    let member ← simpleName rules
    return .branch .memberAccess [operand, dot, member]) <|> (do
    let arguments ← argumentList rules
    return .branch .invocation [operand, arguments]) <|> (do
    let index ← indexList .group rules
    return .branch (.otherExpression "element_access_expression") [operand, index]) <|> (do
    let operator ← markOneOf ["++", "--", "!"]
    return .branch (.otherExpression "postfix_unary_expression") [operand, operator]) <|> (do
    let arrow ← mark "->"
    let member ← simpleName rules
    return .branch (.otherExpression "member_access_expression") [operand, arrow, member])

/-- Any number of stars in front of a pointer: a name, a value in parentheses or an element. -/
def pointedOperand (rules : Rules) : Reader Node := do
  let star ← mark "*"
  let following ← many (mark "*")
  let pointer ← parenthesizedOperand rules <|> mark "this" <|>
    indexList (.otherExpression "element_binding_expression") rules <|> simpleName rules
  check (isAssignable pointer)
  return (star :: following).foldr
    (fun operator operand => .branch .prefixUnary [operator, operand]) pointer

/-- An operand that others may follow directly. -/
def primaryOperand (rules : Rules) : Reader Node := do
  let primary ← literalOperand <|> interpolatedString rules <|> creation rules <|>
    stackAllocation rules <|> keywordOperand rules <|> parenthesizedOperand rules <|>
    initializer rules <|> indexList (.otherExpression "element_binding_expression") rules <|>
    nameOperand rules <|> pointedOperand rules
  iterate (extendOperand rules) primary

end Grammar

end AssertionLint
