import AssertionLint.CSharp.Grammar.Basic

/-!
# Types and names

The grammar of types. A type is a name, a keyword, a tuple, a reference or a function pointer with
any number of suffixes for nullable types, pointers and arrays behind it. Where a question mark
behind a type may as well start a conditional expression, it belongs to the type only if no
operand follows. Array brackets may hold lengths where the type of a declaration is not asked for.
-/

namespace AssertionLint

namespace Grammar

open Reader

/-- The words that join or end clauses, and so never start an operand behind another one. -/
def clauseWords : List String :=
  ["and", "or", "when", "with", "where", "select", "orderby", "join", "let", "into", "on", "equals",
    "by", "ascending", "descending"]

/-- The keywords that an operand can start with. -/
def operandKeywords : List String :=
  ["base", "checked", "default", "delegate", "false", "new", "null", "ref", "sizeof", "stackalloc",
    "this", "throw", "true", "typeof", "unchecked"] ++ Token.typeKeywords

/-- The marks that an operand can start with. -/
def operandMarks : List String := ["(", "[", "!", "~", "+", "-", "++", "--", "*", "&", "^", ".."]

/-- An operand can start with the token. -/
def startsOperand (token : Token) : Bool :=
  match token.kind with
  | .identifier => !clauseWords.contains token.text
  | .keyword => operandKeywords.contains token.text
  | .mark => operandMarks.contains token.text
  | .literal _ | .interpolationStart => true
  | _ => false

/-- A clause of a query starts here with a word that may as well be a name: what stands behind the
word cannot follow a name. -/
def seesNamedClause : Reader Bool := do
  return (← seesOneOf ["from", "group"]) &&
    (← peek? 1).any fun token => startsOperand token && token.kind != .mark

/-- The list of type arguments of a name; it may be left open. -/
def typeArguments (rules : Rules) : Reader Node := do
  let opening ← mark "<"
  let filled := separated "," (rules .type)
  let arguments ← (do
    let arguments ← filled
    let closing ← mark ">"
    return arguments ++ [closing]) <|> (do
    -- left open, as in `typeof(List<>)`
    let commas ← many (mark ",")
    let closing ← mark ">"
    return commas ++ [closing])
  return .branch .typeArgumentList (opening :: arguments)

/-- A name with optional type arguments in a type. -/
def simpleTypeName (rules : Rules) : Reader Node := do
  let word ← name
  match ← maybe (typeArguments rules) with
  | some arguments => return .branch .genericName [word, arguments]
  | none => return word

/-- A name behind an alias or a simple name. -/
def rootTypeName (rules : Rules) : Reader Node := do
  if ← seesAt 1 ["::"] then
    let aliasName ← name
    let colons ← mark "::"
    let member ← simpleTypeName rules
    return .branch .aliasQualifiedName [aliasName, colons, member]
  else
    simpleTypeName rules

/-- A dotted name in a type. -/
def typeName (rules : Rules) : Reader Node := do
  let root ← rootTypeName rules
  iterate (fun qualifier => do
    let dot ← mark "."
    let member ← simpleTypeName rules
    return .branch .qualifiedName [qualifier, dot, member]) root

/-- A dotted name without type arguments. -/
def namespaceName : Reader Node := do
  let root ← (do
    let aliasName ← name
    let colons ← mark "::"
    let member ← name
    return .branch .aliasQualifiedName [aliasName, colons, member]) <|> name
  iterate (fun qualifier => do
    let dot ← mark "."
    let member ← name
    return .branch .qualifiedName [qualifier, dot, member]) root

/-- A keyword that is a type. -/
def keywordType : Reader Node := do
  let token ← take (·.isTypeKeyword)
  return .leaf (.predefinedType token.text) token.span

/-- One element of a tuple type. -/
def tupleTypeElement (rules : Rules) : Reader Node := do
  let element ← rules .type
  let label ← maybe name
  return .branch .group (element :: label.toList)

/-- A tuple type of at least two elements. -/
def tupleType (rules : Rules) : Reader Node := do
  let opening ← mark "("
  let elements ← separated "," (tupleTypeElement rules)
  check (1 < elements.length)
  let closing ← mark ")"
  return .branch .otherType (opening :: elements ++ [closing])

/-- A type behind `ref` or `scoped`. -/
def referenceType (rules : Rules) : Reader Node := do
  if ← sees "ref" then
    let reference ← mark "ref"
    let readonly ← maybe (mark "readonly")
    let referred ← rules .type
    return .branch .otherType (reference :: readonly.toList ++ [referred])
  else
    let restriction ← mark "scoped"
    check ((← sees "ref") || (← seesNameAt 1) || (← seesAt 1 ["<", "."]))
    let referred ← rules .type
    return .branch .otherType [restriction, referred]

/-- A pointer to a function. -/
def functionPointerType (rules : Rules) : Reader Node := do
  let keyword ← mark "delegate"
  let star ← mark "*"
  let convention ← many name
  let parameter : Reader Node := do
    let modifier ← maybe (markOneOf ["in", "out"])
    let type ← rules .type
    return .branch .group (modifier.toList ++ [type])
  let opening ← mark "<"
  let parameters ← separated "," parameter
  let closing ← mark ">"
  return .branch .otherType (keyword :: star :: convention ++ opening :: parameters ++ [closing])

/-- A type without suffixes. -/
def baseType (rules : Rules) : Reader Node :=
  keywordType <|> functionPointerType rules <|> referenceType rules <|> typeName rules <|>
    tupleType rules

/-- The brackets behind an array type without lengths. -/
def openRank : Reader Node := do
  let opening ← mark "["
  let commas ← many (mark ",")
  let closing ← mark "]"
  return .branch .rankSpecifier (opening :: commas ++ [closing])

/-- Array brackets behind a type. -/
def arraySuffix (element : Node) : Reader Node := do
  let rank ← openRank
  return .branch .arrayType [element.withRole .type, rank]

/-- Array brackets; the lengths may be missing. -/
def sizedRank (rules : Rules) : Reader Node := do
  let opening ← mark "["
  let sizes ← maybeAll (separated "," (rules (.expression 0 .plain)))
  let commas ← many (mark ",")
  let closing ← mark "]"
  return .branch .rankSpecifier (opening :: sizes ++ commas ++ [closing])

/-- Array brackets behind a type, with or without lengths. -/
def sizedSuffix (rules : Rules) (element : Node) : Reader Node := do
  let rank ← sizedRank rules
  return .branch .arrayType [element.withRole .type, rank]

/-- A question mark behind a type. -/
def nullableSuffix (inner : Node) : Reader Node := do
  let question ← mark "?"
  return .branch .nullableType [inner, question]

/-- A star behind a type. -/
def pointerSuffix (pointed : Node) : Reader Node := do
  let star ← mark "*"
  return .branch .otherType [pointed, star]

/-- A type with all suffixes that follow it. -/
def typeRule (rules : Rules) : Reader Node := do
  let base ← baseType rules
  iterate (fun type => arraySuffix type <|> nullableSuffix type <|> pointerSuffix type) base

/-- A type behind which an expression may go on: a question mark in front of an operand is left
to a conditional expression. -/
def testedType (rules : Rules) : Reader Node := do
  let base ← baseType rules
  iterate (fun type => sizedSuffix rules type <|> (do
    check (!(← peek? 1).any startsOperand)
    nullableSuffix type)) base

/-- A type in parentheses in front of an operand. -/
def castType (rules : Rules) : Reader Node := do
  let base ← rules .type
  iterate (fun type => do
    check ((← behindBrackets?).any (·.isOneOf [")", "["]))
    sizedSuffix rules type) base

/-- A type whose array brackets are left to the creation it stands in. -/
def createdType (rules : Rules) : Reader Node := do
  let base ← baseType rules
  iterate (fun type => (do
    check (← seesAt 1 ["[", "(", "\x7b", "?", "*"])
    nullableSuffix type) <|> pointerSuffix type) base

end Grammar

end AssertionLint
