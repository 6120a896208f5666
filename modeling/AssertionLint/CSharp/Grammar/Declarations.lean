import AssertionLint.CSharp.Grammar.Statements
import AssertionLint.CSharp.Token.Lexer

/-!
# Declarations and documents

The grammar of types and their members, of namespaces, and of whole documents. The table that ties
the rules of the grammar together is built here, by recursion on a budget: every rule that goes
through the table spends one unit, and a document of n tokens gets several units per token.

A document may be parsed by other means: what is proved of documents is proved of any node
(`ParsedDocument.ofNode`), under conditions on how it is laid out (`Node.IsTreeOf`), which the nodes
of this grammar meet.
-/

namespace AssertionLint

namespace Grammar

open Reader

/-- The words that modify a declaration. -/
def modifierWords : List String :=
  ["abstract", "async", "const", "extern", "file", "fixed", "internal", "new", "override",
    "partial", "private", "protected", "public", "readonly", "ref", "required", "sealed", "static",
    "unsafe", "virtual", "volatile"]

/-- A modifier. The words that are names elsewhere modify only in front of another word, and
`ref` only in front of a structure. -/
def modifier : Reader Node := do
  let token ← take (·.isOneOf modifierWords)
  let next ← peek? 0
  check (token.kind == .keyword ||
    next.any fun following => following.kind == .identifier || following.kind == .keyword)
  check (token.text != "ref" || next.any (·.isOneOf ["struct", "partial"]))
  return .leaf (.modifier token.text) token.span

/-- The arguments for a constructor of the same object. -/
def constructorInitializer (rules : Rules) : Reader Node := do
  let colon ← mark ":"
  let target ← markOneOf ["base", "this"]
  let arguments ← argumentList rules
  return .branch .group [colon, target, arguments]

/-- A base type, for a primary constructor with its arguments. -/
def baseEntry (rules : Rules) : Reader Node := do
  let type ← rules .type
  match ← maybe (argumentList rules) with
  | some arguments => return .branch .group [type, arguments]
  | none => return type

def baseList (rules : Rules) : Reader Node := do
  let colon ← mark ":"
  let bases ← separated "," (baseEntry rules)
  return .branch .baseList (colon :: bases)

def enumMember (rules : Rules) : Reader Node := do
  let attributes ← many attributeList
  let word ← name
  let value ← maybeAll (defaultValue rules)
  return .branch .enumMember (attributes ++ word.withRole .name :: value)

def enumBody (rules : Rules) : Reader Node := do
  let opening ← mark "\x7b"
  let members ← maybeAll (separated "," (enumMember rules))
  let comma ← trailing ","
  let closing ← mark "\x7d"
  return .branch .declarationList (opening :: members ++ comma ++ [closing])

/-- Declarations in braces. -/
def declarationList (rules : Rules) : Reader Node := do
  let opening ← mark "\x7b"
  let declarations ← many (rules .declaration <|> brokenPart)
  let closing ← mark "\x7d"
  return .branch .declarationList (opening :: declarations ++ [closing])

/-- The keyword of a type declaration and the kind of type that it declares. -/
def typeKeyword : Reader (List Node × TypeKind) :=
  (do
    return ([← mark "class"], .class)) <|> (do
    return ([← mark "struct"], .struct)) <|> (do
    return ([← mark "interface"], .interface)) <|> (do
    let keyword ← mark "record"
    let following ← maybe (markOneOf ["class", "struct"])
    check ((← seesNameAt 0) && (← seesAt 1 ["(", "<", "\x7b", ":", ";", "where"]))
    return (keyword :: following.toList, .class))

/-- A type declaration other than an enumeration, behind its modifiers. -/
def typeRest (rules : Rules) : Reader (List Node × TypeKind) := do
  let (keywords, kind) ← typeKeyword
  let word ← name
  let typeParameters ← maybe typeParameterList
  let parameters ← maybe (parameterList rules)
  let bases ← maybe (baseList rules)
  let constraints ← many (typeConstraints rules)
  let body ← (do
    let body ← declarationList rules
    return [body.withRole .body]) <|> (do
    return [← mark ";"])
  let semicolon ← trailing ";"
  return (keywords ++ word.withRole .name :: typeParameters.toList ++ parameters.toList ++
    bases.toList ++ constraints ++ body ++ semicolon, kind)

/-- An enumeration behind its modifiers. -/
def enumRest (rules : Rules) : Reader (List Node) := do
  let keyword ← mark "enum"
  let word ← name
  let bases ← maybe (baseList rules)
  let body ← enumBody rules
  let semicolon ← trailing ";"
  return keyword :: word.withRole .name :: bases.toList ++ body.withRole .body :: semicolon

/-- A delegate behind its modifiers. -/
def delegateRest (rules : Rules) : Reader (List Node) := do
  let keyword ← mark "delegate"
  let type ← rules .type
  let word ← name
  let typeParameters ← maybe typeParameterList
  let parameters ← parameterList rules
  let constraints ← many (typeConstraints rules)
  let semicolon ← mark ";"
  return keyword :: type.withRole .type :: word.withRole .name :: typeParameters.toList ++
    parameters :: constraints ++ [semicolon]

/-- The accessor of a property, an indexer or an event. -/
def accessor (rules : Rules) : Reader Node := do
  let attributes ← many attributeList
  let modifiers ← many modifier
  let word ← markOneOf ["get", "set", "init", "add", "remove"]
  let body ← functionBody rules
  return .branch .accessor (attributes ++ modifiers ++ word :: body)

/-- Accessors in braces. -/
def accessorList (rules : Rules) : Reader Node := do
  let opening ← mark "\x7b"
  let accessors ← many (accessor rules)
  let closing ← mark "\x7d"
  return .branch .accessorList (opening :: accessors ++ [closing])

/-- The interface in front of the name of a member. -/
def interfaceSpecifier (rules : Rules) : Reader (List Node) := do
  let parts ← many do
    let part ← simpleTypeName rules
    let separator ← markOneOf [".", "::"]
    return [part, separator]
  if parts.isEmpty then return [] else return [.branch .group parts.flatten]

/-- The token of an operator that can be declared. -/
def declaredOperator : Reader Node :=
  joined [">", ">", ">"] <|> joined [">", ">"] <|> joined [">", "="] <|>
    markOneOf ["+", "-", "!", "~", "++", "--", "true", "false", "*", "/", "%", "&", "|", "^", "<<",
      "==", "!=", ">", "<", "<="]

/-- A conversion behind its modifiers. -/
def conversionRest (rules : Rules) : Reader (List Node) := do
  let direction ← markOneOf ["implicit", "explicit"]
  let specifier ← interfaceSpecifier rules
  let keyword ← mark "operator"
  let checkedWord ← maybe (mark "checked")
  let type ← rules .type
  let parameters ← parameterList rules
  let body ← functionBody rules
  return direction :: specifier ++ keyword :: checkedWord.toList ++ type.withRole .type ::
    parameters.withRole .parameters :: body

/-- A finalizer behind its modifiers. -/
def destructorRest (rules : Rules) : Reader (List Node) := do
  let tilde ← mark "~"
  let word ← name
  let parameters ← parameterList rules
  let body ← functionBody rules
  return tilde :: word.withRole .name :: parameters.withRole .parameters :: body

/-- A constructor behind its modifiers. -/
def constructorRest (rules : Rules) : Reader (List Node) := do
  let word ← name
  let parameters ← parameterList rules
  let initializer ← maybe (constructorInitializer rules)
  let body ← functionBody rules
  return word.withRole .name :: parameters.withRole .parameters :: initializer.toList ++ body

/-- An event behind its modifiers. -/
def eventRest (rules : Rules) : Reader (List Node × Form) := do
  let keyword ← mark "event"
  (do
    let type ← rules .type
    let specifier ← interfaceSpecifier rules
    let word ← name
    let accessors ← accessorList rules
    return (keyword :: type.withRole .type :: specifier ++ [word.withRole .name, accessors],
      .eventDeclaration)) <|> (do
    let declaration ← variableDeclaration rules
    let semicolon ← mark ";"
    return ([keyword, declaration, semicolon], .fieldDeclaration))

/-- Accessors, or an expression that stands for the reading accessor. -/
def accessorBody (rules : Rules) : Reader (List Node) :=
  (do
    return [← accessorList rules]) <|> (do
    let clause ← arrowClause rules
    let semicolon ← mark ";"
    return [clause.withRole .value, semicolon])

/-- The value a property starts with. -/
def propertyValue (rules : Rules) : Reader (List Node) := do
  let equals ← mark "="
  let value ← rules (.expression 0 .plain)
  let semicolon ← mark ";"
  return [equals, value.withRole .value, semicolon]

/-- A member that starts with a type, behind its modifiers. -/
def typedMemberRest (rules : Rules) : Reader (List Node × Form) :=
  (do
    let type ← rules .type
    let specifier ← interfaceSpecifier rules
    let leading := type.withRole .type :: specifier
    (do
      let keyword ← mark "operator"
      let checkedWord ← maybe (mark "checked")
      let operator ← declaredOperator
      let parameters ← parameterList rules
      let body ← functionBody rules
      return (leading ++ keyword :: checkedWord.toList ++ operator.withRole .operator ::
        parameters.withRole .parameters :: body, .operatorDeclaration)) <|> (do
      let keyword ← mark "this"
      let parameters ← parametersBetween "[" "]" rules
      let body ← accessorBody rules
      return (leading ++ keyword :: parameters.withRole .parameters :: body,
        .indexerDeclaration)) <|> (do
      let following ← methodRest rules
      return (leading ++ following, .methodDeclaration)) <|> (do
      let word ← name
      let body ← accessorBody rules
      let value ← maybeAll (propertyValue rules)
      return (leading ++ word.withRole .name :: body ++ value, .propertyDeclaration))) <|> (do
    let declaration ← variableDeclaration rules
    let semicolon ← mark ";"
    return ([declaration, semicolon], .fieldDeclaration))

/-- A type behind its modifiers. -/
def typeOrDelegateRest (rules : Rules) : Reader (List Node × Form) :=
  (do
    let (parts, kind) ← typeRest rules
    return (parts, .typeDeclaration kind)) <|> (do
    return (← enumRest rules, .typeDeclaration .enum)) <|> (do
    return (← delegateRest rules, .delegateDeclaration))

/-- A member or a type behind its modifiers. -/
def memberRest (rules : Rules) : Reader (List Node × Form) :=
  typeOrDelegateRest rules <|> eventRest rules <|> (do
    return (← conversionRest rules, .conversionDeclaration)) <|> (do
    return (← destructorRest rules, .constructorDeclaration)) <|> (do
    -- a name in front of a parenthesis is no type
    check (← seesAt 1 ["("])
    return (← constructorRest rules, .constructorDeclaration)) <|> typedMemberRest rules

/-- A member or a type. -/
def member (rules : Rules) : Reader Node := do
  let attributes ← many attributeList
  let modifiers ← many modifier
  let (parts, form) ← memberRest rules
  return .branch form (attributes ++ modifiers ++ parts)

/-- A directive that brings names into scope. -/
def usingDirective (rules : Rules) : Reader Node := do
  let everywhere ← maybe (mark "global")
  let keyword ← mark "using"
  let words ← many (markOneOf ["static", "unsafe"])
  let aliasName ← maybeAll do
    let word ← name
    let equals ← mark "="
    return [word, equals]
  let target ← rules .type
  let semicolon ← mark ";"
  return .branch .usingDirective
    (everywhere.toList ++ keyword :: words ++ aliasName ++ [target, semicolon])

/-- A directive that names another assembly. -/
def externAlias : Reader Node := do
  let keyword ← mark "extern"
  let aliasWord ← mark "alias"
  let word ← name
  let semicolon ← mark ";"
  return .branch .group [keyword, aliasWord, word, semicolon]

/-- A namespace with its declarations, or one for the rest of the document. -/
def namespaceDeclaration (rules : Rules) : Reader Node := do
  let keyword ← mark "namespace"
  let path ← namespaceName
  (do
    let body ← declarationList rules
    let semicolon ← trailing ";"
    return .branch .namespaceDeclaration
      (keyword :: path.withRole .name :: body.withRole .body :: semicolon)) <|> (do
    let semicolon ← mark ";"
    return .branch .fileScopedNamespace [keyword, path.withRole .name, semicolon])

/-- What a document or a namespace may start with. -/
def directiveOrNamespace (rules : Rules) : Reader Node :=
  externAlias <|> usingDirective rules <|> namespaceDeclaration rules

/-- A declaration inside a namespace or a type. -/
def declarationRule (rules : Rules) : Reader Node :=
  directiveOrNamespace rules <|> emptyStatement <|>
    conditionalGroup rules (rules .declaration <|> brokenPart) <|> member rules

/-- A declaration of a type at the outermost level. -/
def outerType (rules : Rules) : Reader Node := do
  let attributes ← many attributeList
  let modifiers ← many modifier
  let (parts, form) ← typeOrDelegateRest rules
  return .branch form (attributes ++ modifiers ++ parts)

/-- An attribute of the whole program. -/
def globalAttribute : Reader Node := do
  check (← seesAt 1 ["assembly", "module"])
  attributeList

/-- An item at the outermost level of a document. -/
def outerItem (rules : Rules) : Reader Node :=
  directiveOrNamespace rules <|> globalAttribute <|> outerType rules <|> (do
    return .branch .globalStatement [← rules .statement])

/-- One token that fits no rule. -/
def strayToken : Reader Node := do
  return .branch .error [.ofToken (← take fun _ => true)]

/-- A conditional group at the outermost level of a document. -/
def outerGroup (rules : Rules) : Reader Node :=
  conditionalGroup rules (outerItem rules <|> brokenPart)

def items (rules : Rules) : Reader (List Node) :=
  -- the last two take whatever is left, so no token of a document is passed over
  many (outerGroup rules <|> outerItem rules <|> broken <|> strayToken)

/-- The rule behind an entry of the table. -/
def rule (rules : Rules) : Nonterminal → Reader Node
  | .expression floor ending => expressionRule rules floor ending
  | .type => typeRule rules
  | .pattern => patternRule rules
  | .statement => statementRule rules
  | .declaration => declarationRule rules

/-- The table of rules for a budget: one grammar that trees of documents can be read with. -/
def rules : Nat → Rules
  | 0 => fun _ => failure
  | budget + 1 => rule (rules budget)

/-- How deep the rules may go for each token of a document. -/
def depthPerToken : Nat := 8

/-- The items of a document that consists of the given tokens. -/
def itemsOf (tokens : Array Token) : List Node :=
  match items (rules (depthPerToken * (tokens.size + 1))) tokens 0 with
  | some (nodes, _) => nodes
  | none => []

end Grammar

namespace Node

/-- The concrete syntax that this grammar gives a document. It starts behind the gap in front of the
first token or comment and ends with the document. It is the instance that is run; other parsers
give other nodes. -/
def ofSource (source : String) : Node :=
  let leading := source.toList.takeWhile Token.isGap
  mk none .declarationList ⟨Text.byteSize leading, Text.byteSize source.toList⟩
    (Grammar.itemsOf (Token.scan source).toArray)

end Node

end AssertionLint
