import AssertionLint.TypeTable.Basic

/-!
# Type names

What a written type stands for in a scope. A simple name is looked for in the types around it, then
in the namespaces around it, then in those brought into scope. A qualified name is looked for in
the type that its qualifier stands for; if there is none, the qualifier is a namespace.
-/

namespace AssertionLint

/-- The namespaces that every document sees. -/
def implicitUsings : List String := ["System", "System.Collections.Generic", "System.Linq"]

/-- The parts of a dotted name in front of its dots, the longest one first; `front` is the text in
front of the characters. -/
def partsBeforeDots (front : List Char) : List Char → List (List Char)
  | [] => []
  | c :: rest =>
    partsBeforeDots (front ++ [c]) rest ++ (if c = '.' then [front] else [])

/-- A namespace and those around it, the innermost one first and the unnamed one last. -/
def namespacesAround (path : String) : List String :=
  path :: (partsBeforeDots [] path.toList).map String.ofList ++ (if path.isEmpty then [] else [""])

namespace TypeExpr

/-- The text of a qualifier that is made of plain names only. -/
def dotted? : TypeExpr → Option String
  | named (some qualifier) name [] _ =>
    qualifier.dotted?.map fun path => TypeSymbol.qualify path name
  | named none name [] _ => some name
  | _ => none

end TypeExpr

namespace TypeTable

/-- The namespaces whose types can be named alone: those around the name and those brought into
scope. -/
def visibleNamespaces (table : TypeTable) (scope : TypeScope) : List String :=
  namespacesAround scope.path ++ (table.declarations scope.origin).usings ++ implicitUsings

/-- The declaration of a name in the first of several namespaces and types that has one. -/
def findInside? (table : TypeTable) (paths : List String) (name : String) (arity : Nat) :
    Option TypeId :=
  paths.findSome? fun path => table.find? (TypeSymbol.qualify path name) arity

/-- The declaration that a simple name stands for. -/
def lookup? (table : TypeTable) (scope : TypeScope) (name : String) (arity : Nat) :
    Option TypeId :=
  let around := scope.enclosing.map fun index => table.fullName ⟨scope.origin, index⟩
  table.findInside? around name arity <|>
    table.findInside? (table.visibleNamespaces scope) name arity

/-- The path without the mark that makes it start outside all namespaces. -/
def withoutGlobal (path : String) : String :=
  let mark := "global::".toList
  if mark.isPrefixOf path.toList then String.ofList (path.toList.drop mark.length) else path

/-- The declaration that a name stands for behind a qualifier, given the type that the qualifier
stands for and its text. -/
def lookupQualified? (table : TypeTable) (scope : TypeScope) (outer : TypeSymbol)
    (path : Option String) (name : String) (arity : Nat) : Option TypeId :=
  if outer.isUnknown then do
    let full := TypeSymbol.qualify (withoutGlobal (← path)) name
    -- a qualifier that is no type is a namespace, written in full or as seen from here
    table.find? full arity <|> table.findInside? (table.visibleNamespaces scope) full arity
  else
    table.find? (TypeSymbol.qualify outer.fullName name) arity

/-- The type of a declaration that a name was looked up for. -/
def found (table : TypeTable) (id : Option TypeId) (name : String)
    (typeArguments : List TypeSymbol) : TypeSymbol :=
  match id with
  | some id => table.symbolOf id typeArguments
  | none => .unresolved name

mutual

/-- The type that a written type stands for. A question mark behind a reference type means
nothing. -/
def resolve (table : TypeTable) (scope : TypeScope) : TypeExpr → TypeSymbol
  | .predefined keyword _ =>
    match SpecialType.ofKeyword? keyword with
    | some special => table.special special
    | none => .unresolved keyword
  | .named none name typeArguments _ =>
    let typeArguments := table.resolveAll scope typeArguments
    if typeArguments.isEmpty && scope.typeParameters.contains name then .typeParameter name
    else table.found (table.lookup? scope name typeArguments.length) name typeArguments
  | .named (some qualifier) name typeArguments _ =>
    let typeArguments := table.resolveAll scope typeArguments
    table.found (table.lookupQualified? scope (table.resolve scope qualifier) qualifier.dotted?
      name typeArguments.length) name typeArguments
  | .array element _ _ => .arrayOf (table.resolve scope element)
  | .nullable inner _ =>
    let inner := table.resolve scope inner
    if inner.isValueType then table.nullableOf inner else inner
  | .inferred _ => .unresolved "var"
  | .other text _ => .unresolved text

def resolveAll (table : TypeTable) (scope : TypeScope) : List TypeExpr → List TypeSymbol
  | [] => []
  | type :: rest => table.resolve scope type :: table.resolveAll scope rest

end

/-- The static classes whose extension methods can be seen from a scope, those of the document
first. -/
def extensionHolders (table : TypeTable) (scope : TypeScope) : List TypeId :=
  let visible := table.visibleNamespaces scope
  [Origin.document, .reference].flatMap fun origin =>
    (table.declarations origin).types.zipIdx.filterMap fun (type, index) =>
      if type.isStatic && type.outer.isNone && visible.contains type.enclosing &&
          type.methods.any (·.isExtension) then
        some ⟨origin, index⟩
      else
        none

end TypeTable

end AssertionLint
