import AssertionLint.CSharp.Node.Outline
import AssertionLint.Text.Basic

/-!
# Declared types and namespaces

Reads the types, their members, and the namespaces of a document off its concrete syntax. A type
comes in front of the types inside it. A namespace for the rest of the document holds for the
declarations behind it.
-/

namespace AssertionLint

namespace Node

/-- The type of a declaration, or a keyword where it has none. -/
def declaredType (source : String) (node : Node) (fallback : String) : TypeExpr :=
  match node.child? .type with
  | some type => type.toType source
  | none => .predefined fallback none

/-- A method, a constructor or an operator. -/
def toMethod? (source : String) (owner : TypeDecl) (node : Node) : Option MethodDecl :=
  let parameters := node.declaredParameters source
  let isStatic := node.leadingWords.contains "static"
  match node.form with
  | .methodDeclaration => node.declaredName?.map fun name =>
    { name := name.nameText, kind := .ordinary, typeParameters := node.typeParameterNames,
      parameters, returnType := node.declaredType source "void",
      isStatic := isStatic || owner.isStatic }
  | .constructorDeclaration => some
    { name := ".ctor", kind := .constructor, typeParameters := [], parameters,
      returnType := .named none owner.name [] none, isStatic }
  | .operatorDeclaration => (node.child? .operator).map fun operator =>
    { name := operator.nameText, kind := .operator, typeParameters := [], parameters,
      returnType := node.declaredType source "object", isStatic := true }
  | _ => none

def toProperty? (source : String) (owner : TypeDecl) (node : Node) : Option PropertyDecl :=
  if node.form == .propertyDeclaration then do
    let name ← node.declaredName?
    let type ← node.child? .type
    return { name := name.nameText, type := type.toType source
             isStatic := node.leadingWords.contains "static" || owner.isStatic }
  else
    none

/-- The fields that a declaration declares. -/
def toFields (source : String) (owner : TypeDecl) (node : Node) : List FieldDecl :=
  match node.form, node.childOfForm? .variableDeclaration with
  | .fieldDeclaration, some declaration =>
    let words := node.wordsBefore declaration
    let isConst := words.contains "const"
    let isStatic := isConst || words.contains "static" || owner.isStatic
    match declaration.child? .type with
    | some type =>
      (declaration.children.filter (·.form == .declarator)).filterMap fun declarator =>
        declarator.declaratorName?.map fun name =>
          { name, type := type.toType source, isStatic, isConst }
    | none => []
  | _, _ => []

def toConversion? (source : String) (node : Node) : Option ConversionDecl :=
  if node.form == .conversionDeclaration then do
    let target ← node.child? .type
    let parameter ← (node.declaredParameters source).head?
    let operand ← parameter.type
    return { isImplicit := node.children.any (·.isToken "implicit"), source := operand
             target := target.toType source }
  else
    none

def toConstants (owner : TypeDecl) (node : Node) : List FieldDecl :=
  (node.children.filter (·.form == .enumMember)).filterMap fun constant =>
    constant.declaredName?.map fun name =>
      { name := name.nameText, type := .named none owner.name [] none, isStatic := true
        isConst := true }

/-- The base types of a declaration; arguments of a primary constructor are left out. -/
def toBases (source : String) (node : Node) : List TypeExpr :=
  match node.childOfForm? .baseList with
  | some list => list.namedChildren.filterMap fun base =>
    let type := if base.form.isType then some base else base.children.find? (·.form.isType)
    type.map (·.toType source)
  | none => []

/-- A type without its members. -/
def toTypeHead? (source : String) (enclosing : String) (outer : Option Nat) (kind : TypeKind)
    (node : Node) : Option TypeDecl :=
  node.declaredName?.map fun name =>
    let words := node.leadingWords
    { TypeDecl.empty name.nameText enclosing kind with
      outer
      isStatic := words.contains "static" && kind != .delegate
      isRefLike := kind == .struct && words.contains "ref"
      typeParameters := node.typeParameterNames
      bases := node.toBases source
      span := node.span }

/-- The declarations in a list, with those in an error among them. -/
def listed (node : Node) : List Node :=
  node.children.attach.flatMap fun ⟨child, _⟩ =>
    if child.form == .error then child.listed else [child]
termination_by sizeOf node
decreasing_by exact sizeOf_lt_of_mem_children ‹_›

/-- A type with the members of its own body. -/
def toTypeDecl? (source : String) (enclosing : String) (outer : Option Nat) (kind : TypeKind)
    (node : Node) : Option TypeDecl :=
  (node.toTypeHead? source enclosing outer kind).map fun type =>
    match node.child? .body with
    | none => type
    | some body =>
      if kind = .enum then { type with fields := body.toConstants type }
      else
        { type with
          methods := body.listed.filterMap (·.toMethod? source type)
          properties := body.listed.filterMap (·.toProperty? source type)
          fields := body.listed.flatMap (·.toFields source type)
          conversions := body.listed.filterMap (·.toConversion? source) }

/-- The text of a dotted name without blanks. -/
def dottedText (source : String) (node : Node) : String :=
  String.ofList ((node.span.text source).toList.filter fun c => !Text.isBlank c)

/-- The namespace that a directive brings into scope; aliases and static imports bring none. -/
def usedNamespace? (source : String) (node : Node) : Option String :=
  if node.children.any fun child => child.isToken "=" || child.isToken "static" then none
  else
    (node.children.find? fun child =>
      match child.form with
      | .qualifiedName | .identifier _ => true
      | _ => false).map (·.dottedText source)

end Node

/-- A name inside a namespace. -/
def joinNamespace (outer inner : String) : String :=
  if outer.isEmpty then inner else outer ++ "." ++ inner

namespace Declarations

/-- Nothing is declared. -/
def empty : Declarations := ⟨[], [], [], [], []⟩

/-- Inserts a text into a sorted list unless it is there. -/
def insertSorted (text : String) : List String → List String
  | [] => [text]
  | first :: rest =>
    if text < first then text :: first :: rest
    else if text = first then first :: rest
    else first :: insertSorted text rest

/-- The namespaces that a dotted name stands for: itself and those around it. -/
def namespacePath (path : String) : List String :=
  (path.splitOn ".").foldl (fun paths part =>
    paths ++ [joinNamespace (paths.getLast?.getD "") part]) []

/-- Adds a namespace and those around it. -/
def addNamespace (declarations : Declarations) (path : String) : Declarations :=
  { declarations with
    namespaces := (namespacePath path).foldl (fun known path => insertSorted path known)
      declarations.namespaces }

/-- Adds a namespace that is brought into scope. -/
def addUsing (declarations : Declarations) (path : String) : Declarations :=
  if declarations.usings.contains path then declarations
  else { declarations with usings := declarations.usings ++ [path] }

/-- Adds a type behind all others. -/
def addType (declarations : Declarations) (type : TypeDecl) : Declarations :=
  { declarations with types := declarations.types ++ [type] }

end Declarations

namespace Node

/-- Adds what a list of declarations declares, inside a namespace and perhaps a type. -/
def declare (source : String) (outer : Option Nat) (enclosing : String)
    (found : Declarations) (node : Node) : Declarations :=
  (node.children.attach.foldl (fun (enclosing, found) ⟨child, _⟩ =>
    match child.form with
    | .usingDirective =>
      (enclosing,
        match child.usedNamespace? source with
        | some path => found.addUsing path
        | none => found)
    | .namespaceDeclaration =>
      match child.declaredName? with
      | some name =>
        let path := joinNamespace enclosing (name.dottedText source)
        (enclosing, child.children.attach.foldl (fun found ⟨body, _⟩ =>
          if body.role == some .body then body.declare source none path found else found)
          (found.addNamespace path))
      | none => (enclosing, found)
    | .fileScopedNamespace =>
      match child.declaredName? with
      | some name =>
        let path := joinNamespace enclosing (name.dottedText source)
        (path, found.addNamespace path)
      | none => (enclosing, found)
    | .delegateDeclaration =>
      match child.toTypeHead? source enclosing outer .delegate with
      | some type => (enclosing, found.addType type)
      | none => (enclosing, found)
    | .typeDeclaration kind =>
      match child.toTypeDecl? source enclosing outer kind with
      | some type =>
        -- the place that `addType` gives the type, for the types inside to refer to
        let index := found.types.length
        (enclosing, child.children.attach.foldl (fun found ⟨body, _⟩ =>
          if body.role == some .body && kind != .enum then
            body.declare source (some index) enclosing found
          else found) (found.addType type))
      | none => (enclosing, found)
    | .error => (enclosing, child.declare source outer enclosing found)
    | _ => (enclosing, found)) (enclosing, found)).2
termination_by sizeOf node
decreasing_by
  all_goals have outer := sizeOf_lt_of_mem_children ‹child ∈ node.children›
  all_goals first
    | exact outer
    | have inner := sizeOf_lt_of_mem_children ‹body ∈ child.children›
      omega

end Node

end AssertionLint
