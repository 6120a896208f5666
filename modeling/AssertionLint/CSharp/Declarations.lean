import AssertionLint.CSharp.Expr.Render
import AssertionLint.Symbols.TypeSymbol

/-!
# Declarations of a document

What a document declares: types with their members, bodies with the parameters that are visible in
them, locals with the part of the document that sees them, and namespaces. A type that stands
inside another one refers to it by its place in the list of types.
-/

namespace AssertionLint

/-- A parameter as it is written. -/
structure ParameterDecl where
  name : String
  /-- A parameter of a lambda may have no type. -/
  type : Option TypeExpr
  /-- Takes any number of arguments. -/
  isParams : Bool
  /-- Receives the object in front of the dot. -/
  isThis : Bool
  /-- Has a default value. -/
  isOptional : Bool
  deriving Inhabited

/-- The parameter with its type as it is shown. -/
def ParameterDecl.summary (source : String) (parameter : ParameterDecl) : String :=
  (if parameter.isParams then "params " else "") ++ (if parameter.isThis then "this " else "") ++
    (if parameter.isOptional then "optional " else "") ++
    ((parameter.type.map (·.render source)).getD "?") ++ " " ++ parameter.name

/-- The kinds of methods that matter to lookup. -/
inductive MethodKind
  | ordinary
  | constructor
  /-- An operator; the name of the method is its token. -/
  | operator
  deriving DecidableEq, Repr, Inhabited

namespace MethodKind

def name : MethodKind → String
  | ordinary => "Ordinary"
  | constructor => "Constructor"
  | operator => "Operator"

end MethodKind

/-- A method as it is written. -/
structure MethodDecl where
  name : String
  kind : MethodKind
  typeParameters : List String
  parameters : List ParameterDecl
  returnType : TypeExpr
  isStatic : Bool
  deriving Inhabited

namespace MethodDecl

/-- The method can be called as if it were a member of its first argument. -/
def isExtension (method : MethodDecl) : Bool :=
  method.isStatic && method.parameters.head?.any (·.isThis)

/-- The place of the parameter that takes any number of arguments. -/
def paramsIndex? (method : MethodDecl) : Option Nat :=
  method.parameters.findIdx? (·.isParams)

end MethodDecl

/-- A property as it is written. -/
structure PropertyDecl where
  name : String
  type : TypeExpr
  isStatic : Bool
  deriving Inhabited

/-- A field, an event or a constant of an enumeration. -/
structure FieldDecl where
  name : String
  type : TypeExpr
  isStatic : Bool
  isConst : Bool
  deriving Inhabited

/-- A conversion that a type declares. -/
structure ConversionDecl where
  isImplicit : Bool
  source : TypeExpr
  target : TypeExpr
  deriving Inhabited

/-- A type declaration. -/
structure TypeDecl where
  name : String
  /-- The namespace around the type. -/
  enclosing : String
  /-- The place of the type around this one in the list of types. -/
  outer : Option Nat
  kind : TypeKind
  isStatic : Bool
  isRefLike : Bool
  typeParameters : List String
  bases : List TypeExpr
  methods : List MethodDecl
  properties : List PropertyDecl
  fields : List FieldDecl
  conversions : List ConversionDecl
  span : Span
  deriving Inhabited

namespace TypeDecl

/-- A declaration without members. -/
def empty (name enclosing : String) (kind : TypeKind) : TypeDecl :=
  { name, enclosing, outer := none, kind, isStatic := false, isRefLike := false,
    typeParameters := [], bases := [], methods := [], properties := [], fields := [],
    conversions := [], span := ⟨0, 0⟩ }

def arity (type : TypeDecl) : Nat := type.typeParameters.length

end TypeDecl

/-- A body: its parameters are visible inside its span. -/
structure BodyScope where
  span : Span
  parameters : List ParameterDecl
  typeParameters : List String
  isStatic : Bool
  deriving Inhabited

/-- Where a local gets its value from. -/
inductive LocalValue
  | none
  /-- The expression behind the equals sign. -/
  | initializer (value : Expr)
  /-- An element of the collection that a loop runs over. -/
  | elementOf (collection : Expr)
  deriving Inhabited

def LocalValue.name : LocalValue → String
  | none => "None"
  | initializer _ => "Initializer"
  | elementOf _ => "ElementOf"

/-- A local. -/
structure LocalDecl where
  name : String
  /-- A local declared with `var` has no written type. -/
  type : Option TypeExpr
  value : LocalValue
  /-- The block or the statement that sees the local. -/
  scope : Span
  /-- The offset from which on the local can be used. -/
  visibleFrom : Nat
  deriving Inhabited

/-- Everything that a document declares. -/
structure Declarations where
  types : List TypeDecl
  bodies : List BodyScope
  locals : List LocalDecl
  /-- The namespaces that the document brings into scope. -/
  usings : List String
  /-- The namespaces of the document and those around them. -/
  namespaces : List String
  deriving Inhabited

namespace Declarations

/-- The namespace and the names of the types around a type, joined by dots; at most `fuel` types
are followed outwards. -/
def containerWithin (declarations : Declarations) : Nat → Nat → String
  | 0, _ => ""
  | fuel + 1, index =>
    match declarations.types[index]? with
    | none => ""
    | some type =>
      match type.outer with
      | none => type.enclosing
      | some outer =>
        let parent := declarations.containerWithin fuel outer
        let name := (declarations.types[outer]?.map (·.name)).getD ""
        if parent.isEmpty then name else parent ++ "." ++ name

/-- The namespace and the names of the types around a type, joined by dots. -/
def container (declarations : Declarations) (index : Nat) : String :=
  declarations.containerWithin (declarations.types.length + 1) index

/-- The places of the types around an offset, the innermost one first. -/
def enclosingTypes (declarations : Declarations) (offset : Nat) : List Nat :=
  let around := declarations.types.zipIdx.filter fun (type, _) =>
    type.span.start ≤ offset && offset < type.span.stop
  (around.mergeSort fun (left, _) (right, _) => right.span.start ≤ left.span.start).map (·.2)

end Declarations

end AssertionLint
