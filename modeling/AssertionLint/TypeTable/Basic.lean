import AssertionLint.CSharp.Declarations

/-!
# Type tables

The type declarations of a document together with those it is read against, found by full name and
number of type parameters. Of several declarations with one name and number the last one counts,
and those of the document count before the others.
-/

namespace AssertionLint

/-- Where a declaration comes from. -/
inductive Origin
  /-- The libraries that the document is read against. -/
  | reference
  | document
  deriving DecidableEq, Repr, Inhabited

/-- A type declaration by its place. -/
structure TypeId where
  origin : Origin
  index : Nat
  deriving DecidableEq, Repr, Inhabited

/-- Where a type name is written: the names that can be seen from there. -/
structure TypeScope where
  origin : Origin
  /-- The places of the types around the name, the innermost one first. -/
  enclosing : List Nat
  /-- The namespace around the name. -/
  path : String
  typeParameters : List String
  deriving Inhabited

/-- A declaration with what it is found by. -/
structure TypeEntry where
  fullName : String
  arity : Nat
  id : TypeId
  deriving DecidableEq, Repr, Inhabited

/-- The types that a document can refer to. -/
structure TypeTable where
  reference : Declarations
  document : Declarations
  /-- Every declaration; of those with one name and arity the first one counts. -/
  entries : List TypeEntry
  deriving Inhabited

namespace TypeSymbol

/-- A type that was not found by the given name. -/
def unresolved (name : String) : TypeSymbol := { unknown with name := name }

end TypeSymbol

namespace Declarations

/-- The namespace, the types around a type and its own name, joined by dots. -/
def fullName (declarations : Declarations) (index : Nat) : String :=
  TypeSymbol.qualify (declarations.container index)
    ((declarations.types[index]?.map (·.name)).getD "")

/-- The declarations with what they are found by, the last one first. -/
def entries (declarations : Declarations) (origin : Origin) : List TypeEntry :=
  (declarations.types.zipIdx.map fun (type, index) =>
    ⟨declarations.fullName index, type.arity, ⟨origin, index⟩⟩).reverse

/-- The place of a type and the places of the types around it, the innermost one first; at most
`fuel` types are followed outwards. -/
def outwardsWithin (declarations : Declarations) : Nat → Nat → List Nat
  | 0, _ => []
  | fuel + 1, index =>
    match declarations.types[index]? with
    | none => []
    | some type =>
      index ::
        match type.outer with
        | none => []
        | some outer => declarations.outwardsWithin fuel outer

/-- The place of a type and the places of the types around it, the innermost one first. -/
def outwards (declarations : Declarations) (index : Nat) : List Nat :=
  declarations.outwardsWithin (declarations.types.length + 1) index

/-- The type parameters of several types, in their order. -/
def typeParametersOf (declarations : Declarations) (indices : List Nat) : List String :=
  indices.flatMap fun index => (declarations.types[index]?.map (·.typeParameters)).getD []

end Declarations

namespace TypeTable

/-- The table of a document that is read against other declarations. -/
def ofDeclarations (reference document : Declarations) : TypeTable :=
  ⟨reference, document, document.entries .document ++ reference.entries .reference⟩

/-- The declarations of one origin. -/
def declarations (table : TypeTable) : Origin → Declarations
  | .reference => table.reference
  | .document => table.document

def decl? (table : TypeTable) (id : TypeId) : Option TypeDecl :=
  (table.declarations id.origin).types[id.index]?

def fullName (table : TypeTable) (id : TypeId) : String :=
  (table.declarations id.origin).fullName id.index

/-- The declaration with a full name and a number of type parameters. -/
def find? (table : TypeTable) (fullName : String) (arity : Nat) : Option TypeId :=
  (table.entries.find? fun entry => entry.arity == arity && entry.fullName == fullName).map (·.id)

/-- The declaration that a type comes from. -/
def idOf? (table : TypeTable) (type : TypeSymbol) : Option TypeId :=
  match type.kind with
  | .array => table.find? "System.Array" 0
  | .typeParameter | .null | .error | .void => none
  | _ => table.find? type.fullName type.arity

/-- A declared type with the given type arguments. -/
def symbolOf (table : TypeTable) (id : TypeId) (typeArguments : List TypeSymbol) : TypeSymbol :=
  match table.decl? id with
  | none => .unknown
  | some type =>
    { TypeSymbol.named ((table.declarations id.origin).container id.index) type.name type.kind with
      typeArguments := typeArguments
      isRefLike := type.isRefLike }

/-- The type with a full name and type arguments. -/
def constructed (table : TypeTable) (fullName : String) (typeArguments : List TypeSymbol) :
    TypeSymbol :=
  match table.find? fullName typeArguments.length with
  | some id => table.symbolOf id typeArguments
  | none => .unresolved fullName

/-- The type with a full name and no type arguments. -/
def wellKnown (table : TypeTable) (fullName : String) : TypeSymbol := table.constructed fullName []

/-- A type that the language gives a meaning. -/
def special (table : TypeTable) (special : SpecialType) : TypeSymbol :=
  match special with
  | .void => .named "System" "Void" .void
  | _ =>
    match special.fullName? with
    | some fullName => table.wellKnown fullName
    | none => .unknown

/-- The type that all others derive from. -/
def object (table : TypeTable) : TypeSymbol := table.special .object

/-- A value type with `null` added to it. -/
def nullableOf (table : TypeTable) (inner : TypeSymbol) : TypeSymbol :=
  table.constructed "System.Nullable" [inner]

/-- The scope that the members of a type are written in. -/
def memberScope (table : TypeTable) (id : TypeId) : TypeScope :=
  let declarations := table.declarations id.origin
  let enclosing := declarations.outwards id.index
  { origin := id.origin, enclosing
    path := ((table.decl? id).map (·.enclosing)).getD ""
    typeParameters := declarations.typeParametersOf enclosing }

/-- A declared type over its own type parameters. -/
def selfType (table : TypeTable) (id : TypeId) : TypeSymbol :=
  table.symbolOf id (((table.decl? id).map (·.typeParameters)).getD [] |>.map .typeParameter)

/-- The dotted name is a namespace. -/
def isNamespace (table : TypeTable) (path : String) : Bool :=
  table.reference.namespaces.contains path || table.document.namespaces.contains path

end TypeTable

end AssertionLint
