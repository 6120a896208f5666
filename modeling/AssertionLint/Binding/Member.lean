import AssertionLint.Binding.Bound
import AssertionLint.TypeTable.Supertypes

/-!
# Members

Looking up a name on a type. The nearest type that declares the name decides whether it is a
property, a field or a method; methods are collected from all supertypes.
-/

namespace AssertionLint.TypeTable

/-- A supertype with its declaration. -/
structure MemberOwner where
  symbol : TypeSymbol
  id : TypeId
  declaration : TypeDecl
  deriving Inhabited

/-- The supertypes of a type that have a declaration. -/
def declaredSupertypes (table : TypeTable) (type : TypeSymbol) : List MemberOwner :=
  (table.supertypes type).filterMap fun owner => do
    let id ← table.idOf? owner
    pure ⟨owner, id, ← table.decl? id⟩

/-- The supertypes whose members can be named on a type; the interfaces of an array cannot. -/
def memberOwners (table : TypeTable) (type : TypeSymbol) : List MemberOwner :=
  (table.declaredSupertypes type).filter fun owner =>
    !(type.kind == .array && owner.symbol.kind == .interface)

/-- The type of a member as its owner sees it. -/
def memberType (table : TypeTable) (owner : MemberOwner) (written : TypeExpr) : TypeSymbol :=
  (table.resolve (table.memberScope owner.id) written).substitute
    (table.substitution owner.id owner.symbol)

/-- The property or field of the given name. -/
def memberValue? (table : TypeTable) (owner : MemberOwner) (name : String) : Option Bound :=
  match owner.declaration.properties.find? (·.name == name) with
  | some property =>
    let type := table.memberType owner property.type
    some (.value type (some (.property ⟨property.name, owner.symbol, type, property.isStatic⟩)))
  | none =>
    (owner.declaration.fields.find? (·.name == name)).map fun field =>
      let type := table.memberType owner field.type
      .value type
        (some (.field ⟨field.name, owner.symbol, type, field.isStatic, field.isConst⟩))

/-- The methods of an owner that pass a test. -/
def methodsOf (owner : MemberOwner) (test : MethodDecl → Bool) : List MethodCandidate :=
  (owner.declaration.methods.zipIdx.filter fun (method, _) => test method).map
    fun (method, place) => ⟨owner.symbol, owner.id, place, method, false⟩

def memberMethods (owner : MemberOwner) (name : String) : List MethodCandidate :=
  methodsOf owner fun method => method.kind == .ordinary && method.name == name

/-- A type itself declares a property, a field or a method of the given name. -/
def declares (owner : MemberOwner) (name : String) : Bool :=
  owner.declaration.properties.any (·.name == name) ||
    owner.declaration.fields.any (·.name == name) || !(memberMethods owner name).isEmpty

/-- The extension methods of the given name that can be seen from a scope. -/
def extensionMethods (table : TypeTable) (scope : TypeScope) (name : String) :
    List MethodCandidate :=
  (table.extensionHolders scope).flatMap fun id =>
    match table.decl? id with
    | none => []
    | some declaration =>
      (methodsOf ⟨table.symbolOf id [], id, declaration⟩ fun method =>
        method.isExtension && method.name == name).map
          fun candidate => { candidate with isReduced := true }

def writtenArguments (table : TypeTable) (scope : TypeScope) (name : SimpleName) :
    List TypeSymbol :=
  table.resolveAll scope (name.typeArguments.getD [])

/-- A name on a type. A name with type arguments is never a property or a field. The receiver is
the type of the value in front of the dot; only then are there extensions. -/
def member (table : TypeTable) (scope : TypeScope) (type : TypeSymbol) (name : SimpleName)
    (receiver : Option TypeSymbol) : Bound :=
  let owners := table.memberOwners type
  let nearest := owners.find? (declares · name.identifier)
  let value :=
    if name.typeArguments.isNone then nearest.bind (table.memberValue? · name.identifier) else none
  match value with
  | some value => value
  | none =>
    let candidates := owners.flatMap fun owner => memberMethods owner name.identifier
    let extensions :=
      match receiver with
      | some receiver =>
        if receiver.isUnknown then [] else table.extensionMethods scope name.identifier
      | none => []
    if candidates.isEmpty && extensions.isEmpty then .unknown
    else
      .methods ⟨receiver, table.writtenArguments scope name, candidates, extensions⟩

/-- Adds candidates that are not there yet. -/
def addCandidates (found : List MethodCandidate) (candidates : List MethodCandidate) :
    List MethodCandidate :=
  candidates.foldl (fun found candidate =>
    if found.any fun other => other.id == candidate.id && other.place == candidate.place then found
    else found ++ [candidate]) found

/-- The operators with the given token that the types of the operands declare. Special types have
none. -/
def operatorMethods (table : TypeTable) (token : String) (operands : List TypeSymbol) :
    List MethodCandidate :=
  (operands.filter fun type => !type.isUnknown && type.special == .none).foldl
    (fun found type => addCandidates found ((table.declaredSupertypes type).flatMap fun owner =>
      methodsOf owner fun method =>
        method.kind == .operator && method.name == token &&
          method.parameters.length == operands.length)) []

end AssertionLint.TypeTable
