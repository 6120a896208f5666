import AssertionLint.Proofs.Binding.MethodGroup
import AssertionLint.Proofs.TypeTable.Library

/-!
# The reference surface in a table

A document that declares no type where the reference surface looks for its own types, and none
inside a type of the surface (`Declarations.KeepsReference`), changes nothing about these types: in
its table they have the supertypes, members and signatures that they have in the table of a document
that declares nothing (`Declarations.KeepsReference.memberOwners_eq`,
`Declarations.KeepsReference.signature_eq`).
-/

namespace AssertionLint

/-- The namespaces in which the reference surface looks for types. -/
def Reference.visible : List String :=
  ["", "System", "System.Collections", "System.Collections.Generic", "System.Linq",
    "NUnit", "NUnit.Framework", "NUnit.Framework.Constraints", "NUnit.Framework.Legacy"]

/-- No type of the document stands where the reference surface looks for one of its own types, and
none stands inside such a type. -/
def Declarations.KeepsReference (declarations : Declarations) : Prop :=
  ∀ index < declarations.types.length, ∀ type ∈ Reference.declarations.types,
    (∀ path ∈ Reference.visible,
      declarations.fullName index ≠ TypeSymbol.qualify path type.name) ∧
      ¬(type.enclosing ++ "." ++ type.name ++ ".").toList <+:
        (declarations.fullName index).toList

instance (declarations : Declarations) : Decidable declarations.KeepsReference :=
  inferInstanceAs (Decidable
    (∀ index < declarations.types.length, ∀ type ∈ Reference.declarations.types, _))

namespace TypeExpr

mutual

/-- The type is written with keywords, names of the reference surface and the given type
parameters. -/
def isOfSurface (typeParameters : List String) : TypeExpr → Bool
  | predefined _ _ => true
  | named none name typeArguments _ =>
    (Reference.declarations.types.any (·.name == name) ||
      (typeArguments.isEmpty && typeParameters.contains name)) &&
      areOfSurface typeParameters typeArguments
  | named (some _) _ _ _ => false
  | array element _ _ => isOfSurface typeParameters element
  | nullable inner _ => isOfSurface typeParameters inner
  | inferred _ | other _ _ => true

def areOfSurface (typeParameters : List String) : List TypeExpr → Bool
  | [] => true
  | type :: rest => isOfSurface typeParameters type && areOfSurface typeParameters rest

end

end TypeExpr

/-- The types that a declaration is written with are those of the reference surface. -/
structure TypeDecl.IsOfSurface (typeParameters : List String) (type : TypeDecl) : Prop where
  bases : TypeExpr.areOfSurface typeParameters type.bases = true
  methods : ∀ method ∈ type.methods,
    (∀ parameter ∈ method.parameters,
      parameter.type.all (·.isOfSurface (typeParameters ++ method.typeParameters)) = true) ∧
    method.returnType.isOfSurface (typeParameters ++ method.typeParameters) = true
  properties : ∀ property ∈ type.properties, property.type.isOfSurface typeParameters = true
  fields : ∀ field ∈ type.fields, field.type.isOfSurface typeParameters = true
  conversions : type.conversions.length = 0

instance (typeParameters : List String) (type : TypeDecl) :
    Decidable (type.IsOfSurface typeParameters) :=
  decidable_of_iff
    (TypeExpr.areOfSurface typeParameters type.bases = true ∧
      (∀ method ∈ type.methods,
        (∀ parameter ∈ method.parameters,
          parameter.type.all (·.isOfSurface (typeParameters ++ method.typeParameters)) = true) ∧
        method.returnType.isOfSurface (typeParameters ++ method.typeParameters) = true) ∧
      (∀ property ∈ type.properties, property.type.isOfSurface typeParameters = true) ∧
      (∀ field ∈ type.fields, field.type.isOfSurface typeParameters = true) ∧
      type.conversions.length = 0)
    ⟨fun ⟨bases, methods, properties, fields, conversions⟩ =>
        ⟨bases, methods, properties, fields, conversions⟩,
      fun ⟨bases, methods, properties, fields, conversions⟩ =>
        ⟨bases, methods, properties, fields, conversions⟩⟩

/-- A known type without parts that no constant converts to. -/
structure TypeSymbol.IsAtomic (type : TypeSymbol) : Prop where
  known : type.isUnknown = false
  notNullable : type.isNullableValueType = false
  noArguments : type.typeArguments = []
  noElement : type.elementType = none
  noRange : type.special.constantRange? = none

instance (type : TypeSymbol) : Decidable type.IsAtomic :=
  decidable_of_iff
    (type.isUnknown = false ∧ type.isNullableValueType = false ∧ type.typeArguments = [] ∧
      type.elementType = none ∧ type.special.constantRange? = none)
    ⟨fun ⟨known, notNullable, noArguments, noElement, noRange⟩ =>
        ⟨known, notNullable, noArguments, noElement, noRange⟩,
      fun ⟨known, notNullable, noArguments, noElement, noRange⟩ =>
        ⟨known, notNullable, noArguments, noElement, noRange⟩⟩

namespace TypeTable

variable {path name : String} {arity index : Nat} {symbol : TypeSymbol} {id : TypeId}
  {type : TypeDecl}

/-- A full name where the reference surface looks for one of its types, or one behind such a
type. -/
def IsOfSurface (path : String) : Prop :=
  ∃ type ∈ Reference.declarations.types,
    (∃ inside ∈ Reference.visible, path = TypeSymbol.qualify inside type.name) ∨
      (type.enclosing ++ "." ++ type.name ++ ".").toList <+: path.toList

/-- A name that a type of the reference surface has. -/
def IsTypeName (name : String) : Prop := ∃ type ∈ Reference.declarations.types, type.name = name

/-- Every type of the surface stands in a named namespace that the surface looks into. -/
theorem enclosing_reference : ∀ type ∈ Reference.declarations.types,
    type.enclosing ∈ Reference.visible ∧ type.enclosing.isEmpty = false := by
  decide +kernel

theorem qualify_enclosing {type : TypeDecl} (isType : type ∈ Reference.declarations.types)
    (name : String) : TypeSymbol.qualify type.enclosing name = type.enclosing ++ "." ++ name := by
  rw [TypeSymbol.qualify, (enclosing_reference type isType).2]
  rfl

theorem isOfSurface_wellKnown {type : TypeDecl} (isType : type ∈ Reference.declarations.types) :
    IsOfSurface (type.enclosing ++ "." ++ type.name) :=
  ⟨type, isType, .inl ⟨type.enclosing, (enclosing_reference type isType).1,
    (qualify_enclosing isType type.name).symm⟩⟩

/-- No type of the surface stands inside another one. -/
theorem fullName_reference : ∀ index < Reference.declarations.types.length,
    ∀ type ∈ Reference.declarations.types[index]?,
      library.fullName ⟨.reference, index⟩ = type.enclosing ++ "." ++ type.name ∧
        (library.memberScope ⟨.reference, index⟩).typeParameters = type.typeParameters ∧
        ∀ inside ∈ (library.memberScope ⟨.reference, index⟩).enclosing,
          inside < Reference.declarations.types.length := by
  decide

/-- A scope of the surface sees its own types and namespaces. -/
structure SeesSurface (scope : TypeScope) : Prop where
  origin : scope.origin = .reference
  enclosing : ∀ index ∈ scope.enclosing, index < Reference.declarations.types.length
  path : ∀ path ∈ namespacesAround scope.path, path ∈ Reference.visible

theorem visible_reference :
    (∀ path ∈ Reference.visible, ∀ around ∈ namespacesAround path, around ∈ Reference.visible) ∧
    ∀ path ∈ Reference.declarations.usings ++ implicitUsings, path ∈ Reference.visible := by
  decide

theorem seesSurface_memberScope (isType : Reference.declarations.types[index]? = some type) :
    SeesSurface (library.memberScope ⟨.reference, index⟩) where
  origin := rfl
  enclosing :=
    (fullName_reference index (List.getElem?_eq_some_iff.mp isType).1 type isType).2.2
  path := by
    have isPath : (library.memberScope ⟨.reference, index⟩).path = type.enclosing := by
      have isDecl : library.decl? ⟨.reference, index⟩ = some type := isType
      rw [memberScope, isDecl]
      rfl
    rw [isPath]
    exact visible_reference.1 _ (enclosing_reference type (List.mem_of_getElem? isType)).1

theorem SeesSurface.withTypeParameters {scope : TypeScope} (sees : SeesSurface scope)
    (typeParameters : List String) :
    SeesSurface { scope with typeParameters := typeParameters } :=
  ⟨sees.origin, sees.enclosing, sees.path⟩

theorem isOfSurface_inside {scope : TypeScope} (sees : SeesSurface scope) (name : String)
    (isPath : path ∈ scope.enclosing.map fun index => library.fullName ⟨.reference, index⟩) :
    IsOfSurface (TypeSymbol.qualify path name) := by
  rcases List.mem_map.mp isPath with ⟨index, isAround, rfl⟩
  have inside := sees.enclosing index isAround
  have isType := List.getElem?_eq_getElem inside
  have isFull := (fullName_reference index inside _ isType).1
  generalize Reference.declarations.types[index] = type at isType isFull
  refine ⟨type, List.mem_of_getElem? isType, .inr ?_⟩
  rw [isFull, TypeSymbol.qualify]
  split
  · rename_i isEmpty
    simp at isEmpty
  · simp [List.append_assoc]

theorem isOfSurface_visible {scope : TypeScope} (sees : SeesSurface scope)
    (isName : IsTypeName name) (isPath : path ∈ library.visibleNamespaces scope) :
    IsOfSurface (TypeSymbol.qualify path name) := by
  rcases isName with ⟨type, isType, rfl⟩
  refine ⟨type, isType, .inl ⟨path, ?_, rfl⟩⟩
  unfold visibleNamespaces at isPath
  rw [sees.origin, List.append_assoc] at isPath
  rcases List.mem_append.mp isPath with isAround | isUsing
  · exact sees.path path isAround
  · exact visible_reference.2 path isUsing

theorem exists_of_find?_library (isFound : library.find? path arity = some id) :
    ∃ index type, id = ⟨.reference, index⟩ ∧ Reference.declarations.types[index]? = some type ∧
      type.arity = arity := by
  rcases exists_of_find?_ofDeclarations isFound with ⟨type, isDecl, sameArity, -⟩
  rcases id with ⟨origin, index⟩
  cases origin with
  | reference => exact ⟨index, type, rfl, isDecl, sameArity⟩
  | document => simp [decl?, TypeTable.declarations, ofDeclarations, Declarations.empty] at isDecl

/-- The base library comes first on the surface. -/
theorem baseNames_eq : Reference.baseNames =
    (Reference.declarations.types.take Reference.baseNames.length).map fun type =>
      type.enclosing ++ "." ++ type.name := by
  decide

theorem exists_of_mem_baseNames (isName : path ∈ Reference.baseNames) :
    ∃ type ∈ Reference.declarations.types, path = type.enclosing ++ "." ++ type.name := by
  rw [baseNames_eq] at isName
  rcases List.mem_map.mp isName with ⟨type, isType, rfl⟩
  exact ⟨type, List.mem_of_mem_take isType, rfl⟩

theorem isOfSurface_of_mem_baseNames (isName : path ∈ Reference.baseNames) : IsOfSurface path := by
  rcases exists_of_mem_baseNames isName with ⟨type, isType, rfl⟩
  exact isOfSurface_wellKnown isType

theorem isOfSurface_of_mem_impliedNames (isName : path ∈ impliedNames) : IsOfSurface path :=
  isOfSurface_of_mem_baseNames (subset_baseNames.2 isName)

theorem found_eq {document : Declarations} {found : Option TypeId}
    (isReference : ∀ id ∈ found, id.origin = .reference) (name : String)
    (typeArguments : List TypeSymbol) :
    (ofDeclarations Reference.declarations document).found found name typeArguments =
      library.found found name typeArguments := by
  cases found with
  | none => rfl
  | some id =>
    rcases id with ⟨origin, index⟩
    cases isReference _ rfl
    rfl

theorem origin_of_lookup?_library {scope : TypeScope} (isFound : library.lookup? scope name arity =
    some id) : id.origin = .reference := by
  rcases exists_find?_of_lookup? isFound with ⟨path, isFound⟩
  rcases exists_of_find?_library isFound with ⟨index, -, rfl, -⟩
  rfl

theorem isTypeName_of_any (isName : Reference.declarations.types.any (·.name == name) = true) :
    IsTypeName name := by
  simpa [IsTypeName] using isName

/-- Everything that the surface declares is written with its own types. -/
theorem isOfSurface_reference : ∀ type ∈ Reference.declarations.types,
    type.IsOfSurface type.typeParameters := by
  decide +kernel

theorem isOfSurface_getElem (isType : Reference.declarations.types[index]? = some type) :
    type.IsOfSurface (library.memberScope ⟨.reference, index⟩).typeParameters := by
  rw [(fullName_reference index (List.getElem?_eq_some_iff.mp isType).1 type isType).2.1]
  exact isOfSurface_reference type (List.mem_of_getElem? isType)

section

variable (document : Declarations)

theorem decl?_reference (index : Nat) :
    (ofDeclarations Reference.declarations document).decl? ⟨.reference, index⟩ =
      Reference.declarations.types[index]? :=
  rfl

theorem memberScope_reference (index : Nat) :
    (ofDeclarations Reference.declarations document).memberScope ⟨.reference, index⟩ =
      library.memberScope ⟨.reference, index⟩ :=
  rfl

theorem substitution_reference (index : Nat) (symbol : TypeSymbol) :
    (ofDeclarations Reference.declarations document).substitution ⟨.reference, index⟩ symbol =
      library.substitution ⟨.reference, index⟩ symbol :=
  rfl

end

theorem isConsistent_library : library.IsConsistent :=
  isConsistent_ofDeclarations (by simp [Declarations.AreDeclared, Declarations.empty])

/-- What is found in the library is declared there. -/
theorem exists_of_idOf?_library (isFound : library.idOf? symbol = some id) :
    ∃ index type, id = ⟨.reference, index⟩ ∧ Reference.declarations.types[index]? = some type := by
  unfold idOf? at isFound
  split at isFound
  · rcases exists_of_find?_library isFound with ⟨index, type, isId, isType, -⟩
    exact ⟨index, type, isId, isType⟩
  · cases isFound
  · cases isFound
  · cases isFound
  · cases isFound
  · rcases exists_of_find?_library isFound with ⟨index, type, isId, isType, -⟩
    exact ⟨index, type, isId, isType⟩

/-- A supertype with its declaration on the surface. -/
structure MemberOwner.IsOfSurface (owner : MemberOwner) : Prop where
  exists_index : ∃ index, owner.id = ⟨.reference, index⟩ ∧
    Reference.declarations.types[index]? = some owner.declaration
  isType : library.IsType owner.symbol

theorem isOfSurface_of_mem_memberOwners {owner : MemberOwner} (isType : library.IsType symbol)
    (isOwner : owner ∈ library.memberOwners symbol) : owner.IsOfSurface := by
  rcases List.mem_filterMap.mp (List.mem_of_mem_filter isOwner) with
    ⟨base, isBase, isFound⟩
  rcases Option.bind_eq_some_iff.mp isFound with ⟨id, isId, isFound⟩
  rcases Option.bind_eq_some_iff.mp isFound with ⟨declaration, isDecl, same⟩
  cases same
  rcases exists_of_idOf?_library isId with ⟨index, type, rfl, isType'⟩
  exact ⟨⟨index, rfl, isDecl⟩, isConsistent_library.isType_of_mem_supertypes isType isBase⟩

/-- The property or field of the library that a name behind a type stands for. -/
def memberValueOf? (symbol : TypeSymbol) (name : String) : Option Bound :=
  ((library.memberOwners symbol).find? (declares · name)).bind (library.memberValue? · name)

/-- The methods of the library that a name behind a type stands for. -/
def memberCandidates (symbol : TypeSymbol) (name : String) : List MethodCandidate :=
  (library.memberOwners symbol).flatMap (memberMethods · name)

end TypeTable

namespace Declarations.KeepsReference

open TypeTable

variable {document : Declarations} (keeps : document.KeepsReference) {path name : String}
  {arity index : Nat} {symbol : TypeSymbol} {type : TypeDecl}

include keeps

theorem find?_eq (isOfSurface : IsOfSurface path) :
    (ofDeclarations Reference.declarations document).find? path arity =
      library.find? path arity := by
  have noEntry : ((document.entries .document).find? fun entry =>
      entry.arity == arity && entry.fullName == path) = none := by
    rw [List.find?_eq_none]
    intro entry isEntry
    rw [Declarations.entries, List.mem_reverse, List.mem_map] at isEntry
    rcases isEntry with ⟨⟨type, index⟩, isType, rfl⟩
    have inside := (List.getElem?_eq_some_iff.mp
      (List.mk_mem_zipIdx_iff_getElem?.mp isType)).1
    rcases isOfSurface with ⟨taken, isTaken, isPath⟩
    rcases keeps index inside taken isTaken with ⟨notName, notInside⟩
    have other : document.fullName index ≠ path := by
      rintro rfl
      rcases isPath with ⟨inside, isVisible, same⟩ | within
      · exact notName inside isVisible same
      · exact notInside within
    simp [other]
  rw [find?, ofDeclarations, List.find?_append, noEntry]
  rfl

theorem constructed_eq (isOfSurface : IsOfSurface path)
    (typeArguments : List TypeSymbol) :
    (ofDeclarations Reference.declarations document).constructed path typeArguments =
      library.constructed path typeArguments := by
  rw [constructed, constructed, keeps.find?_eq isOfSurface]
  cases isFound : library.find? path typeArguments.length with
  | none => rfl
  | some id =>
    rcases exists_of_find?_library isFound with ⟨index, -, rfl, -⟩
    rfl

theorem keepsLibrary : document.KeepsLibrary := by
  intro index inside name isName
  rcases exists_of_mem_baseNames isName with ⟨type, isType, rfl⟩
  rcases keeps index inside type isType with ⟨notName, notInside⟩
  refine ⟨?_, notInside⟩
  rw [← qualify_enclosing isType]
  exact notName type.enclosing (enclosing_reference type isType).1

theorem special_eq (special : SpecialType) :
    (ofDeclarations Reference.declarations document).special special = library.special special :=
  special_ofDeclarations keeps.keepsLibrary special

theorem findInside?_eq (name : String) (arity : Nat) {paths : List String}
    (areOfSurface : ∀ path ∈ paths, IsOfSurface (TypeSymbol.qualify path name)) :
    (ofDeclarations Reference.declarations document).findInside? paths name arity =
      library.findInside? paths name arity := by
  induction paths with
  | nil => rfl
  | cons path rest ih =>
    rw [List.forall_mem_cons] at areOfSurface
    simp only [findInside?] at ih
    simp only [findInside?, List.findSome?_cons, keeps.find?_eq areOfSurface.1,
      ih areOfSurface.2]

theorem lookup?_eq {scope : TypeScope} (sees : SeesSurface scope) (isName : IsTypeName name) :
    (ofDeclarations Reference.declarations document).lookup? scope name arity =
      library.lookup? scope name arity := by
  have around := keeps.findInside?_eq name arity fun path isPath =>
    isOfSurface_inside sees name isPath
  have visible := keeps.findInside?_eq name arity fun path isPath =>
    isOfSurface_visible sees isName isPath
  rcases scope with ⟨origin, enclosing, path, typeParameters⟩
  cases sees.origin
  rw [lookup?, lookup?]
  exact congrArg₂ (fun found otherwise => found <|> otherwise) around visible

omit keeps

mutual

/-- What the surface writes stands for the same type whatever the document declares. -/
theorem resolve_eq (keeps : document.KeepsReference) {scope : TypeScope}
    (sees : SeesSurface scope) (written : TypeExpr)
    (isOfSurface : written.isOfSurface scope.typeParameters = true) :
    (ofDeclarations Reference.declarations document).resolve scope written =
      library.resolve scope written := by
  cases written with
  | predefined keyword span => simp only [resolve, keeps.special_eq]
  | named qualifier name typeArguments span =>
    cases qualifier with
    | some qualifier => simp [TypeExpr.isOfSurface] at isOfSurface
    | none =>
      rw [TypeExpr.isOfSurface, Bool.and_eq_true, Bool.or_eq_true] at isOfSurface
      have arguments_eq := resolveAll_eq keeps sees typeArguments isOfSurface.2
      simp only [resolve, arguments_eq]
      split
      · rfl
      · rename_i noParameter
        rcases isOfSurface.1 with isName | isParameter
        · rw [keeps.lookup?_eq sees (isTypeName_of_any isName)]
          exact found_eq (fun id isFound => origin_of_lookup?_library isFound) _ _
        · rw [Bool.and_eq_true, List.isEmpty_iff] at isParameter
          rw [isParameter.1] at noParameter
          exact absurd isParameter.2 (by simpa [resolveAll] using noParameter)
  | array element rank span =>
    rw [TypeExpr.isOfSurface] at isOfSurface
    simp only [resolve, resolve_eq keeps sees element isOfSurface]
  | nullable inner span =>
    rw [TypeExpr.isOfSurface] at isOfSurface
    have isNullable : IsOfSurface "System.Nullable" :=
      isOfSurface_of_mem_impliedNames (by simp [impliedNames])
    simp only [resolve, resolve_eq keeps sees inner isOfSurface, nullableOf,
      keeps.constructed_eq isNullable]
  | inferred span => rfl
  | other text span => rfl

theorem resolveAll_eq (keeps : document.KeepsReference) {scope : TypeScope}
    (sees : SeesSurface scope) (written : List TypeExpr)
    (areOfSurface : TypeExpr.areOfSurface scope.typeParameters written = true) :
    (ofDeclarations Reference.declarations document).resolveAll scope written =
      library.resolveAll scope written := by
  cases written with
  | nil => rfl
  | cons type rest =>
    rw [TypeExpr.areOfSurface, Bool.and_eq_true] at areOfSurface
    rw [resolveAll, resolveAll, resolve_eq keeps sees type areOfSurface.1,
      resolveAll_eq keeps sees rest areOfSurface.2]

end

include keeps

/-- A type of the surface is found by its full name. -/
theorem idOf?_eq (isType : library.IsType symbol) :
    (ofDeclarations Reference.declarations document).idOf? symbol = library.idOf? symbol := by
  cases isType with
  | @declared id type typeArguments isDecl arity areTypes =>
    have isOfSurface : IsOfSurface (library.symbolOf id typeArguments).fullName := by
      rw [fullName_symbolOf isDecl]
      rcases id with ⟨origin, index⟩
      cases origin with
      | reference =>
        rw [(fullName_reference index (List.getElem?_eq_some_iff.mp isDecl).1 type isDecl).1]
        exact isOfSurface_wellKnown (List.mem_of_getElem? isDecl)
      | document =>
        simp [decl?, TypeTable.declarations, library, ofDeclarations, Declarations.empty] at isDecl
    have isArray : IsOfSurface "System.Array" :=
      isOfSurface_of_mem_impliedNames (by simp [impliedNames])
    simp only [idOf?, keeps.find?_eq isOfSurface, keeps.find?_eq isArray]
  | array isType => exact keeps.find?_eq (isOfSurface_of_mem_impliedNames (by simp [impliedNames]))
  | typeParameter | null | void | unresolved => rfl

theorem declaredBases_eq (isType : Reference.declarations.types[index]? = some type)
    (symbol : TypeSymbol) :
    (ofDeclarations Reference.declarations document).declaredBases ⟨.reference, index⟩ type symbol =
      library.declaredBases ⟨.reference, index⟩ type symbol := by
  rw [declaredBases, declaredBases, memberScope_reference, substitution_reference,
    resolveAll_eq keeps (seesSurface_memberScope isType) type.bases
      (isOfSurface_getElem isType).bases]

theorem directSupertypes_eq (isType : library.IsType symbol) :
    (ofDeclarations Reference.declarations document).directSupertypes symbol =
      library.directSupertypes symbol := by
  have wellKnown_eq (path : String) (isName : path ∈ impliedNames)
      (typeArguments : List TypeSymbol) :=
    keeps.constructed_eq (isOfSurface_of_mem_impliedNames isName) typeArguments
  have array := wellKnown_eq "System.Array" (by simp [impliedNames]) []
  have enum := wellKnown_eq "System.Enum" (by simp [impliedNames]) []
  have delegate := wellKnown_eq "System.Delegate" (by simp [impliedNames]) []
  have interfaces (element : TypeSymbol) : arrayInterfaces.map (fun name =>
      (ofDeclarations Reference.declarations document).constructed name [element]) =
        arrayInterfaces.map fun name => library.constructed name [element] := by
    exact List.map_congr_left fun name isName =>
      wellKnown_eq name (List.mem_append_right _ isName) _
  unfold directSupertypes
  simp only [wellKnown, array, enum, delegate, interfaces, object, keeps.special_eq,
    keeps.idOf?_eq isType]
  split
  · rfl
  · rfl
  · rfl
  · rfl
  · rfl
  · cases isFound : library.idOf? symbol with
    | none => rfl
    | some id =>
      rcases exists_of_idOf?_library isFound with ⟨index, type, rfl, isDecl⟩
      have ofDocument : (ofDeclarations Reference.declarations document).decl? ⟨.reference, index⟩ =
          some type := isDecl
      have ofLibrary : library.decl? ⟨.reference, index⟩ = some type := isDecl
      simp only [ofDocument, ofLibrary, keeps.declaredBases_eq isDecl]

theorem visit_eq (seen round : List TypeSymbol)
    (areTypes : ∀ type ∈ round, library.IsType type) :
    (ofDeclarations Reference.declarations document).visit seen round =
        library.visit seen round ∧
      ∀ type ∈ (library.visit seen round).2, library.IsType type := by
  induction round generalizing seen with
  | nil => exact ⟨rfl, by simp [visit]⟩
  | cons type rest ih =>
    rw [List.forall_mem_cons] at areTypes
    have same := keeps.directSupertypes_eq areTypes.1
    simp only [visit, same, fun seen => (ih seen areTypes.2).1, true_and]
    split
    · exact (ih seen areTypes.2).2
    · intro base isNext
      rcases List.mem_append.mp isNext with isBase | isNext
      · exact isConsistent_library.isType_of_mem_directSupertypes areTypes.1 isBase
      · exact (ih _ areTypes.2).2 base isNext

theorem closure_eq (rounds : Nat) (seen round : List TypeSymbol)
    (areTypes : ∀ type ∈ round, library.IsType type) :
    (ofDeclarations Reference.declarations document).closure rounds seen round =
      library.closure rounds seen round := by
  induction rounds generalizing seen round with
  | zero => rfl
  | succ rounds ih =>
    cases round with
    | nil => rfl
    | cons type rest =>
      rcases keeps.visit_eq seen (type :: rest) areTypes with ⟨same, areTypes⟩
      simp only [TypeTable.closure, same]
      exact ih _ _ areTypes

/-- What derives from what on the surface does not depend on the document. -/
theorem supertypes_eq (isType : library.IsType symbol) :
    (ofDeclarations Reference.declarations document).supertypes symbol =
      library.supertypes symbol := by
  unfold supertypes object
  rw [keeps.special_eq, keeps.closure_eq _ _ [symbol] (List.forall_mem_singleton.mpr isType)]

theorem isDerivedFrom_eq (isType : library.IsType symbol)
    (fullName : String) :
    (ofDeclarations Reference.declarations document).isDerivedFrom symbol fullName =
      library.isDerivedFrom symbol fullName := by
  simp only [isDerivedFrom, keeps.supertypes_eq isType]

theorem memberOwners_eq (isType : library.IsType symbol) :
    (ofDeclarations Reference.declarations document).memberOwners symbol =
      library.memberOwners symbol := by
  unfold memberOwners declaredSupertypes
  rw [keeps.supertypes_eq isType]
  refine congrArg _ (List.filterMap_congr fun base isBase => ?_)
  have isType := isConsistent_library.isType_of_mem_supertypes isType isBase
  rw [keeps.idOf?_eq isType]
  cases isFound : library.idOf? base with
  | none => rfl
  | some id =>
    rcases exists_of_idOf?_library isFound with ⟨index, type, rfl, -⟩
    rfl

theorem memberValue?_eq {owner : MemberOwner}
    (isOfSurface : owner.IsOfSurface) (name : String) :
    (ofDeclarations Reference.declarations document).memberValue? owner name =
      library.memberValue? owner name := by
  rcases owner with ⟨symbol, id, declaration⟩
  rcases isOfSurface.exists_index with ⟨index, rfl, isDecl⟩
  have declared := isOfSurface_getElem isDecl
  have memberType_eq {written : TypeExpr} (isOfSurface : written.isOfSurface
      (library.memberScope ⟨.reference, index⟩).typeParameters = true) :
      (ofDeclarations Reference.declarations document).memberType
          ⟨symbol, ⟨.reference, index⟩, declaration⟩ written =
        library.memberType ⟨symbol, ⟨.reference, index⟩, declaration⟩ written := by
    rw [memberType, memberType, memberScope_reference, substitution_reference,
      resolve_eq keeps (seesSurface_memberScope isDecl) written isOfSurface]
  simp only [memberValue?]
  cases isProperty : declaration.properties.find? (·.name == name) with
  | some property =>
    simp only [memberType_eq (declared.properties property (List.mem_of_find?_eq_some isProperty))]
  | none =>
    cases isFound : declaration.fields.find? (·.name == name) with
    | none => simp only [Option.map_none]
    | some field =>
      simp only [Option.map_some,
        memberType_eq (declared.fields field (List.mem_of_find?_eq_some isFound))]

/-- The signature of a method of the surface does not depend on the document. -/
theorem signature_eq {owner : MemberOwner}
    (isOfSurface : owner.IsOfSurface) {candidate : MethodCandidate} {name : String}
    (isCandidate : candidate ∈ memberMethods owner name) :
    (ofDeclarations Reference.declarations document).signature candidate =
      library.signature candidate := by
  rcases isOfSurface.exists_index with ⟨index, isId, isDecl⟩
  rcases List.mem_map.mp isCandidate with ⟨⟨method, place⟩, isMethod, rfl⟩
  have declared := (isOfSurface_getElem isDecl).methods method
    (List.fst_mem_of_mem_zipIdx (List.mem_of_mem_filter isMethod))
  have sees := (seesSurface_memberScope isDecl).withTypeParameters
  simp only [isId, signature, memberScope_reference, substitution_reference]
  refine Prod.ext (List.map_congr_left fun parameter isParameter => ?_) ?_
  · have typeIs := declared.1 parameter isParameter
    cases isType : parameter.type with
    | none => simp only [Option.map_none]
    | some written =>
      rw [isType, Option.all_some] at typeIs
      rw [Option.map_some, Option.map_some, keeps.resolve_eq (sees _) written (by exact typeIs)]
  · rw [keeps.resolve_eq (sees _) _ (by exact declared.2)]

theorem signature_eq_of_mem (isType : library.IsType symbol) {candidate : MethodCandidate}
    (isCandidate : candidate ∈ memberCandidates symbol name) :
    (ofDeclarations Reference.declarations document).signature candidate =
      library.signature candidate := by
  rcases List.mem_flatMap.mp isCandidate with ⟨owner, isOwner, isMethod⟩
  exact keeps.signature_eq (isOfSurface_of_mem_memberOwners isType isOwner) isMethod

theorem bind_memberValue?_eq (isType : library.IsType symbol) (name : String) :
    ((library.memberOwners symbol).find? (declares · name)).bind
        ((ofDeclarations Reference.declarations document).memberValue? · name) =
      memberValueOf? symbol name := by
  refine Option.bind_congr fun owner isOwner => ?_
  exact keeps.memberValue?_eq
    (isOfSurface_of_mem_memberOwners isType (List.mem_of_find?_eq_some isOwner)) name

/-- A value that is a member of a type of the surface is one in every table. -/
theorem member_eq_value (isType : library.IsType symbol) {bound : Bound}
    (isValue : memberValueOf? symbol name = some bound) {simple : SimpleName}
    (isName : simple.identifier = name) (noArguments : simple.typeArguments = none)
    (scope : TypeScope) (receiver : Option TypeSymbol) :
    (ofDeclarations Reference.declarations document).member scope symbol simple receiver =
      bound := by
  simp only [member, keeps.memberOwners_eq isType, isName, noArguments, Option.isNone_none, if_true,
    keeps.bind_memberValue?_eq isType, isValue]

/-- Methods of a type of the surface are the same in every table; where there is a receiver, the
extensions of this name are those of the document. -/
theorem member_eq_methods (isType : library.IsType symbol)
    (noValue : memberValueOf? symbol name = none)
    (nonempty : (memberCandidates symbol name).isEmpty = false) {simple : SimpleName}
    (isName : simple.identifier = name) (scope : TypeScope) {receiver : Option TypeSymbol}
    (noExtensions : receiver.isSome = true →
      (ofDeclarations Reference.declarations document).extensionMethods scope name = []) :
    (ofDeclarations Reference.declarations document).member scope symbol simple receiver =
      .methods ⟨receiver, (ofDeclarations Reference.declarations document).writtenArguments scope
        simple, memberCandidates symbol name, []⟩ := by
  unfold memberCandidates at nonempty
  simp only [member, keeps.memberOwners_eq isType, isName, keeps.bind_memberValue?_eq isType,
    noValue, ite_self, nonempty, Bool.false_and, Bool.false_eq_true, if_false]
  cases receiver with
  | none => rfl
  | some receiver =>
    rw [noExtensions rfl]
    simp only [ite_self]
    rfl

/-- Behind a type of the surface a name stands for a member, since no type stands inside it. -/
theorem bindMember_typeReference {type : TypeDecl}
    (isSurface : type ∈ Reference.declarations.types)
    (isFull : symbol.fullName = type.enclosing ++ "." ++ type.name)
    (noType : ∀ entry ∈ library.entries, entry.fullName ≠ symbol.fullName ++ "." ++ name)
    {simple : SimpleName} (isName : simple.identifier = name) (scope : TypeScope) :
    (ofDeclarations Reference.declarations document).bindMember scope (.typeReference symbol)
        simple =
      (ofDeclarations Reference.declarations document).member scope symbol simple none := by
  have isOfSurface : IsOfSurface (symbol.fullName ++ "." ++ name) := by
    refine ⟨type, isSurface, .inr ?_⟩
    rw [isFull]
    simp [List.append_assoc]
  have notFound (arity : Nat) :
      library.find? (symbol.fullName ++ "." ++ name) arity = none := by
    rw [find?, Option.map_eq_none_iff, List.find?_eq_none]
    intro entry isEntry
    simp [noType entry isEntry]
  rw [bindMember, bindInside, isName, keeps.find?_eq isOfSurface, notFound]

theorem valueConversion?_eq (isType : library.IsType symbol) (destination : TypeSymbol) :
    (ofDeclarations Reference.declarations document).valueConversion? symbol destination =
      library.valueConversion? symbol destination := by
  simp only [valueConversion?, keeps.supertypes_eq isType]

/-- How a type of the surface converts to a type without parts does not depend on the document. -/
theorem standardConversion_eq (isType : library.IsType symbol) {destination : TypeSymbol}
    (noArguments : destination.typeArguments = []) (noElement : destination.elementType = none) :
    (ofDeclarations Reference.declarations document).standardConversion symbol destination =
      library.standardConversion symbol destination := by
  rcases destination with
    ⟨name, container, kind, special, typeArguments, elementType, isRefLike⟩
  cases noArguments
  cases noElement
  unfold standardConversion convertsByReference
  simp only [keeps.valueConversion?_eq isType, keeps.supertypes_eq isType, argumentsConvert]
  cases symbol.elementType <;> rfl

/-- The types of the surface declare no conversions. -/
theorem implicitOperators_eq_nil (isType : library.IsType symbol.underlying) :
    (ofDeclarations Reference.declarations document).implicitOperators symbol = [] := by
  unfold implicitOperators
  rw [keeps.supertypes_eq isType, List.flatMap_eq_nil_iff]
  intro owner isOwner
  rw [keeps.idOf?_eq (isConsistent_library.isType_of_mem_supertypes isType isOwner)]
  cases isFound : library.idOf? owner with
  | none => rfl
  | some id =>
    rcases exists_of_idOf?_library isFound with ⟨index, type, rfl, isDecl⟩
    have noConversions : type.conversions = [] := List.eq_nil_of_length_eq_zero
      (isOfSurface_reference type (List.mem_of_getElem? isDecl)).conversions
    simp [decl?_reference, isDecl, noConversions]

/-- A type of the surface converts to an atomic one only as it does in the library. -/
theorem exists_exprConversion_eq {destination : TypeSymbol} (isType : library.IsType symbol)
    (notNullable : symbol.isNullableValueType = false)
    (isType' : library.IsType destination) (atomic : destination.IsAtomic) (expr : Expr) :
    ((ofDeclarations Reference.declarations document).exprConversion expr symbol
      destination).exists = (library.standardConversion symbol destination).exists := by
  have own {type : TypeSymbol} (notNullable : type.isNullableValueType = false) :
      type.underlying = type := by
    simp [TypeSymbol.underlying, TypeSymbol.underlying?, notNullable]
  have noOperators := keeps.implicitOperators_eq_nil ((own notNullable).symm ▸ isType)
  have noOperators' := keeps.implicitOperators_eq_nil ((own atomic.notNullable).symm ▸ isType')
  have noConstant : constantConversion? symbol destination expr = none := by
    simp [constantConversion?, SpecialType.constantFits, atomic.noRange, TypeSymbol.underlying?,
      atomic.notNullable]
  simp only [exprConversion, keeps.standardConversion_eq isType atomic.noArguments
    atomic.noElement, noConstant, hasUserDefinedConversion, noOperators, noOperators',
    List.append_nil, List.any_nil, Bool.and_false, Bool.false_eq_true, if_false]
  split
  · rfl
  · rename_i notStandard
    rw [Bool.not_eq_true] at notStandard
    rw [notStandard]
    rfl

theorem slotConverts_eq {slot : ArgumentSlot} {expr : Expr} (isExpr : slot.expr = some expr)
    (isTyped : slot.type = some symbol) (isType : library.IsType symbol)
    (notNullable : symbol.isNullableValueType = false) {destination : TypeSymbol}
    (isType' : library.IsType destination) (atomic : destination.IsAtomic) :
    (ofDeclarations Reference.declarations document).slotConverts slot destination =
      (library.standardConversion symbol destination).exists := by
  rcases slot with ⟨label, _, _⟩
  cases isTyped
  cases isExpr
  simp only [slotConverts, atomic.known, Bool.false_or]
  exact keeps.exists_exprConversion_eq isType notNullable isType' atomic expr

/-- An argument with a type of the surface converts only as this type does in the library. -/
theorem exists_of_slotConverts {slot : ArgumentSlot} (isTyped : slot.type = some symbol)
    (isType : library.IsType symbol) (notNullable : symbol.isNullableValueType = false)
    {destination : TypeSymbol} (isType' : library.IsType destination)
    (atomic : destination.IsAtomic)
    (converts : (ofDeclarations Reference.declarations document).slotConverts slot destination =
      true) :
    (library.standardConversion symbol destination).exists = true := by
  cases isExpr : slot.expr with
  | none =>
    simp only [slotConverts, isTyped, isExpr, atomic.known, Bool.false_or,
      keeps.standardConversion_eq isType atomic.noArguments atomic.noElement] at converts
    cases isConversion : library.standardConversion symbol destination <;>
      simp_all [Conversion.exists]
  | some expr =>
    rwa [keeps.slotConverts_eq isExpr isTyped isType notNullable isType' atomic] at converts

end Declarations.KeepsReference

end AssertionLint
