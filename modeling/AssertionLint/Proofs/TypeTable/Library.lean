import AssertionLint.Proofs.Syntax.Declared
import AssertionLint.Proofs.TypeTable.Types

/-!
# The base library in a table

What a table knows about objects, arrays and collections as long as its document leaves the names
of the base library alone (`Declarations.KeepsLibrary`): the collections of one element type derive
from each other as the library declares it, whatever else the document declares
(`TypeTable.hasLibrary_ofDeclarations`).
-/

namespace AssertionLint

/-- The full names of the types of the base library. -/
def Reference.baseNames : List String :=
  [system, collections, genericCollections, linq].flatMap fun stub =>
    stub.types.map fun type => TypeSymbol.qualify stub.name type.name

/-- No type has the full name of a type of the base library, or a full name that goes on behind
one. -/
def Declarations.KeepsLibrary (declarations : Declarations) : Prop :=
  ∀ index < declarations.types.length, ∀ name ∈ Reference.baseNames,
    declarations.fullName index ≠ name ∧
      ¬(name ++ ".").toList <+: (declarations.fullName index).toList

instance (declarations : Declarations) : Decidable declarations.KeepsLibrary :=
  inferInstanceAs (Decidable (∀ index < declarations.types.length, ∀ name ∈ Reference.baseNames, _))

namespace TypeTable

/-- The namespace of the typed collections. -/
def collectionNamespace : String := "System.Collections.Generic"

/-- An interface of the typed collections over an element type. -/
def collectionOf (name : String) (element : TypeSymbol) : TypeSymbol :=
  { TypeSymbol.named collectionNamespace name .interface with typeArguments := [element] }

/-- The interfaces whose type argument may be replaced by a supertype. -/
def covariantNames : List String := ["IEnumerable", "IReadOnlyCollection"]

/-- A table knows about objects, arrays and typed collections what the base library declares. -/
structure HasLibrary (table : TypeTable) : Prop extends table.IsConsistent where
  object_eq : table.object = .named "System" "Object" .class
  object : table.directSupertypes table.object = []
  array : ∀ element, table.directSupertypes (.arrayOf element) =
    table.wellKnown "System.Array" ::
      ["IList", "ICollection", "IEnumerable", "IReadOnlyCollection"].map (collectionOf · element)
  list : ∀ element, table.directSupertypes (collectionOf "IList" element) =
    [collectionOf "ICollection" element]
  collection : ∀ element, table.directSupertypes (collectionOf "ICollection" element) =
    [collectionOf "IEnumerable" element]
  readOnly : ∀ element, table.directSupertypes (collectionOf "IReadOnlyCollection" element) =
    [collectionOf "IEnumerable" element]
  sequence : ∃ bases, ∀ element, table.directSupertypes (collectionOf "IEnumerable" element) = bases
  special : ∀ {id type}, table.decl? id = some type → ∀ typeArguments,
    (table.symbolOf id typeArguments).isReferenceType = true →
      (table.symbolOf id typeArguments).special.wider = [] ∧
        (table.symbolOf id typeArguments).special ≠ .nullable
  covariant : ∀ {id type typeArguments}, table.decl? id = some type →
    typeArguments.length = type.arity → (table.symbolOf id typeArguments).isCovariant = true →
      ∃ name ∈ covariantNames, ∃ element, typeArguments = [element] ∧
        table.symbolOf id typeArguments = collectionOf name element

/-- The table of a document that declares nothing. -/
def library : TypeTable := .ofDeclarations Reference.declarations .empty

/-- The library declares an interface of the typed collections at a place. -/
structure IsCollection (index : Nat) (name : String) (bases : List TypeExpr) : Prop where
  declared : ∃ type, Reference.declarations.types[index]? = some type ∧ type.name = name ∧
    type.enclosing = collectionNamespace ∧ type.outer = none ∧ type.kind = .interface ∧
    type.isRefLike = false ∧ type.typeParameters = ["T"] ∧ type.bases = bases
  found : library.find? (TypeSymbol.qualify collectionNamespace name) 1 =
    some ⟨.reference, index⟩
  isBaseName : TypeSymbol.qualify collectionNamespace name ∈ Reference.baseNames

/-- The full name, the number of type parameters and the place of the type of all objects and of
the typed collections. -/
def libraryPlaces : List (String × Nat × Nat) :=
  [("System.Object", 0, 0), (TypeSymbol.qualify collectionNamespace "IEnumerable", 1, 42),
    (TypeSymbol.qualify collectionNamespace "IReadOnlyCollection", 1, 43),
    (TypeSymbol.qualify collectionNamespace "ICollection", 1, 44),
    (TypeSymbol.qualify collectionNamespace "IList", 1, 45)]

theorem find?_library : ∀ entry ∈ libraryPlaces,
    library.find? entry.1 entry.2.1 = some ⟨.reference, entry.2.2⟩ ∧
      entry.1 ∈ Reference.baseNames := by
  decide

theorem find?_object :
    library.find? "System.Object" 0 = some ⟨.reference, 0⟩ ∧
      "System.Object" ∈ Reference.baseNames :=
  find?_library ("System.Object", 0, 0) List.mem_cons_self

theorem isCollection_of_mem {index : Nat} {name : String} {bases : List TypeExpr}
    (declared : ∃ type, Reference.declarations.types[index]? = some type ∧ type.name = name ∧
      type.enclosing = collectionNamespace ∧ type.outer = none ∧ type.kind = .interface ∧
      type.isRefLike = false ∧ type.typeParameters = ["T"] ∧ type.bases = bases)
    (isPlace : (TypeSymbol.qualify collectionNamespace name, 1, index) ∈ libraryPlaces) :
    IsCollection index name bases :=
  ⟨declared, (find?_library _ isPlace).1, (find?_library _ isPlace).2⟩

open Reference in
theorem isCollection_list : IsCollection 45 "IList" [generic "ICollection" [named "T"]] :=
  isCollection_of_mem ⟨_, rfl, rfl, rfl, rfl, rfl, rfl, rfl, rfl⟩ (by simp [libraryPlaces])

open Reference in
theorem isCollection_collection :
    IsCollection 44 "ICollection" [generic "IEnumerable" [named "T"]] :=
  isCollection_of_mem ⟨_, rfl, rfl, rfl, rfl, rfl, rfl, rfl, rfl⟩ (by simp [libraryPlaces])

open Reference in
theorem isCollection_readOnly :
    IsCollection 43 "IReadOnlyCollection" [generic "IEnumerable" [named "T"]] :=
  isCollection_of_mem ⟨_, rfl, rfl, rfl, rfl, rfl, rfl, rfl, rfl⟩ (by simp [libraryPlaces])

open Reference in
theorem isCollection_sequence : IsCollection 42 "IEnumerable" [named "IEnumerable"] :=
  isCollection_of_mem ⟨_, rfl, rfl, rfl, rfl, rfl, rfl, rfl, rfl⟩ (by simp [libraryPlaces])

variable {reference document : Declarations} {name path : String} {arity : Nat} {id : TypeId}
  {type : TypeDecl}

/-- A full name of the library, or one behind it. -/
def IsReserved (path : String) : Prop :=
  ∃ name ∈ Reference.baseNames, path = name ∨ (name ++ ".").toList <+: path.toList

theorem isReserved_of_mem (isName : path ∈ Reference.baseNames) : IsReserved path :=
  ⟨path, isName, .inl rfl⟩

theorem isReserved_object : IsReserved "System.Object" := isReserved_of_mem find?_object.2

theorem ne_fullName_of_isReserved (keeps : document.KeepsLibrary) (reserved : IsReserved path)
    {index : Nat} (inside : index < document.types.length) : document.fullName index ≠ path := by
  rcases reserved with ⟨name, isName, rfl | behind⟩
  · exact (keeps index inside path isName).1
  · rintro rfl
    exact (keeps index inside name isName).2 behind

theorem find?_of_isReserved (keeps : document.KeepsLibrary) (reserved : IsReserved path) :
    (ofDeclarations Reference.declarations document).find? path arity =
      library.find? path arity := by
  have noEntry : ((document.entries .document).find? fun entry =>
      entry.arity == arity && entry.fullName == path) = none := by
    rw [List.find?_eq_none]
    intro entry isEntry
    rw [Declarations.entries, List.mem_reverse, List.mem_map] at isEntry
    rcases isEntry with ⟨⟨type, index⟩, isType, rfl⟩
    have inside := (List.getElem?_eq_some_iff.mp
      (List.mk_mem_zipIdx_iff_getElem?.mp isType)).1
    simp [ne_fullName_of_isReserved keeps reserved inside]
  rw [find?, ofDeclarations, List.find?_append, noEntry]
  rfl

theorem isReserved_qualify (isName : path ∈ Reference.baseNames) (some : path.isEmpty = false) :
    IsReserved (TypeSymbol.qualify path name) := by
  refine ⟨path, isName, .inr ?_⟩
  rw [TypeSymbol.qualify, some]
  simp [String.toList_append]

/-- A declaration is found by its own full name and arity only. -/
theorem exists_of_find?_ofDeclarations
    (isFound : (ofDeclarations reference document).find? path arity = some id) :
    ∃ type, (ofDeclarations reference document).decl? id = some type ∧ type.arity = arity ∧
      (ofDeclarations reference document).fullName id = path := by
  rcases Option.map_eq_some_iff.mp isFound with ⟨entry, isEntry, rfl⟩
  have accepted := List.find?_some isEntry
  rw [Bool.and_eq_true, beq_iff_eq, beq_iff_eq] at accepted
  have ofEntries {declarations : Declarations} {origin : Origin}
      (isEntry : entry ∈ declarations.entries origin) :
      ∃ type index, declarations.types[index]? = some type ∧
        entry = ⟨declarations.fullName index, type.arity, ⟨origin, index⟩⟩ := by
    rw [Declarations.entries, List.mem_reverse, List.mem_map] at isEntry
    rcases isEntry with ⟨⟨type, index⟩, isType, rfl⟩
    exact ⟨type, index, List.mk_mem_zipIdx_iff_getElem?.mp isType, rfl⟩
  rcases List.mem_append.mp (List.mem_of_find?_eq_some isEntry) with isEntry | isEntry
  all_goals
    rcases ofEntries isEntry with ⟨type, index, isType, rfl⟩
    exact ⟨type, isType, accepted.1, accepted.2⟩

theorem fullName_symbolOf {table : TypeTable} {typeArguments : List TypeSymbol}
    (isDecl : table.decl? id = some type) :
    (table.symbolOf id typeArguments).fullName = table.fullName id := by
  have named : (table.declarations id.origin).types[id.index]?.map (·.name) = some type.name := by
    rw [decl?] at isDecl
    rw [isDecl]
    rfl
  simp [symbolOf, isDecl, TypeSymbol.fullName, TypeSymbol.named, TypeTable.fullName,
    Declarations.fullName, named]

theorem special_symbolOf {table : TypeTable} {typeArguments : List TypeSymbol}
    (isDecl : table.decl? id = some type) :
    (table.symbolOf id typeArguments).special = .ofFullName (table.fullName id) := by
  rw [← fullName_symbolOf isDecl, symbolOf, isDecl]
  rfl

/-- The type arguments are the only part of a declared type that is not declared. -/
theorem symbolOf_eq_of_arguments {table : TypeTable} {typeArguments : List TypeSymbol}
    (isDecl : table.decl? id = some type) :
    table.symbolOf id typeArguments =
      { table.symbolOf id [] with typeArguments := typeArguments } := by
  simp [symbolOf, isDecl]

/-- What a table makes of a declaration of the library does not depend on the document. -/
theorem constructed_of_isReserved (keeps : document.KeepsLibrary) (reserved : IsReserved path)
    (typeArguments : List TypeSymbol) {index : Nat}
    (isFound : library.find? path typeArguments.length = some ⟨.reference, index⟩) :
    (ofDeclarations Reference.declarations document).constructed path typeArguments =
      library.symbolOf ⟨.reference, index⟩ typeArguments := by
  rw [constructed, find?_of_isReserved keeps reserved, isFound]
  rfl

theorem object_ofDeclarations (keeps : document.KeepsLibrary) :
    (ofDeclarations Reference.declarations document).object = .named "System" "Object" .class :=
  (constructed_of_isReserved keeps isReserved_object [] find?_object.1).trans (by decide)

theorem directSupertypes_object (keeps : document.KeepsLibrary) :
    (ofDeclarations Reference.declarations document).directSupertypes
      (ofDeclarations Reference.declarations document).object = [] := by
  have isId : (ofDeclarations Reference.declarations document).idOf?
      (.named "System" "Object" .class) = some ⟨.reference, 0⟩ :=
    (find?_of_isReserved keeps isReserved_object).trans find?_object.1
  have isDecl : ∃ type, (ofDeclarations Reference.declarations document).decl? ⟨.reference, 0⟩ =
      some type ∧ type.kind = .class ∧ type.bases = [] := ⟨_, rfl, rfl, rfl⟩
  rcases isDecl with ⟨type, isDecl, kind, bases⟩
  have isClass : (TypeSymbol.named "System" "Object" .class).kind = .class := rfl
  have special : (TypeSymbol.named "System" "Object" .class).special = .object := by decide
  rw [object_ofDeclarations keeps, directSupertypes]
  simp [isClass, isId, isDecl, kind, declaredBases, bases, resolveAll, special]

namespace IsCollection

variable {index further : Nat} {bases others : List TypeExpr} {base : String}
  {element : TypeSymbol}

/-- The element type in the place of the type parameter of an interface. -/
theorem substitute_collectionOf (element : TypeSymbol) :
    (collectionOf name (.typeParameter "T")).substitute (.ofLists ["T"] [element]) =
      collectionOf name element := by
  have argument : (TypeSymbol.typeParameter "T").substitute (.ofLists ["T"] [element]) =
      element := by
    rw [TypeSymbol.typeParameter, TypeSymbol.substitute.eq_def]
    rfl
  rw [substitute_eq _ (by simp [collectionOf, TypeSymbol.named])]
  simp [collectionOf, argument, TypeSymbol.named, TypeSymbol.empty]

theorem container_eq (isCollection : IsCollection index name bases) :
    Reference.declarations.container index = collectionNamespace := by
  rcases isCollection.declared with ⟨type, isType, -, enclosing, outer, -⟩
  rw [Declarations.container, Declarations.containerWithin]
  simp [isType, outer, enclosing]

theorem symbolOf_eq (isCollection : IsCollection index name bases) :
    (ofDeclarations Reference.declarations document).symbolOf ⟨.reference, index⟩ [element] =
      collectionOf name element := by
  rcases isCollection.declared with ⟨type, isType, named, -, -, kind, isRefLike, -⟩
  have isDecl : (ofDeclarations Reference.declarations document).decl? ⟨.reference, index⟩ =
      some type := isType
  have container : ((ofDeclarations Reference.declarations document).declarations
      .reference).container index = collectionNamespace := isCollection.container_eq
  simp [symbolOf, isDecl, container, named, kind, isRefLike, collectionOf, TypeSymbol.named,
    TypeSymbol.empty]

theorem exists_of_symbolOf (isCollection : IsCollection index name bases) {type : TypeDecl}
    {typeArguments : List TypeSymbol} (isDecl : Reference.declarations.types[index]? = some type)
    (arity : typeArguments.length = type.arity) (isCovariant : name ∈ covariantNames) :
    ∃ name ∈ covariantNames, ∃ element, typeArguments = [element] ∧
      (ofDeclarations Reference.declarations document).symbolOf ⟨.reference, index⟩
        typeArguments = collectionOf name element := by
  rcases isCollection.declared with ⟨declared, isDeclared, -, -, -, -, -, parameters, -⟩
  rw [Option.some.inj (isDecl.symm.trans isDeclared), TypeDecl.arity, parameters] at arity
  rcases List.length_eq_one_iff.mp arity with ⟨element, rfl⟩
  exact ⟨name, isCovariant, element, rfl, isCollection.symbolOf_eq⟩

theorem memberScope_eq (isCollection : IsCollection index name bases) :
    (ofDeclarations Reference.declarations document).memberScope ⟨.reference, index⟩ =
      ⟨.reference, [index], collectionNamespace, ["T"]⟩ := by
  rcases isCollection.declared with ⟨type, isType, -, enclosing, outer, -, -, parameters, -⟩
  have isDecl : (ofDeclarations Reference.declarations document).decl? ⟨.reference, index⟩ =
      some type := isType
  have outwards : Reference.declarations.outwards index = [index] := by
    rw [Declarations.outwards, Declarations.outwardsWithin]
    simp [isType, outer]
  have declarations : (ofDeclarations Reference.declarations document).declarations .reference =
      Reference.declarations := rfl
  simp [memberScope, isDecl, declarations, outwards, enclosing, Declarations.typeParametersOf,
    isType, parameters]

variable (keeps : document.KeepsLibrary)

include keeps

theorem find?_eq (isCollection : IsCollection index name bases) :
    (ofDeclarations Reference.declarations document).find?
      (TypeSymbol.qualify collectionNamespace name) 1 = some ⟨.reference, index⟩ :=
  (find?_of_isReserved keeps (isReserved_of_mem isCollection.isBaseName)).trans isCollection.found

theorem constructed_eq (isCollection : IsCollection index name bases) :
    (ofDeclarations Reference.declarations document).constructed
      (TypeSymbol.qualify collectionNamespace name) [element] = collectionOf name element :=
  (constructed_of_isReserved keeps (isReserved_of_mem isCollection.isBaseName) [element]
    isCollection.found).trans isCollection.symbolOf_eq

theorem directSupertypes_eq (isCollection : IsCollection index name bases) :
    (ofDeclarations Reference.declarations document).directSupertypes (collectionOf name element) =
      ((((ofDeclarations Reference.declarations document).resolveAll
        ⟨.reference, [index], collectionNamespace, ["T"]⟩ bases).map
          (·.substitute (.ofLists ["T"] [element]))).filter (!·.isUnknown)) := by
  rcases isCollection.declared with ⟨type, isType, -, -, -, kind, -, -, rfl⟩
  have isDecl : (ofDeclarations Reference.declarations document).decl? ⟨.reference, index⟩ =
      some type := isType
  have isId : (ofDeclarations Reference.declarations document).idOf? (collectionOf name element) =
      some ⟨.reference, index⟩ := isCollection.find?_eq keeps
  have isInterface : (collectionOf name element).kind = .interface := rfl
  simp only [directSupertypes, isInterface, isId, isDecl, kind, declaredBases, substitution,
    isCollection.memberScope_eq]
  rfl

/-- An interface that derives from another one over the same element type. -/
theorem directSupertypes_collectionOf
    (isCollection : IsCollection index name [Reference.generic base [Reference.named "T"]])
    (isBase : IsCollection further base others)
    (notInside : library.find? (TypeSymbol.qualify
      (TypeSymbol.qualify collectionNamespace name) base) 1 = none) :
    (ofDeclarations Reference.declarations document).directSupertypes (collectionOf name element) =
      [collectionOf base element] := by
  let table := ofDeclarations Reference.declarations document
  let scope : TypeScope := ⟨.reference, [index], collectionNamespace, ["T"]⟩
  have fullName : table.fullName ⟨.reference, index⟩ =
      TypeSymbol.qualify collectionNamespace name := by
    rcases isCollection.declared with ⟨type, isType, named, -⟩
    have container : (table.declarations .reference).container index = collectionNamespace :=
      isCollection.container_eq
    have isType : (table.declarations .reference).types[index]? = some type := isType
    rw [TypeTable.fullName, Declarations.fullName, container, isType]
    simp [named]
  have isFound : table.lookup? scope base 1 = some ⟨.reference, further⟩ := by
    have inside : table.findInside? [TypeSymbol.qualify collectionNamespace name] base 1 =
        none := by
      have reserved : IsReserved
          (TypeSymbol.qualify (TypeSymbol.qualify collectionNamespace name) base) :=
        isReserved_qualify isCollection.isBaseName
          (by simp [TypeSymbol.qualify, collectionNamespace])
      simp [findInside?, find?_of_isReserved keeps reserved, notInside, table]
    have around : table.findInside? (table.visibleNamespaces scope) base 1 =
        some ⟨.reference, further⟩ := by
      simp [findInside?, visibleNamespaces, namespacesAround, scope, isBase.find?_eq keeps, table]
    rw [lookup?]
    simp only [scope, List.map_cons, List.map_nil, fullName, inside]
    simpa [scope] using around
  have resolved : table.resolveAll scope [Reference.generic base [Reference.named "T"]] =
      [collectionOf base (.typeParameter "T")] := by
    have argument : table.resolve scope (Reference.named "T") = .typeParameter "T" := by
      rw [Reference.named, resolve]
      simp [resolveAll, scope]
    rw [resolveAll, resolveAll, Reference.generic, resolve]
    simp only [resolveAll, argument]
    simp only [List.isEmpty_cons, Bool.false_and, Bool.false_eq_true, if_false, List.length_cons,
      List.length_nil, isFound]
    exact congrArg (· :: []) isBase.symbolOf_eq
  rw [isCollection.directSupertypes_eq keeps, resolved, List.map_singleton,
    substitute_collectionOf]
  rfl

/-- Without type arguments a base does not depend on the element type. -/
theorem directSupertypes_sequence (consistent : IsConsistent
      (ofDeclarations Reference.declarations document))
    (isCollection : IsCollection index name [Reference.named base]) (noParameter : base ≠ "T") :
    ∃ bases, ∀ element, (ofDeclarations Reference.declarations document).directSupertypes
      (collectionOf name element) = bases := by
  let table := ofDeclarations Reference.declarations document
  let scope : TypeScope := ⟨.reference, [index], collectionNamespace, ["T"]⟩
  have resolved : table.resolveAll scope [Reference.named base] =
      [table.found (table.lookup? scope base 0) base []] := by
    rw [resolveAll, resolveAll, Reference.named, resolve]
    simp [resolveAll, scope, noParameter]
  have unchanged (element : TypeSymbol) :
      (table.found (table.lookup? scope base 0) base []).substitute (.ofLists ["T"] [element]) =
        table.found (table.lookup? scope base 0) base [] := by
    cases isFound : table.lookup? scope base 0 with
    | none => exact substitute_eq _ (by simp [TypeTable.found, TypeSymbol.unresolved,
        TypeSymbol.unknown])
    | some id =>
      rcases exists_find?_of_lookup? isFound with ⟨path, isFound⟩
      rcases consistent.found isFound with ⟨type, isDecl, -⟩
      exact consistent.substitute_symbolOf _ isDecl
  refine ⟨[table.found (table.lookup? scope base 0) base []].filter (!·.isUnknown),
    fun element => ?_⟩
  rw [isCollection.directSupertypes_eq keeps, resolved, List.map_singleton, unchanged]

end IsCollection

/-- The full names of the types that stand above others without being written. -/
def impliedNames : List String :=
  ["System.Array", "System.Delegate", "System.Enum", "System.Nullable"] ++ arrayInterfaces

/-- The types that the language gives a meaning are in the base library. -/
theorem subset_baseNames : (∀ entry ∈ SpecialType.table, entry.2.1 ∈ Reference.baseNames) ∧
    impliedNames ⊆ Reference.baseNames := by
  decide

/-- The types that the language gives a meaning are those of the base library. -/
theorem special_ofDeclarations (keeps : document.KeepsLibrary) (special : SpecialType) :
    (ofDeclarations Reference.declarations document).special special = library.special special := by
  unfold TypeTable.special
  split
  · rfl
  · cases isName : special.fullName? with
    | none => rfl
    | some name =>
      rcases Option.map_eq_some_iff.mp isName with ⟨entry, isEntry, rfl⟩
      have reserved :=
        isReserved_of_mem (subset_baseNames.1 entry (List.mem_of_find?_eq_some isEntry))
      dsimp only [wellKnown]
      cases isFound : library.find? entry.2.1 0 with
      | none => simp [constructed, find?_of_isReserved keeps reserved, isFound]
      | some id =>
        rcases id with ⟨origin, index⟩
        cases origin with
        | reference =>
          rw [constructed_of_isReserved keeps reserved [] isFound, constructed]
          simp [isFound]
        | document =>
          -- the library by itself has no document
          rcases exists_of_find?_ofDeclarations isFound with ⟨type, isDecl, -⟩
          simp [decl?, TypeTable.declarations, ofDeclarations, Declarations.empty] at isDecl

/-- The types of the library are of kinds that can be declared, its references are no numbers, and
only two of its types are covariant and only one adds null to others. -/
theorem forall_reference : ∀ index < Reference.declarations.types.length,
    (Reference.declarations.types[index]?.all (·.kind.isDeclared)) = true ∧
      ((library.symbolOf ⟨.reference, index⟩ []).isReferenceType = true →
        (library.symbolOf ⟨.reference, index⟩ []).special.wider = [] ∧
          (library.symbolOf ⟨.reference, index⟩ []).special ≠ .nullable) ∧
      ((library.symbolOf ⟨.reference, index⟩ []).isCovariant = true → index = 42 ∨ index = 43) ∧
      ((library.symbolOf ⟨.reference, index⟩ []).special = .nullable →
        index = 24 ∧ (Reference.declarations.types[index]?.all (·.arity == 1)) = true) := by
  decide

theorem isDeclared_reference : Reference.declarations.AreDeclared := by
  intro type isType
  rcases List.getElem?_of_mem isType with ⟨index, isType⟩
  have isDeclared := (forall_reference index (List.getElem?_eq_some_iff.mp isType).1).1
  rwa [isType] at isDeclared

/-- A type that the document declares is not special, and none of the covariant interfaces. -/
theorem plain_of_document (keeps : document.KeepsLibrary) {index : Nat}
    (isDecl : document.types[index]? = some type) (typeArguments : List TypeSymbol) :
    ((ofDeclarations reference document).symbolOf ⟨.document, index⟩ typeArguments).special =
        .none ∧
      ((ofDeclarations reference document).symbolOf ⟨.document, index⟩
        typeArguments).isCovariant = false := by
  have isDecl' : (ofDeclarations reference document).decl? ⟨.document, index⟩ = some type := isDecl
  have other : ∀ name ∈ Reference.baseNames,
      (ofDeclarations reference document).fullName ⟨.document, index⟩ ≠ name :=
    fun name isName => ne_fullName_of_isReserved keeps (isReserved_of_mem isName)
      (List.getElem?_eq_some_iff.mp isDecl).1
  constructor
  · have notFound : (SpecialType.table.find? fun entry => entry.2.1 ==
        (ofDeclarations reference document).fullName ⟨.document, index⟩) = none := by
      rw [List.find?_eq_none]
      intro entry isEntry same
      exact other _ (subset_baseNames.1 entry isEntry) (beq_iff_eq.mp same).symm
    rw [special_symbolOf isDecl', SpecialType.ofFullName, notFound]
    rfl
  · rw [TypeSymbol.isCovariant, fullName_symbolOf isDecl', ← Bool.not_eq_true,
      List.contains_iff_mem]
    intro isName
    rcases List.mem_pair.mp isName with same | same
    · exact other _ isCollection_sequence.isBaseName same
    · exact other _ isCollection_readOnly.isBaseName same

theorem isConsistent_ofDeclarations (areDeclared : document.AreDeclared) :
    (ofDeclarations Reference.declarations document).IsConsistent where
  isDeclared := by
    rintro ⟨origin, index⟩ type isDecl
    cases origin with
    | reference => exact isDeclared_reference type (List.mem_of_getElem? isDecl)
    | document => exact areDeclared type (List.mem_of_getElem? isDecl)
  found := exists_of_find?_ofDeclarations

/-- A document that leaves the names of the library alone reads with the library. -/
theorem hasLibrary_ofDeclarations (areDeclared : document.AreDeclared)
    (keeps : document.KeepsLibrary) :
    (ofDeclarations Reference.declarations document).HasLibrary where
  toIsConsistent := isConsistent_ofDeclarations areDeclared
  object_eq := object_ofDeclarations keeps
  object := directSupertypes_object keeps
  array element := by
    have elements : (TypeSymbol.arrayOf element).elementType.getD .unknown = element := rfl
    have names : arrayInterfaces = ["IList", "ICollection", "IEnumerable",
        "IReadOnlyCollection"].map (TypeSymbol.qualify collectionNamespace) := by decide
    have kind : (TypeSymbol.arrayOf element).kind = .array := rfl
    simp only [directSupertypes, kind, elements, names, List.map_cons, List.map_nil,
      isCollection_list.constructed_eq keeps, isCollection_collection.constructed_eq keeps,
      isCollection_sequence.constructed_eq keeps, isCollection_readOnly.constructed_eq keeps]
  list element := isCollection_list.directSupertypes_collectionOf keeps isCollection_collection
    (by decide)
  collection element := isCollection_collection.directSupertypes_collectionOf keeps
    isCollection_sequence (by decide)
  readOnly element := isCollection_readOnly.directSupertypes_collectionOf keeps
    isCollection_sequence (by decide)
  sequence := isCollection_sequence.directSupertypes_sequence keeps
    (isConsistent_ofDeclarations areDeclared) (by decide)
  special := by
    rintro ⟨origin, index⟩ type isDecl typeArguments isReference
    cases origin with
    | reference =>
      rw [symbolOf_eq_of_arguments isDecl] at isReference ⊢
      exact (forall_reference index (List.getElem?_eq_some_iff.mp isDecl).1).2.1 isReference
    | document =>
      rw [(plain_of_document keeps isDecl typeArguments).1]
      exact ⟨rfl, by decide⟩
  covariant := by
    rintro ⟨origin, index⟩ type typeArguments isDecl arity isCovariant
    cases origin with
    | reference =>
      have isPlace : index = 42 ∨ index = 43 := by
        rw [symbolOf_eq_of_arguments isDecl] at isCovariant
        exact (forall_reference index (List.getElem?_eq_some_iff.mp isDecl).1).2.2.1 isCovariant
      rcases isPlace with rfl | rfl
      · exact isCollection_sequence.exists_of_symbolOf isDecl arity (by decide)
      · exact isCollection_readOnly.exists_of_symbolOf isDecl arity (by decide)
    | document => simp [(plain_of_document keeps isDecl typeArguments).2] at isCovariant

end TypeTable

end AssertionLint
