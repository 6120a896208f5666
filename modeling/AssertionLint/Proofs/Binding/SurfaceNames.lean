import AssertionLint.Proofs.Binding.UnlabelledCall
import AssertionLint.Proofs.TypeTable.Framework
import AssertionLint.Proofs.TypeTable.Supertypes

/-!
# Names on the reference surface

No two types of the reference surface share a name and a number of type parameters, so wherever the
surface writes a name, it stands for the one type that has it (`TypeTable.lookup?_library`). The
bases and the members of these types then follow from how they are declared
(`TypeTable.mem_supertypes_surfaceType`, `TypeTable.memberCandidates_surfaceType`).
-/

namespace AssertionLint

/-- The name of a type that is written as a name alone or with a keyword. -/
def TypeExpr.plainName? : TypeExpr → Option String
  | predefined "object" _ => some "Object"
  | predefined "string" _ => some "String"
  | named none name [] _ => some name
  | _ => none

/-- The names of the members that a type declares itself. -/
def TypeDecl.memberNames (type : TypeDecl) : List String :=
  type.methods.map (·.name) ++ type.properties.map (·.name) ++ type.fields.map (·.name)

namespace Reference

/-- The bytes of a text. -/
def bytes (text : String) : List UInt8 := text.toByteArray.data.toList

/-- The bytes of a text as the digits of a number. -/
def code (text : String) : Nat :=
  (bytes text).foldl (fun code byte => code * 256 + byte.toNat) 0

/-- The byte of a dot. -/
def dot : UInt8 := 46

/-- The names of the surface have no dots, and differ where the numbers of type parameters do
not. -/
theorem names_reference :
    (declarations.types.map fun type => (code type.name, type.arity)).Nodup ∧
      ∀ type ∈ declarations.types, dot ∉ bytes type.name := by
  decide

theorem bytes_injective {text other : String} (same : bytes text = bytes other) : text = other :=
  String.toByteArray_inj.mp (ByteArray.ext (Array.ext' same))

theorem bytes_qualify {path : String} (isNamed : path.isEmpty = false) (name : String) :
    bytes (TypeSymbol.qualify path name) = bytes path ++ dot :: bytes name := by
  have ofDot : bytes "." = [dot] := by decide
  have append (text other : String) : bytes (text ++ other) = bytes text ++ bytes other := by
    simp [bytes, String.toByteArray_append, ByteArray.data_append]
  rw [TypeSymbol.qualify, isNamed, if_neg Bool.false_ne_true, append, append, ofDot]
  simp

/-- What stands behind the last dot of a qualified name is the name. -/
theorem name_eq_of_qualify_eq {path other name name' : String} (noDot : dot ∉ bytes name)
    (noDot' : dot ∉ bytes name')
    (same : TypeSymbol.qualify path name = TypeSymbol.qualify other name') : name = name' := by
  have unnamed {path name : String} (isUnnamed : path.isEmpty = true) :
      TypeSymbol.qualify path name = name := by
    rw [TypeSymbol.qualify, if_pos isUnnamed]
  cases isNamed : path.isEmpty <;> cases isNamed' : other.isEmpty
  · have bytes_eq := congrArg bytes same
    rw [bytes_qualify isNamed, bytes_qualify isNamed'] at bytes_eq
    refine bytes_injective ?_
    rcases List.append_eq_append_iff.mp bytes_eq with ⟨between, -, behind⟩ | ⟨between, -, behind⟩
    · cases between with
      | nil => exact (List.cons.inj behind).2
      | cons => exact absurd ((List.cons.inj behind).2 ▸ by simp) noDot
    · cases between with
      | nil => exact (List.cons.inj behind).2.symm
      | cons => exact absurd ((List.cons.inj behind).2 ▸ by simp) noDot'
  · rw [unnamed isNamed'] at same
    rw [← same, bytes_qualify isNamed] at noDot'
    simp at noDot'
  · rw [unnamed isNamed] at same
    rw [same, bytes_qualify isNamed'] at noDot
    simp at noDot
  · rwa [unnamed isNamed, unnamed isNamed'] at same

variable {index other : Nat} {type type' : TypeDecl}

theorem index_eq_of_name (isType : declarations.types[index]? = some type)
    (isType' : declarations.types[other]? = some type') (sameName : type.name = type'.name)
    (sameArity : type.arity = type'.arity) : index = other := by
  have inside := (List.getElem?_eq_some_iff.mp isType).1
  refine (List.getElem?_inj (by simpa using inside) names_reference.1).mp ?_
  rw [List.getElem?_map, List.getElem?_map, isType, isType', Option.map_some, Option.map_some,
    sameName, sameArity]

/-- The type without type parameters that has a name, with its place. -/
def plain? (name : String) : Option (TypeDecl × Nat) :=
  declarations.types.zipIdx.find? fun (type, _) =>
    type.name == name && type.typeParameters.isEmpty

variable {name : String}

theorem isType_of_plain? (isPlain : plain? name = some (type, index)) :
    declarations.types[index]? = some type :=
  List.mk_mem_zipIdx_iff_getElem?.mp (List.mem_of_find?_eq_some isPlain)

theorem name_of_plain? (isPlain : plain? name = some (type, index)) :
    type.name = name ∧ type.typeParameters = [] := by
  simpa using List.find?_some isPlain

theorem arity_of_plain? (isPlain : plain? name = some (type, index)) : type.arity = 0 := by
  rw [TypeDecl.arity, (name_of_plain? isPlain).2, List.length_nil]

/-- The name stands for a type wherever the surface writes it. -/
def IsVisible (name : String) : Prop :=
  ∃ entry ∈ plain? name, entry.1.enclosing ∈ declarations.usings

instance (name : String) : Decidable (IsVisible name) :=
  inferInstanceAs (Decidable (∃ entry ∈ plain? name, _))

/-- Names of classes and interfaces, among them all bases of these types. -/
structure IsClosed (names : List String) : Prop where
  hasObject : "Object" ∈ names
  isPlain : ∀ name ∈ names, ∃ entry ∈ plain? name,
    (entry.1.kind = .class ∨ entry.1.kind = .interface) ∧
      ∀ written ∈ entry.1.bases, ∃ base ∈ written.plainName?, base ∈ names ∧ IsVisible base

instance (names : List String) : Decidable (IsClosed names) :=
  decidable_of_iff
    ("Object" ∈ names ∧ ∀ name ∈ names, ∃ entry ∈ plain? name,
      (entry.1.kind = .class ∨ entry.1.kind = .interface) ∧
        ∀ written ∈ entry.1.bases, ∃ base ∈ written.plainName?, base ∈ names ∧ IsVisible base)
    ⟨fun ⟨hasObject, isPlain⟩ => ⟨hasObject, isPlain⟩,
      fun ⟨hasObject, isPlain⟩ => ⟨hasObject, isPlain⟩⟩

end Reference

namespace TypeTable

variable {index : Nat} {type : TypeDecl} {id : TypeId} {path name : String}

/-- The name of a type of the surface is found for this type only. -/
theorem eq_of_find?_library (isType : Reference.declarations.types[index]? = some type)
    (isFound : library.find? (TypeSymbol.qualify path type.name) type.arity = some id) :
    id = ⟨.reference, index⟩ := by
  rcases exists_of_find?_library isFound with ⟨other, type', rfl, isType', sameArity⟩
  rcases exists_of_find?_ofDeclarations isFound with ⟨-, -, -, isFull⟩
  have isFull' := (fullName_reference other (List.getElem?_eq_some_iff.mp isType').1 _ isType').1
  rw [← qualify_enclosing (List.mem_of_getElem? isType')] at isFull'
  have sameName : type.name = type'.name :=
    Reference.name_eq_of_qualify_eq (Reference.names_reference.2 _ (List.mem_of_getElem? isType))
      (Reference.names_reference.2 _ (List.mem_of_getElem? isType')) (isFull.symm.trans isFull')
  rw [Reference.index_eq_of_name isType isType' sameName sameArity.symm]

theorem find?_library_self (isType : Reference.declarations.types[index]? = some type) :
    library.find? (TypeSymbol.qualify type.enclosing type.name) type.arity =
      some ⟨.reference, index⟩ := by
  have isSome : (library.find? (TypeSymbol.qualify type.enclosing type.name)
      type.arity).isSome = true := by
    have isFull := (fullName_reference index (List.getElem?_eq_some_iff.mp isType).1 _ isType).1
    rw [← qualify_enclosing (List.mem_of_getElem? isType)] at isFull
    rw [find?, Option.isSome_map, List.find?_isSome]
    refine ⟨⟨library.fullName ⟨.reference, index⟩, type.arity, ⟨.reference, index⟩⟩, ?_, ?_⟩
    · refine List.mem_append_right _ (List.mem_reverse.mpr ?_)
      refine List.mem_map.mpr ⟨(type, index), ?_, rfl⟩
      exact List.mk_mem_zipIdx_iff_getElem?.mpr isType
    · simp [isFull]
  rcases Option.isSome_iff_exists.mp isSome with ⟨id, isFound⟩
  rw [isFound, eq_of_find?_library isType isFound]

theorem eq_of_findInside?_library (isType : Reference.declarations.types[index]? = some type)
    {paths : List String}
    (isFound : library.findInside? paths type.name type.arity = some id) :
    id = ⟨.reference, index⟩ := by
  rcases List.exists_of_findSome?_eq_some isFound with ⟨path, -, isFound⟩
  exact eq_of_find?_library isType isFound

/-- A name that the surface can see stands for the type that has it. -/
theorem lookup?_library (isType : Reference.declarations.types[index]? = some type)
    {scope : TypeScope} (isVisible : type.enclosing ∈ library.visibleNamespaces scope) :
    library.lookup? scope type.name type.arity = some ⟨.reference, index⟩ := by
  have isSome : (library.findInside? (library.visibleNamespaces scope) type.name
      type.arity).isSome = true :=
    List.findSome?_isSome_iff.mpr ⟨_, isVisible, by rw [find?_library_self isType]; rfl⟩
  rcases Option.isSome_iff_exists.mp isSome with ⟨id, isFound⟩
  have visible := eq_of_findInside?_library isType isFound ▸ isFound
  unfold lookup?
  dsimp only
  cases around : library.findInside?
      (scope.enclosing.map fun index => library.fullName ⟨scope.origin, index⟩) type.name
        type.arity with
  | none =>
    rw [visible]
    rfl
  | some id =>
    rw [eq_of_findInside?_library isType around]
    rfl

/-- The type without type parameters that the surface declares with a name. -/
def surfaceType (name : String) : TypeSymbol :=
  match Reference.plain? name with
  | some (_, index) => library.symbolOf ⟨.reference, index⟩ []
  | none => .unresolved name

theorem special_library : library.object = surfaceType "Object" ∧
    library.special .string = surfaceType "String" := by
  decide

section

variable (isPlain : Reference.plain? name = some (type, index))

include isPlain

theorem surfaceType_eq : surfaceType name = library.symbolOf ⟨.reference, index⟩ [] := by
  rw [surfaceType, isPlain]

theorem decl?_of_plain? : library.decl? ⟨.reference, index⟩ = some type :=
  Reference.isType_of_plain? isPlain

theorem kind_surfaceType : (surfaceType name).kind = type.kind := by
  rw [surfaceType_eq isPlain, symbolOf, decl?_of_plain? isPlain]
  rfl

theorem name_surfaceType : (surfaceType name).name = name := by
  rw [surfaceType_eq isPlain, symbolOf, decl?_of_plain? isPlain]
  exact (Reference.name_of_plain? isPlain).1

theorem elementType_surfaceType : (surfaceType name).elementType = none := by
  rw [surfaceType_eq isPlain, symbolOf, decl?_of_plain? isPlain]
  rfl

theorem fullName_surfaceType :
    (surfaceType name).fullName = TypeSymbol.qualify type.enclosing name := by
  have isType := Reference.isType_of_plain? isPlain
  rw [surfaceType_eq isPlain, fullName_symbolOf (decl?_of_plain? isPlain),
    (fullName_reference index (List.getElem?_eq_some_iff.mp isType).1 _ isType).1,
    ← qualify_enclosing (List.mem_of_getElem? isType), (Reference.name_of_plain? isPlain).1]

theorem isType_surfaceType : library.IsType (surfaceType name) := by
  rw [surfaceType_eq isPlain]
  exact .declared (decl?_of_plain? isPlain) (Reference.arity_of_plain? isPlain).symm (by simp)

theorem isClosed_surfaceType : (surfaceType name).isClosed = true := by
  have isDeclared := isConsistent_library.isDeclared (decl?_of_plain? isPlain)
  rw [surfaceType_eq isPlain, symbolOf, decl?_of_plain? isPlain]
  cases isKind : type.kind <;> simp_all [TypeSymbol.isClosed, TypeSymbol.named, TypeSymbol.empty,
    TypeKind.isDeclared, TypeSymbol.areClosed]

theorem substitute_surfaceType (substitution : Substitution) :
    (surfaceType name).substitute substitution = surfaceType name :=
  TypeSymbol.substitute_of_isClosed _ _ (isClosed_surfaceType isPlain)

theorem known_surfaceType : (surfaceType name).isUnknown = false := by
  have isDeclared := isConsistent_library.isDeclared (decl?_of_plain? isPlain)
  rw [TypeSymbol.isUnknown, kind_surfaceType isPlain]
  cases isKind : type.kind <;> simp_all [TypeKind.isDeclared]

theorem find?_surfaceType :
    library.find? (TypeSymbol.qualify type.enclosing name) 0 = some ⟨.reference, index⟩ := by
  have isFound := find?_library_self (Reference.isType_of_plain? isPlain)
  rwa [(Reference.name_of_plain? isPlain).1, Reference.arity_of_plain? isPlain] at isFound

theorem idOf?_surfaceType : library.idOf? (surfaceType name) = some ⟨.reference, index⟩ := by
  have isDeclared : (surfaceType name).kind.isDeclared = true := by
    rw [kind_surfaceType isPlain]
    exact isConsistent_library.isDeclared (decl?_of_plain? isPlain)
  have noArguments : (surfaceType name).arity = 0 := by
    rw [surfaceType_eq isPlain, symbolOf, decl?_of_plain? isPlain]
    rfl
  rw [idOf?_of_isDeclared isDeclared, fullName_surfaceType isPlain, noArguments,
    find?_surfaceType isPlain]

/-- A name that is written on the surface stands for the type of this name. -/
theorem resolve_surfaceType (isVisible : Reference.IsVisible name) {scope : TypeScope}
    (ofReference : scope.origin = .reference) (noParameter : name ∉ scope.typeParameters)
    {written : TypeExpr} (isName : written.plainName? = some name) :
    library.resolve scope written = surfaceType name := by
  have isSeen : type.enclosing ∈ library.visibleNamespaces scope := by
    have isUsing : type.enclosing ∈ Reference.declarations.usings := by
      simpa [Reference.IsVisible, isPlain] using isVisible
    unfold visibleNamespaces
    rw [ofReference]
    exact List.mem_append_left _ (List.mem_append_right _ isUsing)
  have isFound := lookup?_library (Reference.isType_of_plain? isPlain) isSeen
  rw [(Reference.name_of_plain? isPlain).1, Reference.arity_of_plain? isPlain] at isFound
  unfold TypeExpr.plainName? at isName
  split at isName
  · cases isName
    exact special_library.1
  · cases isName
    exact special_library.2
  · cases isName
    simp [resolve, resolveAll, noParameter, isFound, found, surfaceType_eq isPlain]
  · cases isName

end

theorem memberMethods_eq_nil {owner : MemberOwner} {member : String}
    (notMember : member ∉ owner.declaration.memberNames) : memberMethods owner member = [] := by
  simp only [TypeDecl.memberNames, List.mem_append, List.mem_map, not_or, not_exists,
    not_and] at notMember
  simp only [memberMethods, methodsOf, List.map_eq_nil_iff, List.filter_eq_nil_iff]
  rintro ⟨method, place⟩ isMethod
  simp [notMember.1.1 method (List.fst_mem_of_mem_zipIdx isMethod)]

theorem declares_eq_false {owner : MemberOwner} {member : String}
    (notMember : member ∉ owner.declaration.memberNames) : declares owner member = false := by
  have noMethods := memberMethods_eq_nil notMember
  simp only [TypeDecl.memberNames, List.mem_append, List.mem_map, not_or, not_exists,
    not_and] at notMember
  simp only [declares, noMethods]
  simp
  exact ⟨notMember.1.2, notMember.2⟩

section

variable {names : List String} (closed : Reference.IsClosed names) (isName : name ∈ names)
  (isPlain : Reference.plain? name = some (type, index))

include closed isName isPlain

theorem isPlain_of_closed : (type.kind = .class ∨ type.kind = .interface) ∧
    ∀ written ∈ type.bases, ∃ base ∈ names, written.plainName? = some base ∧
      Reference.IsVisible base := by
  rcases closed.isPlain name isName with ⟨entry, isEntry, isKind, areBases⟩
  cases isPlain.symm.trans isEntry
  refine ⟨isKind, fun written isBase => ?_⟩
  rcases areBases written isBase with ⟨base, isNamed, isListed, isVisible⟩
  exact ⟨base, isListed, isNamed, isVisible⟩

theorem declaredBases_surfaceType :
    library.declaredBases ⟨.reference, index⟩ type (surfaceType name) =
      type.bases.filterMap fun written => written.plainName?.map surfaceType := by
  have isType := Reference.isType_of_plain? isPlain
  have noParameters : (library.memberScope ⟨.reference, index⟩).typeParameters = [] := by
    rw [(fullName_reference index (List.getElem?_eq_some_iff.mp isType).1 _ isType).2.1,
      (Reference.name_of_plain? isPlain).2]
  have areBases := (isPlain_of_closed closed isName isPlain).2
  unfold declaredBases
  generalize type.bases = written at areBases
  induction written with
  | nil => rfl
  | cons first rest ih =>
    rw [List.forall_mem_cons] at areBases
    rcases areBases.1 with ⟨base, -, isNamed, isVisible⟩
    rcases isVisible with ⟨⟨baseType, place⟩, isBase, isUsing⟩
    have resolved : library.resolve (library.memberScope ⟨.reference, index⟩) first =
        surfaceType base :=
      resolve_surfaceType isBase ⟨_, isBase, isUsing⟩ rfl (by simp [noParameters]) isNamed
    have rest_eq := ih areBases.2
    rw [resolveAll, List.map_cons, resolved, substitute_surfaceType isBase, List.filter_cons,
      known_surfaceType isBase, rest_eq]
    simp [isNamed]

/-- The direct supertypes of a class or an interface are the type of all objects and those with the
names of its bases. -/
theorem mem_directSupertypes_surfaceType :
    (∀ base ∈ library.directSupertypes (surfaceType name),
      ∃ name ∈ names, base = surfaceType name) ∧
    ∀ written ∈ type.bases, ∀ base, written.plainName? = some base →
        surfaceType base ∈ library.directSupertypes (surfaceType name) := by
  rcases isPlain_of_closed closed isName isPlain with ⟨isKind, areBases⟩
  have bases_eq := declaredBases_surfaceType closed isName isPlain
  have isListed : ∀ base ∈ type.bases.filterMap fun written => written.plainName?.map surfaceType,
      ∃ name ∈ names, base = surfaceType name := by
    intro base isBase
    rcases List.mem_filterMap.mp isBase with ⟨written, isWritten, isMapped⟩
    rcases areBases written isWritten with ⟨name, isName, isNamed, -⟩
    rw [isNamed] at isMapped
    exact ⟨name, isName, (Option.some.inj isMapped).symm⟩
  have isFound : ∀ written ∈ type.bases, ∀ base, written.plainName? = some base →
      surfaceType base ∈ type.bases.filterMap fun written => written.plainName?.map surfaceType :=
    fun written isWritten base isNamed =>
      List.mem_filterMap.mpr ⟨written, isWritten, by rw [isNamed]; rfl⟩
  have isObject : ∃ name ∈ names, library.object = surfaceType name :=
    ⟨"Object", closed.hasObject, special_library.1⟩
  have kind_eq := kind_surfaceType isPlain
  rcases isKind with isClass | isInterface
  · rw [isClass] at kind_eq
    simp only [directSupertypes, kind_eq, idOf?_surfaceType isPlain, decl?_of_plain? isPlain,
      isClass, bases_eq]
    split
    · exact ⟨isListed, isFound⟩
    · exact ⟨List.forall_mem_cons.mpr ⟨isObject, isListed⟩, fun written isWritten base isNamed =>
        List.mem_cons_of_mem _ (isFound written isWritten base isNamed)⟩
  · rw [isInterface] at kind_eq
    simp only [directSupertypes, kind_eq, idOf?_surfaceType isPlain, decl?_of_plain? isPlain,
      isInterface, bases_eq]
    exact ⟨isListed, isFound⟩

variable (few : names.length < maxSupertypes) (isClass : type.kind = .class)

include few isClass

theorem supertypes_surfaceType :
    (∀ base ∈ library.supertypes (surfaceType name), base ∈ names.map surfaceType) ∧
      (library.supertypes (surfaceType name)).Nodup ∧
      ∀ type ∈ library.supertypes (surfaceType name), ∀ base ∈ library.directSupertypes type,
        base ∈ library.supertypes (surfaceType name) := by
  have few : (names.map surfaceType).length < maxSupertypes := by simpa using few
  refine supertypes_of_few few (List.mem_map_of_mem isName) ?_ ?_
  · intro type isType base isBase
    rcases List.mem_map.mp isType with ⟨between, isBetween, rfl⟩
    rcases closed.isPlain between isBetween with ⟨⟨type, index⟩, isPlain, -⟩
    rcases (mem_directSupertypes_surfaceType closed isBetween isPlain).1 base isBase with
      ⟨name, isName, rfl⟩
    exact List.mem_map_of_mem isName
  · rw [kind_surfaceType isPlain, isClass]
    decide

/-- The supertypes of a class are found by the names of its bases, of their bases, and so on. -/
theorem mem_supertypes_surfaceType {between base : String} {written : TypeExpr}
    {entry : TypeDecl × Nat} (isBetween : between ∈ names)
    (isSupertype : surfaceType between ∈ library.supertypes (surfaceType name))
    (isEntry : Reference.plain? between = some entry) (isWritten : written ∈ entry.1.bases)
    (isNamed : written.plainName? = some base) :
    surfaceType base ∈ library.supertypes (surfaceType name) :=
  (supertypes_surfaceType closed isName isPlain few isClass).2.2 _ isSupertype _
    ((mem_directSupertypes_surfaceType closed isBetween isEntry).2 written isWritten base isNamed)

/-- The members of a class are those that it declares itself and those of other types. -/
theorem exists_memberOwners_surfaceType : ∃ others,
    library.memberOwners (surfaceType name) =
      ⟨surfaceType name, ⟨.reference, index⟩, type⟩ :: others ∧
    ∀ owner ∈ others, ∃ other ∈ names, other ≠ name ∧ ∃ place,
      Reference.plain? other = some (owner.declaration, place) := by
  rcases supertypes_surfaceType closed isName isPlain few isClass with ⟨inside, nodup, -⟩
  rcases List.head?_eq_some_iff.mp (head?_supertypes library (surfaceType name)) with
    ⟨rest, supertypes_eq⟩
  rw [supertypes_eq, List.nodup_cons] at nodup
  rw [supertypes_eq, List.forall_mem_cons] at inside
  have noArray : (surfaceType name).kind ≠ .array := by
    rw [kind_surfaceType isPlain, isClass]
    decide
  refine ⟨(rest.filterMap fun owner => do
    let id ← library.idOf? owner
    pure ⟨owner, id, ← library.decl? id⟩), ?_, ?_⟩
  · simp [memberOwners, declaredSupertypes, supertypes_eq, idOf?_surfaceType isPlain,
      decl?_of_plain? isPlain, noArray]
  · intro owner isOwner
    rcases List.mem_filterMap.mp isOwner with ⟨symbol, isSupertype, isFound⟩
    rcases List.mem_map.mp (inside.2 symbol isSupertype) with ⟨other, isOther, rfl⟩
    rcases closed.isPlain other isOther with ⟨⟨declaration, place⟩, isPlain', -⟩
    refine ⟨other, isOther, ?_, place, ?_⟩
    · rintro rfl
      exact nodup.1 isSupertype
    · simp only [idOf?_surfaceType isPlain', Option.bind_eq_bind, Option.bind_some,
        decl?_of_plain? isPlain', Option.pure_def, Option.some.injEq] at isFound
      rw [isPlain', ← isFound]

variable {member : String} (isOwn : ∀ other ∈ names, other ≠ name →
  ∀ entry ∈ Reference.plain? other, member ∉ entry.1.memberNames)

include isOwn

theorem memberCandidates_surfaceType : memberCandidates (surfaceType name) member =
    memberMethods ⟨surfaceType name, ⟨.reference, index⟩, type⟩ member := by
  rcases exists_memberOwners_surfaceType closed isName isPlain few isClass with
    ⟨others, owners_eq, areOther⟩
  rw [memberCandidates, owners_eq, List.flatMap_cons, List.flatMap_eq_nil_iff.mpr, List.append_nil]
  intro owner isOwner
  rcases areOther owner isOwner with ⟨other, isOther, differs, place, isDecl⟩
  exact memberMethods_eq_nil (isOwn other isOther differs _ isDecl)

theorem memberValueOf?_surfaceType : memberValueOf? (surfaceType name) member =
    library.memberValue? ⟨surfaceType name, ⟨.reference, index⟩, type⟩ member := by
  rcases exists_memberOwners_surfaceType closed isName isPlain few isClass with
    ⟨others, owners_eq, areOther⟩
  have notOther : others.find? (declares · member) = none := by
    rw [List.find?_eq_none]
    intro owner isOwner
    rcases areOther owner isOwner with ⟨other, isOther, differs, place, isDecl⟩
    simp [declares_eq_false (isOwn other isOther differs _ isDecl)]
  rw [memberValueOf?, owners_eq, List.find?_cons, notOther]
  split
  · rfl
  · rename_i notDeclared
    simp only [declares, Bool.or_eq_false_iff, List.any_eq_false] at notDeclared
    have noProperty : type.properties.find? (·.name == member) = none :=
      List.find?_eq_none.mpr notDeclared.1.1
    have noField : type.fields.find? (·.name == member) = none :=
      List.find?_eq_none.mpr notDeclared.1.2
    simp [memberValue?, noProperty, noField]

end

section

variable (isPlain : Reference.plain? name = some (type, index)) {base : String}
  (isVisible : Reference.IsVisible base)

include isPlain isVisible

/-- What a member of the surface is written with stands for the same type on every receiver. -/
theorem seen_surfaceType {typeParameters : List String} (noParameter : base ∉ typeParameters)
    {written : TypeExpr} (isNamed : written.plainName? = some base) :
    (library.resolve { library.memberScope ⟨.reference, index⟩ with
      typeParameters := (library.memberScope ⟨.reference, index⟩).typeParameters ++ typeParameters }
        written).substitute (library.substitution ⟨.reference, index⟩ (surfaceType name)) =
      surfaceType base := by
  rcases isVisible with ⟨⟨baseType, place⟩, isBase, isUsing⟩
  have isType := Reference.isType_of_plain? isPlain
  have noParameters : (library.memberScope ⟨.reference, index⟩).typeParameters = [] := by
    rw [(fullName_reference index (List.getElem?_eq_some_iff.mp isType).1 _ isType).2.1,
      (Reference.name_of_plain? isPlain).2]
  rw [resolve_surfaceType isBase ⟨_, isBase, isUsing⟩ rfl (by simpa [noParameters]) isNamed,
    substitute_surfaceType isBase]

theorem memberValue?_surfaceType {property : PropertyDecl} {member : String}
    (isProperty : type.properties.find? (·.name == member) = some property)
    (isNamed : property.type.plainName? = some base) : ∃ symbol,
    library.memberValue? ⟨surfaceType name, ⟨.reference, index⟩, type⟩ member =
      some (.value (surfaceType base) symbol) := by
  have seen := seen_surfaceType isPlain isVisible List.not_mem_nil isNamed
  rw [List.append_nil] at seen
  simp only [memberValue?, isProperty, memberType, Option.some.injEq, Bound.value.injEq]
  exact ⟨_, seen, rfl⟩

end

end TypeTable

end AssertionLint
