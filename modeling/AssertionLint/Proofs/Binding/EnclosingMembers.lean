import AssertionLint.Proofs.Binding.Memory
import AssertionLint.Proofs.Syntax.Declared
import AssertionLint.Proofs.TypeTable.Types

/-!
# Names for members of the types around

A simple name that is no local and no parameter stands for a member of the innermost type around it
that has one of the name. A type is found by its full name and the number of its type parameters,
and of several declarations with the same ones only the last one counts. So inside a declaration a
name stands for the property or field that the last declaration of the same type has, whatever the
declaration around the name has (`TypeTable.bindName_member`). In a type that is declared in
several parts, a name in one part does not stand for a field of this part unless the last part has
one of the same name (`TypeTable.exists_field_of_earlier_part`).
-/

namespace AssertionLint

/-- The type itself has a property or a field of the name. -/
def TypeDecl.hasValue (type : TypeDecl) (name : String) : Bool :=
  type.properties.any (·.name == name) || type.fields.any (·.name == name)

/-- A property or a field of the type. -/
def Bound.IsValueOf (bound : Bound) (type : TypeSymbol) : Prop :=
  (∃ property, bound.symbol? = some (.property property) ∧ property.containingType = type) ∨
    ∃ field, bound.symbol? = some (.field field) ∧ field.containingType = type

theorem Bound.known?_eq_some_iff {bound found : Bound} :
    bound.known? = some found ↔ bound = found ∧ found ≠ .unknown := by
  unfold known?
  split <;> grind

theorem Bound.IsValueOf.symbol?_ne_none {bound : Bound} {type : TypeSymbol}
    (isValue : bound.IsValueOf type) : bound.symbol? ≠ none := by
  rcases isValue with ⟨property, isProperty, -⟩ | ⟨field, isField, -⟩
  · simp [isProperty]
  · simp [isField]

namespace Declarations

/-- Both declarations have the same full name and the same number of type parameters. -/
def AreParts (declarations : Declarations) (one other : Nat) : Prop :=
  declarations.fullName one = declarations.fullName other ∧
    declarations.types[one]?.map (·.arity) = declarations.types[other]?.map (·.arity)

/-- Of the declarations of one type the last one. -/
structure IsLastPart (declarations : Declarations) (index last : Nat) (type : TypeDecl) :
    Prop where
  isType : declarations.types[last]? = some type
  areParts : declarations.AreParts last index
  latest : ∀ later > last, later < declarations.types.length → ¬declarations.AreParts later index

variable {declarations : Declarations} {index : Nat} {type : TypeDecl}

/-- Of the entries with the name and the arity of a type, the first one is that of its last
declaration. -/
theorem exists_isLastPart (isType : declarations.types[index]? = some type) (origin : Origin) :
    ∃ last lastType, declarations.IsLastPart index last lastType ∧
      (declarations.entries origin).find? (fun entry =>
        entry.arity == type.arity && entry.fullName == declarations.fullName index) =
          some ⟨declarations.fullName last, lastType.arity, ⟨origin, last⟩⟩ := by
  let accepts (entry : TypeEntry) : Bool :=
    entry.arity == type.arity && entry.fullName == declarations.fullName index
  have accepts_iff {place : Nat} {other : TypeDecl}
      (isOther : declarations.types[place]? = some other) :
      accepts ⟨declarations.fullName place, other.arity, ⟨origin, place⟩⟩ = true ↔
        declarations.AreParts place index := by
    simp [accepts, AreParts, isOther, isType, and_comm]
  have length_eq : (declarations.entries origin).length = declarations.types.length := by
    simp [entries]
  -- the entries are listed backwards, so the first one found is the last one declared
  have entry_eq (place : Nat) (inside : place < (declarations.entries origin).length) :
      ∃ other, declarations.types[declarations.types.length - 1 - place]? = some other ∧
        (declarations.entries origin)[place] =
          ⟨declarations.fullName (declarations.types.length - 1 - place), other.arity,
            ⟨origin, declarations.types.length - 1 - place⟩⟩ := by
    rw [length_eq] at inside
    refine ⟨declarations.types[declarations.types.length - 1 - place],
      List.getElem?_eq_getElem (by omega), ?_⟩
    simp [entries]
  have found : ((declarations.entries origin).find? accepts).isSome := by
    rw [List.find?_isSome]
    refine ⟨⟨declarations.fullName index, type.arity, ⟨origin, index⟩⟩, ?_, by simp [accepts]⟩
    simp only [entries, List.mem_reverse, List.mem_map, Prod.exists,
      List.mk_mem_zipIdx_iff_getElem?]
    exact ⟨type, index, isType, rfl⟩
  rcases Option.isSome_iff_exists.mp found with ⟨entry, isFound⟩
  rcases List.find?_eq_some_iff_getElem.mp isFound with ⟨accepted, place, inside, isEntry, before⟩
  rcases entry_eq place inside with ⟨lastType, isLast, same⟩
  rw [isEntry] at same
  subst same
  refine ⟨declarations.types.length - 1 - place, lastType,
    ⟨isLast, (accepts_iff isLast).mp accepted, fun later behind isLater areParts => ?_⟩, isFound⟩
  rcases entry_eq (declarations.types.length - 1 - later) (by omega) with ⟨other, isOther, same⟩
  have rejected := before (declarations.types.length - 1 - later) (by omega)
  rw [same, Nat.sub_sub_self (by omega)] at rejected
  rw [Nat.sub_sub_self (by omega)] at isOther
  simp [(accepts_iff isOther).mpr areParts] at rejected

end Declarations

namespace TypeTable

variable {table : TypeTable} {index last : Nat} {type lastType : TypeDecl} {name : String}
  {owner : MemberOwner}

theorem selfType_eq_of_decl? {id : TypeId} (isType : table.decl? id = some type) :
    (table.selfType id).fullName = table.fullName id ∧ (table.selfType id).arity = type.arity ∧
      (table.selfType id).kind = type.kind := by
  have named : (table.declarations id.origin).types[id.index]?.map (·.name) = some type.name := by
    rw [decl?] at isType
    rw [isType]
    rfl
  simp [selfType, symbolOf, isType, TypeSymbol.fullName, TypeSymbol.arity, TypeSymbol.named,
    TypeTable.fullName, Declarations.fullName, named, TypeDecl.arity]

/-- A type of a document is found at its last declaration. -/
theorem exists_idOf?_selfType {reference document : Declarations}
    (tableIs : table = .ofDeclarations reference document)
    (isType : document.types[index]? = some type) (isDeclared : type.kind.isDeclared = true) :
    ∃ last lastType, document.IsLastPart index last lastType ∧
      table.decl? ⟨.document, last⟩ = some lastType ∧
      table.idOf? (table.selfType ⟨.document, index⟩) = some ⟨.document, last⟩ := by
  subst tableIs
  have isDecl : (ofDeclarations reference document).decl? ⟨.document, index⟩ = some type := isType
  rcases selfType_eq_of_decl? isDecl with ⟨fullName_eq, arity_eq, kind_eq⟩
  rcases Declarations.exists_isLastPart isType .document with ⟨last, lastType, isLast, found⟩
  refine ⟨last, lastType, isLast, isLast.isType, ?_⟩
  rw [idOf?_of_isDeclared (by rwa [kind_eq]), fullName_eq, arity_eq, find?, ofDeclarations,
    List.find?_append]
  change (((document.entries .document).find? fun entry =>
    entry.arity == type.arity && entry.fullName == document.fullName index).or _).map _ = _
  rw [found]
  rfl

theorem mem_memberOwners {symbol : TypeSymbol} (isOwner : owner ∈ table.memberOwners symbol) :
    table.idOf? owner.symbol = some owner.id ∧ table.decl? owner.id = some owner.declaration := by
  have declared := List.mem_of_mem_filter isOwner
  rcases List.mem_filterMap.mp declared with ⟨supertype, -, isDeclared⟩
  simp only [bind, Option.bind_eq_some_iff, pure, Option.some.injEq] at isDeclared
  rcases isDeclared with ⟨id, isId, declaration, isDeclaration, rfl⟩
  exact ⟨isId, isDeclaration⟩

/-- The first owner of the members of a type is the type itself. -/
theorem exists_memberOwners {symbol : TypeSymbol} {id : TypeId} (noArray : symbol.kind ≠ .array)
    (isId : table.idOf? symbol = some id) (isType : table.decl? id = some type) :
    ∃ following, table.memberOwners symbol = ⟨symbol, id, type⟩ :: following := by
  rcases List.head?_eq_some_iff.mp (table.head?_supertypes symbol) with ⟨following, supertypes_eq⟩
  rw [memberOwners, declaredSupertypes, supertypes_eq]
  simp [isId, isType, noArray]

theorem declares_of_hasValue (hasValue : owner.declaration.hasValue name = true) :
    declares owner name = true := by
  unfold declares
  rw [TypeDecl.hasValue] at hasValue
  rw [hasValue]
  rfl

theorem isSome_memberValue? :
    (table.memberValue? owner name).isSome = owner.declaration.hasValue name := by
  have isSome_find? {α : Type} (values : List α) (accept : α → Bool) :
      values.any accept = (values.find? accept).isSome := by
    rw [Bool.eq_iff_iff, List.any_eq_true, List.find?_isSome]
  unfold memberValue? TypeDecl.hasValue
  rw [isSome_find?, isSome_find?]
  cases owner.declaration.properties.find? (·.name == name) <;> simp

/-- A property or a field of an owner is one of no other type. -/
theorem isValueOf_iff_of_memberValue? {bound : Bound} {symbol : TypeSymbol}
    (isMember : table.memberValue? owner name = some bound) :
    bound.IsValueOf symbol ↔ owner.symbol = symbol := by
  unfold memberValue? at isMember
  split at isMember
  · rw [← Option.some.inj isMember]
    simp [Bound.IsValueOf, Bound.symbol?]
  · rw [Option.map_eq_some_iff] at isMember
    rcases isMember with ⟨field, -, rfl⟩
    simp [Bound.IsValueOf, Bound.symbol?]

/-- What a name means on a type is a property or a field of one of the owners, or no value. -/
theorem member_cases (table : TypeTable) (scope : TypeScope) (symbol : TypeSymbol)
    (written : SimpleName) (receiver : Option TypeSymbol) :
    (∃ owner ∈ table.memberOwners symbol,
      table.memberValue? owner written.identifier =
        some (table.member scope symbol written receiver)) ∨
      (table.member scope symbol written receiver).symbol? = none := by
  unfold member
  dsimp only
  split
  · rename_i value isValue
    split at isValue
    · rw [Option.bind_eq_some_iff] at isValue
      rcases isValue with ⟨owner, isOwner, isMember⟩
      exact .inl ⟨owner, List.mem_of_find?_eq_some isOwner, isMember⟩
    · cases isValue
  · right
    rw [apply_ite Bound.symbol?]
    exact ite_self none

/-- A property or a field that a type itself has is what the name means on the type. -/
theorem member_of_hasValue {scope : TypeScope} {symbol : TypeSymbol} {id : TypeId}
    {written : SimpleName} (simple : written.typeArguments = none) (noArray : symbol.kind ≠ .array)
    (isId : table.idOf? symbol = some id) (isType : table.decl? id = some type)
    (hasValue : type.hasValue written.identifier = true) :
    table.memberValue? ⟨symbol, id, type⟩ written.identifier =
      some (table.member scope symbol written none) := by
  rcases exists_memberOwners noArray isId isType with ⟨following, owners_eq⟩
  have isSome : (table.memberValue? ⟨symbol, id, type⟩ written.identifier).isSome := by
    rw [isSome_memberValue?]
    exact hasValue
  rcases Option.isSome_iff_exists.mp isSome with ⟨bound, isMember⟩
  have nearest : (table.memberOwners symbol).find? (declares · written.identifier) =
      some ⟨symbol, id, type⟩ := by
    rw [owners_eq, List.find?_cons_of_pos]
    exact declares_of_hasValue hasValue
  simp [member, simple, nearest, isMember]

/-- A property or a field of a type that a name means on some type is one that the declaration of
the former has. -/
theorem hasValue_of_isValueOf_member {scope : TypeScope} {symbol around : TypeSymbol} {id : TypeId}
    {written : SimpleName} (isId : table.idOf? symbol = some id)
    (isType : table.decl? id = some type)
    (isValue : (table.member scope around written none).IsValueOf symbol) :
    type.hasValue written.identifier = true := by
  rcases table.member_cases scope around written none with ⟨owner, isOwner, isMember⟩ | noSymbol
  · rcases mem_memberOwners isOwner with ⟨ownerId, ownerType⟩
    have same := (isValueOf_iff_of_memberValue? isMember).mp isValue
    rw [same, isId] at ownerId
    cases ownerId
    rw [isType] at ownerType
    cases ownerType
    have isSome := @isSome_memberValue? table written.identifier owner
    rw [isMember] at isSome
    exact isSome.symm
  · exact absurd noSymbol isValue.symbol?_ne_none

/-- A simple name that no local and no parameter has, and that means nothing on the types inside the
one at a place of the document. -/
structure LooksIn (table : TypeTable) (offset : Nat) (written : SimpleName) (index : Nat) :
    Prop where
  simple : written.typeArguments = none
  noLocal : table.document.visibleLocal? written.identifier offset = none
  noParameter : table.document.visibleParameter? written.identifier offset = none
  around : ∃ inside outside, table.document.enclosingTypes offset = inside ++ index :: outside ∧
    ∀ inner ∈ inside, table.member (table.scopeAt offset) (table.selfType ⟨.document, inner⟩)
      written none = .unknown

variable {offset : Nat} {written : SimpleName}

theorem LooksIn.bindName_eq {m : Type → Type} [Monad m] {binder : Binder m}
    (looks : binder.table.LooksIn offset written index) :
    binder.bindName offset written =
      pure (binder.table.bindOuterName (binder.table.scopeAt offset) written) := by
  simp [Binder.bindName, looks.simple, looks.noLocal, looks.noParameter]

theorem LooksIn.exists_type (looks : table.LooksIn offset written index) :
    ∃ type, table.document.types[index]? = some type := by
  rcases looks.around with ⟨inside, outside, enclosing_eq, -⟩
  have isAround : index ∈ table.document.enclosingTypes offset := by
    rw [enclosing_eq]
    simp
  rcases List.mem_map.mp isAround with ⟨⟨type, place⟩, isPair, rfl⟩
  rw [List.mem_mergeSort] at isPair
  exact ⟨type, List.mk_mem_zipIdx_iff_getElem?.mp (List.mem_of_mem_filter isPair)⟩

/-- A property or a field that the found declaration of the type has is what the name stands for. -/
theorem LooksIn.bindOuterName_of_hasValue (looks : table.LooksIn offset written index)
    (noArray : (table.selfType ⟨.document, index⟩).kind ≠ .array)
    (isId : table.idOf? (table.selfType ⟨.document, index⟩) = some ⟨.document, last⟩)
    (isType : table.decl? ⟨.document, last⟩ = some lastType)
    (hasValue : lastType.hasValue written.identifier = true) :
    table.memberValue? ⟨table.selfType ⟨.document, index⟩, ⟨.document, last⟩, lastType⟩
        written.identifier =
      some (table.bindOuterName (table.scopeAt offset) written) := by
  have isMember := @member_of_hasValue table lastType (table.scopeAt offset) _ _ written
    looks.simple noArray isId isType hasValue
  rcases looks.around with ⟨inside, outside, enclosing_eq, unknown⟩
  have isValue := (isValueOf_iff_of_memberValue? isMember).mpr rfl
  have known : (table.member (table.scopeAt offset) (table.selfType ⟨.document, index⟩)
      written none).known? = some (table.member (table.scopeAt offset)
        (table.selfType ⟨.document, index⟩) written none) := by
    rw [Bound.known?_eq_some_iff]
    exact ⟨rfl, fun same => isValue.symbol?_ne_none (by rw [same]; rfl)⟩
  have found : (table.scopeAt offset).enclosing.findSome? (fun place =>
      (table.member (table.scopeAt offset) (table.selfType ⟨.document, place⟩)
        written none).known?) =
      some (table.member (table.scopeAt offset) (table.selfType ⟨.document, index⟩)
        written none) := by
    have enclosing : (table.scopeAt offset).enclosing = table.document.enclosingTypes offset := rfl
    rw [enclosing, enclosing_eq, List.findSome?_append, List.findSome?_eq_none_iff.mpr,
      Option.none_or, List.findSome?_cons, known]
    intro inner isInner
    rw [unknown inner isInner]
    rfl
  rw [isMember, bindOuterName]
  simp only [found]

/-- If the found declaration of the type has no property or field of the name, the name stands for
no property or field of the type. -/
theorem hasValue_of_isValueOf_bindOuterName
    (isId : table.idOf? (table.selfType ⟨.document, index⟩) = some ⟨.document, last⟩)
    (isType : table.decl? ⟨.document, last⟩ = some lastType)
    (isValue : (table.bindOuterName (table.scopeAt offset) written).IsValueOf
      (table.selfType ⟨.document, index⟩)) : lastType.hasValue written.identifier = true := by
  unfold bindOuterName at isValue
  dsimp only at isValue
  split at isValue
  · rename_i bound isBound
    rcases List.exists_of_findSome?_eq_some isBound with ⟨around, -, isMember⟩
    rw [← (Bound.known?_eq_some_iff.mp isMember).1] at isValue
    exact hasValue_of_isValueOf_member isId isType isValue
  · split at isValue
    · simp [Bound.IsValueOf, Bound.symbol?] at isValue
    · split at isValue <;> simp [Bound.IsValueOf, Bound.symbol?] at isValue

/-- Inside a declaration of a type, where no local, no parameter and no member of a type further
inside has the name, a simple name stands for a property or a field of the type if and only if the
last declaration of the type has one of the name, and then it stands for this one. So it stands for
the one of the declaration around it if the type is not declared again. -/
theorem bindName_member {reference document : Declarations} (areDeclared : document.AreDeclared)
    {m : Type → Type} [Monad m] (binder : Binder m)
    (tableIs : binder.table = .ofDeclarations reference document)
    (looks : binder.table.LooksIn offset written index) :
    ∃ last lastType bound, document.IsLastPart index last lastType ∧
      binder.bindName offset written = pure bound ∧
      (bound.IsValueOf (binder.table.selfType ⟨.document, index⟩) ↔
        lastType.hasValue written.identifier = true) ∧
      (lastType.hasValue written.identifier = true →
        binder.table.memberValue?
            ⟨binder.table.selfType ⟨.document, index⟩, ⟨.document, last⟩, lastType⟩
            written.identifier = some bound) := by
  rcases looks.exists_type with ⟨type, isAround⟩
  have isDecl : binder.table.decl? ⟨.document, index⟩ = some type := isAround
  have isType : document.types[index]? = some type := by rwa [tableIs] at isAround
  have isDeclared := areDeclared type (List.mem_of_getElem? isType)
  have noArray : (binder.table.selfType ⟨.document, index⟩).kind ≠ .array := by
    rw [(selfType_eq_of_decl? isDecl).2.2]
    intro isArray
    rw [isArray] at isDeclared
    cases isDeclared
  rcases exists_idOf?_selfType tableIs isType isDeclared with
    ⟨last, lastType, isLast, isLastType, isId⟩
  refine ⟨last, lastType, _, isLast, looks.bindName_eq, ⟨?_, fun hasValue => ?_⟩, ?_⟩
  · exact hasValue_of_isValueOf_bindOuterName isId isLastType
  · exact (isValueOf_iff_of_memberValue?
      (looks.bindOuterName_of_hasValue noArray isId isLastType hasValue)).mpr rfl
  · exact looks.bindOuterName_of_hasValue noArray isId isLastType

/-- A class with a field that a method of the class uses. -/
def classWithField : ParsedDocument :=
  .ofSource "class A \x7b int x; void M() \x7b Use(x); \x7d \x7d"

/-- In a class that is declared once, the name of a field stands for the field. -/
theorem bindName_member_classWithField :
    classWithField.declarations.AreDeclared ∧
      classWithField.table.LooksIn 32 ⟨"x", none, none⟩ 0 ∧
      ∃ bound, (classWithField.table.rememberingBinder maxBindDepth).bindName 32
          ⟨"x", none, none⟩ = pure bound ∧
        bound.IsValueOf (classWithField.table.selfType ⟨.document, 0⟩) := by
  have areDeclared : classWithField.declarations.AreDeclared :=
    ParsedDocument.areDeclared_ofSource _
  obtain ⟨noLocal, noParameter, isInside, hasField⟩ :
      classWithField.declarations.visibleLocal? "x" 32 = none ∧
      classWithField.declarations.visibleParameter? "x" 32 = none ∧
      classWithField.declarations.enclosingTypes 32 = [0] ∧
      ∀ type ∈ classWithField.declarations.types, type.hasValue "x" = true := by
    decide +kernel
  have looks : classWithField.table.LooksIn 32 ⟨"x", none, none⟩ 0 :=
    ⟨rfl, noLocal, noParameter, [], [], isInside, by simp⟩
  rcases bindName_member areDeclared (classWithField.table.rememberingBinder maxBindDepth) rfl
    looks with ⟨last, lastType, bound, isLast, isBound, isValue, -⟩
  have isType := List.mem_of_getElem? isLast.isType
  exact ⟨areDeclared, looks, bound, isBound, isValue.mpr (hasField lastType isType)⟩

/-- A class in two parts, the first one with a field that a method of this part uses. -/
def classInParts : ParsedDocument :=
  .ofSource
    "partial class A \x7b int x; void M() \x7b Use(x); \x7d \x7d partial class A \x7b \x7d"

/-- In a class that is declared in two parts, the name of a field of the first part stands for no
value inside this part. -/
theorem exists_field_of_earlier_part :
    (classInParts.declarations.types[0]?.any (·.hasValue "x")) = true ∧
      classInParts.table.LooksIn 40 ⟨"x", none, none⟩ 0 ∧
      ∃ bound, (classInParts.table.rememberingBinder maxBindDepth).bindName 40
          ⟨"x", none, none⟩ = pure bound ∧ bound.type? = none := by
  obtain ⟨noLocal, noParameter, isInside, hasField, noMember⟩ :
      classInParts.declarations.visibleLocal? "x" 40 = none ∧
      classInParts.declarations.visibleParameter? "x" 40 = none ∧
      classInParts.declarations.enclosingTypes 40 = [0] ∧
      (classInParts.declarations.types[0]?.any (·.hasValue "x")) = true ∧
      ((classInParts.table.scopeAt 40).enclosing.findSome? fun place =>
        (classInParts.table.member (classInParts.table.scopeAt 40)
          (classInParts.table.selfType ⟨.document, place⟩) ⟨"x", none, none⟩
            none).known?).isNone := by
    decide +kernel
  have looks : classInParts.table.LooksIn 40 ⟨"x", none, none⟩ 0 :=
    ⟨rfl, noLocal, noParameter, [], [], isInside, by simp⟩
  refine ⟨hasField, looks, _, looks.bindName_eq, ?_⟩
  rw [Option.isNone_iff_eq_none] at noMember
  change (classInParts.table.bindOuterName (classInParts.table.scopeAt 40) _).type? = none
  simp only [bindOuterName, noMember]
  split
  · rfl
  · split <;> rfl

end TypeTable

end AssertionLint
