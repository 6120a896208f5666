import AssertionLint.Proofs.Binding.AssertionOverloads
import AssertionLint.Proofs.Binding.SurfaceNames
import AssertionLint.Proofs.TypeTable.Conversion

/-!
# Constraint methods

The constraints that fixes write are members of a helper class or of what `Not` gives: properties,
methods of one argument, and methods of one type argument. In the table of every document that keeps
the reference surface, a property is a constraint, and a call of a method is one exactly if the
method takes its argument (`TypeTable.isSome_resolveAmong?_argument`).
-/

namespace AssertionLint

/-- The name of the type that a method without type parameters takes as its only argument. -/
def MethodDecl.takes? (method : MethodDecl) : Option String :=
  match method.typeParameters, method.parameters with
  | [], [parameter] => parameter.type.bind (·.plainName?)
  | _, _ => none

theorem MethodDecl.exists_of_takes? {method : MethodDecl} {name : String}
    (takes : method.takes? = some name) : method.typeParameters = [] ∧
      ∃ parameter written, method.parameters = [parameter] ∧ parameter.type = some written ∧
        written.plainName? = some name := by
  unfold takes? at takes
  split at takes
  · rename_i parameter noNames isParameter
    rcases Option.bind_eq_some_iff.mp takes with ⟨written, isType, isNamed⟩
    exact ⟨noNames, parameter, written, isParameter, isType, isNamed⟩
  · cases takes

theorem MethodDecl.takes?_of_isGeneric {method : MethodDecl}
    (isGeneric : method.typeParameters.length = 1) : method.takes? = none := by
  rcases List.length_eq_one_iff.mp isGeneric with ⟨name, names_eq⟩
  simp [takes?, names_eq]

namespace Reference

/-- The types of the constraints that fixes write. -/
def constraintNames : List String :=
  ["FalseConstraint", "TrueConstraint", "NullConstraint", "EmptyConstraint", "NaNConstraint",
    "EqualConstraint", "SameAsConstraint", "GreaterThanConstraint",
    "GreaterThanOrEqualConstraint", "LessThanConstraint", "LessThanOrEqualConstraint",
    "SomeItemsConstraint", "ContainsConstraint", "StartsWithConstraint", "EndsWithConstraint",
    "InstanceOfTypeConstraint", "AssignableFromConstraint"]

/-- The types that they derive from. -/
def constraintBases : List String :=
  ["ComparisonConstraint", "StringConstraint", "TypeConstraint", "Constraint", "IConstraint",
    "IResolveConstraint", "Object"]

/-- A type is declared with a base. -/
def HasBase (name base : String) : Prop :=
  ∃ entry ∈ plain? name, ∃ written ∈ entry.1.bases, written.plainName? = some base

instance (name base : String) : Decidable (HasBase name base) :=
  inferInstanceAs (Decidable (∃ entry ∈ plain? name, _))

/-- The constraints are classes that derive from `Constraint`, if not at once then over one class
between. -/
theorem constraints_reference : IsClosed (constraintNames ++ constraintBases) ∧
    (∀ name ∈ constraintNames,
      (∃ entry ∈ plain? name, entry.1.kind = .class ∧ entry.1.enclosing ∈ declarations.usings) ∧
        (HasBase name "Constraint" ∨
          ∃ between ∈ constraintBases, HasBase name between ∧ HasBase between "Constraint")) ∧
    HasBase "Constraint" "IConstraint" ∧ HasBase "IConstraint" "IResolveConstraint" := by
  decide

theorem string_notMem_constraints : "String" ∉ constraintNames ++ constraintBases := by
  decide

end Reference

namespace TypeTable

/-- A class without parts converts to a type without parts if it derives from it. -/
theorem exists_standardConversion_iff {table : TypeTable} {source destination : TypeSymbol}
    (isClass : source.kind = .class) (noWider : source.special.wider = [])
    (noElement : source.elementType = none) (atomic : destination.IsAtomic)
    (notCovariant : destination.isCovariant = false) :
    (table.standardConversion source destination).exists = true ↔
      destination ∈ table.supertypes source := by
  have isSelf : source ∈ table.supertypes source :=
    List.mem_of_mem_head? (head?_supertypes table source)
  have noNumber : source.special.widensTo destination.special = false := by
    simp [SpecialType.widensTo, noWider]
  have noNull : source.convertsToNullable destination = false := by
    simp [TypeSymbol.convertsToNullable, TypeSymbol.underlying?, atomic.notNullable]
  have isReference : source.isReferenceType = true := by simp [TypeSymbol.isReferenceType, isClass]
  have isKnown : source.isUnknown = false := by simp [TypeSymbol.isUnknown, isClass]
  by_cases same : source = destination
  · subst same
    simp [standardConversion, valueConversion?, isKnown, isSelf, Conversion.exists]
  have later : table.valueConversion? source destination = none := by
    simp [valueConversion?, isKnown, atomic.known, same, isClass, noNumber, noNull, isReference,
      TypeSymbol.isValueType]
  have byReference : table.convertsByReference source destination = true ↔
      destination ∈ table.supertypes source := by
    have notOther (supertype : TypeSymbol) :
        (supertype.isCovariant && supertype.sameDefinition destination) = false := by
      by_cases sameDefinition : supertype.sameDefinition destination = true
      · simp only [TypeSymbol.sameDefinition, Bool.and_eq_true, beq_iff_eq] at sameDefinition
        have isOther : supertype.isCovariant = destination.isCovariant := by
          simp [TypeSymbol.isCovariant, TypeSymbol.fullName, sameDefinition]
        simp [isOther, notCovariant]
      · simp [sameDefinition]
    simp [convertsByReference_eq, later, noElement, notOther]
  rw [standardConversion, later]
  simp only
  split
  · rename_i converts
    simpa [Conversion.exists] using byReference.mp converts
  · rename_i converts
    simpa [Conversion.exists] using fun isSupertype => converts (byReference.mpr isSupertype)

/-- A type of constraints, as the framework declares it. -/
structure IsConstraintType (type : TypeSymbol) : Prop where
  isType : library.IsType type
  isDerived : library.isDerivedFrom type Names.constraintBase = true
  resolves : (library.standardConversion type resolver).exists = true
  noText : (library.standardConversion type text).exists = false
  notNullable : type.isNullableValueType = false
  known : type.isUnknown = false
  isClosed : type.isClosed = true

/-- The types that `Assert.That` and the rule for assertions know are those of the surface. -/
theorem constraintTypes_library : resolver = surfaceType "IResolveConstraint" ∧
    (surfaceType "Constraint").fullName = Names.constraintBase ∧ text.name = "String" ∧
    resolver.isCovariant = false ∧ text.isCovariant = false := by
  decide

theorem text_eq : text = surfaceType "String" := special_library.2

/-- A text is an object, but not the other way round. -/
theorem standardConversion_object : library.object.IsAtomic ∧
    (library.standardConversion text library.object).exists = true ∧
    (library.standardConversion library.object text).exists = false ∧ library.object ≠ text := by
  decide

section

variable {name : String} (isName : name ∈ Reference.constraintNames)

include isName

/-- Every constraint is a `Constraint`. -/
theorem mem_supertypes_constraint {type : TypeDecl} {index : Nat}
    (isPlain : Reference.plain? name = some (type, index)) (isClass : type.kind = .class) :
    surfaceType "Constraint" ∈ library.supertypes (surfaceType name) ∧
      surfaceType "IResolveConstraint" ∈ library.supertypes (surfaceType name) ∧
      text ∉ library.supertypes (surfaceType name) := by
  rcases Reference.constraints_reference with ⟨closed, areClasses, isInterface, isResolver⟩
  have isListed : name ∈ Reference.constraintNames ++ Reference.constraintBases :=
    List.mem_append_left _ isName
  have few : (Reference.constraintNames ++ Reference.constraintBases).length < maxSupertypes := by
    decide
  have isBase {between : String} (isBase : between ∈ Reference.constraintBases) :
      between ∈ Reference.constraintNames ++ Reference.constraintBases :=
    List.mem_append_right _ isBase
  have derives {between base : String}
      (isBetween : between ∈ Reference.constraintNames ++ Reference.constraintBases)
      (isSupertype : surfaceType between ∈ library.supertypes (surfaceType name))
      (hasBase : Reference.HasBase between base) :
      surfaceType base ∈ library.supertypes (surfaceType name) := by
    rcases hasBase with ⟨entry, isEntry, written, isWritten, isNamed⟩
    exact mem_supertypes_surfaceType closed isListed isPlain few isClass isBetween isSupertype
      isEntry isWritten isNamed
  have isSelf : surfaceType name ∈ library.supertypes (surfaceType name) :=
    List.mem_of_mem_head? (head?_supertypes library (surfaceType name))
  have isConstraint : surfaceType "Constraint" ∈ library.supertypes (surfaceType name) := by
    rcases (areClasses name isName).2 with direct | ⟨between, hasBetween⟩
    · exact derives isListed isSelf direct
    · exact derives (isBase hasBetween.1) (derives isListed isSelf hasBetween.2.1) hasBetween.2.2
  refine ⟨isConstraint, ?_, fun isText => ?_⟩
  · exact derives (isBase (by decide)) (derives (isBase (by decide)) isConstraint isInterface)
      isResolver
  · have inside := (supertypes_surfaceType closed isListed isPlain few isClass).1
    rcases List.mem_map.mp (inside _ isText) with ⟨other, isOther, same⟩
    rcases closed.isPlain other isOther with ⟨⟨otherType, place⟩, isPlain', -⟩
    have sameName := congrArg (·.name) same
    simp only [name_surfaceType isPlain', constraintTypes_library.2.2.1] at sameName
    exact Reference.string_notMem_constraints (sameName ▸ isOther)

/-- The types of the constraints that fixes write derive from `Constraint`. -/
theorem isConstraintType_surfaceType : IsConstraintType (surfaceType name) := by
  rcases (Reference.constraints_reference.2.1 name isName).1 with
    ⟨⟨type, index⟩, isPlain, isClass, -⟩
  have isType := Reference.isType_of_plain? isPlain
  have isKind : (surfaceType name).kind = .class := (kind_surfaceType isPlain).trans isClass
  have isReference : (surfaceType name).isReferenceType = true := by
    simp [TypeSymbol.isReferenceType, isKind]
  rcases (forall_reference index (List.getElem?_eq_some_iff.mp isType).1).2.1
    (surfaceType_eq isPlain ▸ isReference) with ⟨noWider, notNullable⟩
  rw [← surfaceType_eq isPlain] at noWider notNullable
  rcases mem_supertypes_constraint isName isPlain isClass with ⟨isConstraint, isResolver, noText⟩
  rcases areAtomic_that with ⟨-, textAtomic, resolverAtomic⟩
  rcases constraintTypes_library with
    ⟨resolverIs, isFull, -, resolverInvariant, textInvariant⟩
  have noElement := elementType_surfaceType isPlain
  refine ⟨isType_surfaceType isPlain, ?_, ?_, ?_, ?_, known_surfaceType isPlain,
    isClosed_surfaceType isPlain⟩
  · exact List.any_eq_true.mpr ⟨_, isConstraint, by simp [isFull]⟩
  · rw [exists_standardConversion_iff isKind noWider noElement resolverAtomic resolverInvariant,
      resolverIs]
    exact isResolver
  · rw [← Bool.not_eq_true, exists_standardConversion_iff isKind noWider noElement textAtomic
      textInvariant]
    exact noText
  · simpa [TypeSymbol.isNullableValueType] using notNullable

end

end TypeTable

namespace Reference

/-- The method gives a constraint for one argument or for one type argument. -/
structure GivesConstraint (method : MethodDecl) : Prop where
  result : ∃ name ∈ method.returnType.plainName?,
    name ∈ constraintNames ∧ name ∉ method.typeParameters
  required : ∀ parameter ∈ method.parameters,
    parameter.isParams = false ∧ parameter.isOptional = false
  shape : (∃ name ∈ method.takes?, IsVisible name) ∨
    method.typeParameters.length = 1 ∧ method.parameters.length = 0

instance (method : MethodDecl) : Decidable (GivesConstraint method) :=
  decidable_of_iff
    ((∃ name ∈ method.returnType.plainName?,
        name ∈ constraintNames ∧ name ∉ method.typeParameters) ∧
      (∀ parameter ∈ method.parameters,
        parameter.isParams = false ∧ parameter.isOptional = false) ∧
      ((∃ name ∈ method.takes?, IsVisible name) ∨
        method.typeParameters.length = 1 ∧ method.parameters.length = 0))
    ⟨fun ⟨result, required, shape⟩ => ⟨result, required, shape⟩,
      fun ⟨result, required, shape⟩ => ⟨result, required, shape⟩⟩

/-- The methods of a name that a class of the surface declares. -/
def methodsOf (owner member : String) : List MethodDecl :=
  ((plain? owner).map fun entry => entry.1.methods.filter fun method =>
    method.kind == .ordinary && method.name == member).getD []

/-- The types of the argument of such a method. -/
def takes (owner member : String) : List String :=
  (methodsOf owner member).filterMap (·.takes?)

/-- A class and the types that it may derive from. -/
def lineage (owner : String) : List String :=
  [owner, "Constraint", "IConstraint", "IResolveConstraint", "Object"]

/-- The classes with members that are constraints. -/
def owners : List String := ["Is", "Has", "Does", "ConstraintExpression", "EqualConstraint"]

theorem isClosed_owners : ∀ owner ∈ owners, IsClosed (lineage owner) := by
  decide

/-- The class has members of the name of its own. -/
def HasOwn (owner member : String) : Prop :=
  (∃ entry ∈ plain? owner, entry.1.kind = .class) ∧ ∀ other ∈ lineage owner, other ≠ owner →
    ∀ entry ∈ plain? other, member ∉ entry.1.memberNames

instance (owner member : String) : Decidable (HasOwn owner member) :=
  inferInstanceAs (Decidable (_ ∧ ∀ other ∈ lineage owner, _))

/-- The members of a name are methods that give constraints, one for each type of argument. -/
structure IsConstraintMethod (owner member : String) : Prop where
  isOwner : owner ∈ owners
  hasOwn : HasOwn owner member
  noValue : ∀ entry ∈ plain? owner, (∀ property ∈ entry.1.properties, property.name ≠ member) ∧
    ∀ field ∈ entry.1.fields, field.name ≠ member
  gives : ∀ method ∈ methodsOf owner member, GivesConstraint method
  shape : (takes owner member).length = 1 ∨ takes owner member = ["Object", "String"]

instance (owner member : String) : Decidable (IsConstraintMethod owner member) :=
  decidable_of_iff
    (owner ∈ owners ∧ HasOwn owner member ∧
      (∀ entry ∈ plain? owner, (∀ property ∈ entry.1.properties, property.name ≠ member) ∧
        ∀ field ∈ entry.1.fields, field.name ≠ member) ∧
      (∀ method ∈ methodsOf owner member, GivesConstraint method) ∧
      ((takes owner member).length = 1 ∨ takes owner member = ["Object", "String"]))
    ⟨fun ⟨isOwner, hasOwn, noValue, gives, shape⟩ => ⟨isOwner, hasOwn, noValue, gives, shape⟩,
      fun ⟨isOwner, hasOwn, noValue, gives, shape⟩ => ⟨isOwner, hasOwn, noValue, gives, shape⟩⟩

/-- The member of a name is a property of a type. -/
structure HasProperty (owner member result : String) : Prop where
  isOwner : owner ∈ owners
  hasOwn : HasOwn owner member
  isProperty : ∃ entry ∈ plain? owner, ∃ property ∈ entry.1.properties.find? (·.name == member),
    property.type.plainName? = some result
  isVisible : IsVisible result

instance (owner member result : String) : Decidable (HasProperty owner member result) :=
  decidable_of_iff
    (owner ∈ owners ∧ HasOwn owner member ∧
      (∃ entry ∈ plain? owner, ∃ property ∈ entry.1.properties.find? (·.name == member),
        property.type.plainName? = some result) ∧ IsVisible result)
    ⟨fun ⟨isOwner, hasOwn, isProperty, isVisible⟩ => ⟨isOwner, hasOwn, isProperty, isVisible⟩,
      fun ⟨isOwner, hasOwn, isProperty, isVisible⟩ => ⟨isOwner, hasOwn, isProperty, isVisible⟩⟩

end Reference

namespace TypeTable

open Reference

/-- An argument converts to one of the types. Of several types an argument of unknown type has no
best one. -/
def Takes (table : TypeTable) (names : List String) (slot : ArgumentSlot) : Prop :=
  (∃ name ∈ names, table.slotConverts slot (surfaceType name) = true) ∧
    (1 < names.length → slot.type ≠ none)

instance (table : TypeTable) (names : List String) (slot : ArgumentSlot) :
    Decidable (table.Takes names slot) :=
  inferInstanceAs (Decidable (_ ∧ _))

section

variable {owner member : String}

theorem few_lineage (owner : String) : (lineage owner).length < maxSupertypes := by
  simp [lineage, maxSupertypes]

theorem memberValueOf?_of_hasProperty {result : String} (has : HasProperty owner member result) :
    ∃ symbol, memberValueOf? (surfaceType owner) member =
      some (.value (surfaceType result) symbol) := by
  rcases has.hasOwn with ⟨⟨⟨type, index⟩, isPlain, isClass⟩, isOwn⟩
  rcases has.isProperty with ⟨entry, isEntry, property, isProperty, isNamed⟩
  cases isPlain.symm.trans isEntry
  rcases memberValue?_surfaceType isPlain has.isVisible isProperty isNamed with ⟨symbol, isValue⟩
  refine ⟨symbol, ?_⟩
  rw [memberValueOf?_surfaceType (isClosed_owners owner has.isOwner) List.mem_cons_self isPlain
    (few_lineage owner) isClass isOwn, isValue]

variable (isMethod : IsConstraintMethod owner member)

include isMethod

theorem isType_owner : library.IsType (surfaceType owner) := by
  rcases isMethod.hasOwn.1 with ⟨⟨type, index⟩, isPlain, -⟩
  exact isType_surfaceType isPlain

theorem memberValueOf?_of_isConstraintMethod :
    memberValueOf? (surfaceType owner) member = none := by
  rcases isMethod.hasOwn with ⟨⟨⟨type, index⟩, isPlain, isClass⟩, isOwn⟩
  rcases isMethod.noValue _ isPlain with ⟨noProperty, noField⟩
  rw [memberValueOf?_surfaceType (isClosed_owners owner isMethod.isOwner) List.mem_cons_self
    isPlain (few_lineage owner) isClass isOwn]
  have noProperty : type.properties.find? (·.name == member) = none := by
    simpa [List.find?_eq_none] using noProperty
  have noField : type.fields.find? (·.name == member) = none := by
    simpa [List.find?_eq_none] using noField
  simp [memberValue?, noProperty, noField]

/-- The candidates are the declared methods. -/
theorem map_method_memberCandidates :
    (memberCandidates (surfaceType owner) member).map (·.method) =
      Reference.methodsOf owner member := by
  rcases isMethod.hasOwn with ⟨⟨⟨type, index⟩, isPlain, isClass⟩, isOwn⟩
  rw [memberCandidates_surfaceType (isClosed_owners owner isMethod.isOwner) List.mem_cons_self
    isPlain (few_lineage owner) isClass isOwn]
  rw [memberMethods, TypeTable.methodsOf, List.map_map, Reference.methodsOf,
    show plain? owner = some (type, index) from isPlain, Option.map_some, Option.getD_some]
  conv_rhs => rw [← List.zipIdx_map_fst 0 type.methods, List.filter_map]
  rfl

theorem declares_constraint {candidate : MethodCandidate}
    (isCandidate : candidate ∈ memberCandidates (surfaceType owner) member) :
    GivesConstraint candidate.method ∧ ∃ result ∈ constraintNames,
      candidate.method.returnType.plainName? = some result ∧
      candidate.Declares library candidate.method.typeParameters
        (candidate.method.takes?.toList.map fun name => (false, surfaceType name))
        (surfaceType result) := by
  rcases isMethod.hasOwn with ⟨⟨⟨type, index⟩, isPlain, isClass⟩, isOwn⟩
  have gives : GivesConstraint candidate.method := by
    refine isMethod.gives _ ?_
    rw [← map_method_memberCandidates isMethod]
    exact List.mem_map_of_mem isCandidate
  refine ⟨gives, ?_⟩
  rw [memberCandidates_surfaceType (isClosed_owners owner isMethod.isOwner) List.mem_cons_self
    isPlain (few_lineage owner) isClass isOwn] at isCandidate
  rcases List.mem_map.mp isCandidate with ⟨⟨method, place⟩, -, rfl⟩
  dsimp only at gives ⊢
  rcases gives.result with ⟨result, isNamed, isConstraint, noParameter⟩
  rcases (constraints_reference.2.1 result isConstraint).1 with ⟨resultEntry, isResult, -, isUsing⟩
  have isResult := seen_surfaceType isPlain ⟨_, isResult, isUsing⟩ noParameter isNamed
  have required := fun parameter isParameter => (gives.required parameter isParameter).2
  rcases gives.shape with ⟨name, takes, isVisible⟩ | ⟨isGeneric, noParameters⟩
  · rcases MethodDecl.exists_of_takes? takes with
      ⟨noNames, parameter, written, isParameter, isType, isWritten⟩
    have isSeen := seen_surfaceType isPlain isVisible List.not_mem_nil isWritten
    have noRest : parameter.isParams = false := by
      refine (gives.required parameter ?_).1
      rw [isParameter]
      exact List.mem_singleton_self parameter
    refine ⟨result, isConstraint, isNamed, rfl, ?_, required, ?_⟩
    · rw [isParameter, takes]
      simp [noRest]
    · rw [takes]
      refine Prod.ext ?_ isResult
      rw [← noNames] at isSeen
      simp only [signature, isParameter, List.map_cons, List.map_nil, isType, Option.map_some,
        Option.getD_some, isSeen]
      rfl
  · have noParameters := List.eq_nil_of_length_eq_zero noParameters
    have takesNone := MethodDecl.takes?_of_isGeneric isGeneric
    refine ⟨result, isConstraint, isNamed, rfl, by rw [noParameters, takesNone]; rfl, required, ?_⟩
    rw [takesNone]
    refine Prod.ext ?_ isResult
    simp [signature, noParameters]

theorem filterMap_takes? :
    (memberCandidates (surfaceType owner) member).filterMap (·.method.takes?) =
      takes owner member := by
  rw [takes, ← map_method_memberCandidates isMethod, List.filterMap_map]
  rfl

theorem nodup_takes : (takes owner member).Nodup := by
  rcases isMethod.shape with isOne | areTwo
  · rcases List.length_eq_one_iff.mp isOne with ⟨name, takes_eq⟩
    simp [takes_eq]
  · rw [areTwo]
    decide

theorem exists_of_mem_takes {name : String} (isTaken : name ∈ takes owner member) :
    ∃ candidate ∈ memberCandidates (surfaceType owner) member,
      candidate.method.takes? = some name := by
  rw [← filterMap_takes? isMethod] at isTaken
  exact List.mem_filterMap.mp isTaken

theorem mem_takes {candidate : MethodCandidate} {name : String}
    (isCandidate : candidate ∈ memberCandidates (surfaceType owner) member)
    (isTaken : candidate.method.takes? = some name) : name ∈ takes owner member := by
  rw [← filterMap_takes? isMethod]
  exact List.mem_filterMap.mpr ⟨candidate, isCandidate, isTaken⟩

/-- There is one method for each type of argument. -/
theorem eq_of_takes? {candidate other : MethodCandidate} {name : String}
    (isCandidate : candidate ∈ memberCandidates (surfaceType owner) member)
    (isOther : other ∈ memberCandidates (surfaceType owner) member)
    (isTaken : candidate.method.takes? = some name) (isTaken' : other.method.takes? = some name) :
    candidate = other := by
  have nodup := nodup_takes isMethod
  rw [← filterMap_takes? isMethod, List.Nodup, List.pairwise_filterMap] at nodup
  have symmetric : Std.Symm fun candidate other : MethodCandidate =>
      ∀ name, candidate.method.takes? = some name → ∀ name', other.method.takes? = some name' →
        name ≠ name' :=
    ⟨fun _ _ distinct name isTaken name' isTaken' => (distinct name' isTaken' name isTaken).symm⟩
  by_contra differs
  exact nodup.forall isCandidate isOther differs name isTaken name isTaken' rfl

theorem isVisible_of_takes? {candidate : MethodCandidate} {name : String}
    (isCandidate : candidate ∈ memberCandidates (surfaceType owner) member)
    (isTaken : candidate.method.takes? = some name) : IsVisible name := by
  rcases (declares_constraint isMethod isCandidate).1.shape with
    ⟨other, isOther, isVisible⟩ | ⟨isGeneric, -⟩
  · cases isTaken.symm.trans isOther
    exact isVisible
  · cases isTaken.symm.trans (MethodDecl.takes?_of_isGeneric isGeneric)

variable {document : ParsedDocument} (keeps : document.declarations.KeepsReference)

include keeps

/-- A constraint method is applicable to an argument that converts to the type that it takes. -/
theorem isSome_applicable?_argument {candidate : MethodCandidate}
    (isCandidate : candidate ∈ memberCandidates (surfaceType owner) member)
    {slot : ArgumentSlot} (unlabelled : slot.label = none) :
    (document.table.applicable? [slot] [] candidate).isSome = true ↔
      ∃ name, candidate.method.takes? = some name ∧
        document.table.slotConverts slot (surfaceType name) = true := by
  rcases declares_constraint isMethod isCandidate with ⟨gives, result, -, -, declares⟩
  have declares := declares_of_library keeps (isType_owner isMethod) isCandidate declares
  have isUnlabelled : ∀ slot' ∈ [slot], slot'.label = none := by simpa using unlabelled
  rcases gives.shape with ⟨name, takes, isVisible⟩ | ⟨isGeneric, -⟩
  · rcases isVisible with ⟨⟨type, index⟩, isPlain, -⟩
    rw [takes] at declares
    rw [isSome_applicable?_iff_accepts declares isUnlabelled (by simp [formsOf]),
      (MethodDecl.exists_of_takes? takes).1]
    have takes : candidate.method.takes? = some name := takes
    simp [formsOf, targetTypes?, takes, accepts_nil_iff, isClosed_surfaceType isPlain]
  · have takesNone := MethodDecl.takes?_of_isGeneric isGeneric
    rw [takesNone] at declares
    rw [isSome_applicable?_iff_accepts declares isUnlabelled (by simp [formsOf])]
    simp [formsOf, targetTypes?, takesNone]

/-- How such a method is applicable. -/
theorem exists_of_applicable?_argument {candidate : MethodCandidate}
    (isCandidate : candidate ∈ memberCandidates (surfaceType owner) member)
    {slot : ArgumentSlot} (unlabelled : slot.label = none) {method : ApplicableMethod}
    (isApplicable : document.table.applicable? [slot] [] candidate = some method) :
    ∃ name, candidate.method.takes? = some name ∧
      document.table.slotConverts slot (surfaceType name) = true ∧
      method.targets = [surfaceType name] ∧
      method.parameters.map (·.type) = [surfaceType name] ∧
      method.isExpanded = false ∧ method.isGeneric = false ∧ method.usesDefaults = false := by
  rcases (isSome_applicable?_argument isMethod keeps isCandidate unlabelled).mp
    (Option.isSome_iff_exists.mpr ⟨method, isApplicable⟩) with ⟨name, takes, converts⟩
  rcases declares_constraint isMethod isCandidate with ⟨gives, result, -, -, declares⟩
  have declares := declares_of_library keeps (isType_owner isMethod) isCandidate declares
  have isUnlabelled : ∀ slot' ∈ [slot], slot'.label = none := by simpa using unlabelled
  have isClosed : (surfaceType name).isClosed = true := by
    rcases gives.shape with ⟨other, takesOther, ⟨type, index⟩, isPlain, -⟩ | ⟨isGeneric, -⟩
    · cases takes.symm.trans takesOther
      exact isClosed_surfaceType isPlain
    · cases takes.symm.trans (MethodDecl.takes?_of_isGeneric isGeneric)
  rw [takes, (MethodDecl.exists_of_takes? takes).1] at declares
  rcases isInstance_of_applicable? declares isUnlabelled (by simp [formsOf]) isApplicable with
    ⟨expanded, isForm, targets, inferred, areTargets, -, isInstance⟩
  have isNormal : expanded = none := by simpa [formsOf] using isForm
  subst isNormal
  have substituted := TypeSymbol.substitute_of_isClosed inferred _ isClosed
  have areTargets : targets = [surfaceType name] := by
    simpa [targetTypes?, eq_comm] using areTargets
  subst areTargets
  refine ⟨name, takes, converts, ?_, ?_, isInstance.isExpanded, isInstance.isGeneric,
    isInstance.usesDefaults⟩
  · rw [isInstance.targets, List.map_singleton, substituted]
  · simpa [substituted] using isInstance.types

theorem sameSignature_eq_false {candidate other : MethodCandidate}
    (isCandidate : candidate ∈ memberCandidates (surfaceType owner) member)
    (isOther : other ∈ memberCandidates (surfaceType owner) member) (differs : candidate ≠ other)
    {slot : ArgumentSlot} (unlabelled : slot.label = none) {method found : ApplicableMethod}
    (isApplicable : document.table.applicable? [slot] [] candidate = some method)
    (isFound : document.table.applicable? [slot] [] other = some found) :
    method.sameSignature found = false := by
  rcases exists_of_applicable?_argument isMethod keeps isCandidate unlabelled isApplicable with
    ⟨name, isTaken, -, -, types, -⟩
  rcases exists_of_applicable?_argument isMethod keeps isOther unlabelled isFound with
    ⟨otherName, isTaken', -, -, types', -⟩
  rcases isVisible_of_takes? isMethod isCandidate isTaken with ⟨⟨type, index⟩, isPlain, -⟩
  rcases isVisible_of_takes? isMethod isOther isTaken' with ⟨⟨type', index'⟩, isPlain', -⟩
  refine Bool.eq_false_iff.mpr fun same => differs ?_
  have sameTypes := congrArg (List.map Prod.fst) (ApplicableMethod.sameSignature_iff.mp same)
  simp only [List.map_map, Function.comp_def, types, types', List.cons.injEq, and_true]
    at sameTypes
  have sameName := congrArg (·.name) sameTypes
  simp only [name_surfaceType isPlain, name_surfaceType isPlain'] at sameName
  exact eq_of_takes? isMethod isCandidate isOther isTaken (sameName ▸ isTaken')

/-- Of two methods that are applicable to an argument of unknown type none is better. -/
theorem type_ne_none_of_resolveAmong? (areTwo : takes owner member = ["Object", "String"])
    {slot : ArgumentSlot} (unlabelled : slot.label = none)
    (isResolved : (document.table.resolveAmong? (memberCandidates (surfaceType owner) member)
      [slot] []).isSome = true) : slot.type ≠ none := by
  intro isUntyped
  rcases Option.isSome_iff_exists.mp isResolved with ⟨method, isMethodSymbol⟩
  rcases resolveAmong?_eq_some_iff.mp isMethodSymbol with ⟨⟨winner, best⟩, wins, -⟩
  rcases wins.stays with ⟨front, back, split, isBest, -⟩
  have isWinner : winner ∈ memberCandidates (surfaceType owner) member := by simp [split]
  rcases exists_of_applicable?_argument isMethod keeps isWinner unlabelled isBest with
    ⟨name, isTaken, -, targets, -, isNormal, isPlain, noDefaults⟩
  dsimp only at targets isNormal isPlain noDefaults
  have isListed := mem_takes isMethod isWinner isTaken
  have exists_other : ∃ other ∈ takes owner member, other ≠ name := by
    rw [areTwo, List.mem_pair] at isListed
    rw [areTwo]
    rcases isListed with rfl | rfl
    · exact ⟨"String", by decide, by decide⟩
    · exact ⟨"Object", by decide, by decide⟩
  rcases exists_other with ⟨otherName, isOtherName, differs⟩
  rcases exists_of_mem_takes isMethod isOtherName with ⟨other, isOther, isTaken'⟩
  have isApplicable : (document.table.applicable? [slot] [] other).isSome = true :=
    (isSome_applicable?_argument isMethod keeps isOther unlabelled).mpr
      ⟨otherName, isTaken', by simp [slotConverts, isUntyped]⟩
  rcases Option.isSome_iff_exists.mp isApplicable with ⟨found, isFound⟩
  rcases exists_of_applicable?_argument isMethod keeps isOther unlabelled isFound with
    ⟨_, -, -, targets', -, isNormal', isPlain', noDefaults'⟩
  have stays : document.table.Stays [slot] [] (memberCandidates (surfaceType owner) member)
      (other, found) :=
    stays_of_sameSignature isOther isFound fun third isThird differs method isApplicable =>
      sameSignature_eq_false isMethod keeps isThird isOther differs unlabelled isApplicable isFound
  have better := wins.isBetter _ stays (by
    rintro same
    cases same
    cases isTaken.symm.trans isTaken'
    exact differs rfl)
  simp [isBetter, targets, targets', betterTarget, isUntyped, isNormal, isNormal', isPlain,
    isPlain', noDefaults, noDefaults'] at better

omit isMethod in
/-- Reading an argument as a text is better than reading it as an object. -/
theorem betterTarget_object {slot : ArgumentSlot} (isTyped : slot.type ≠ none)
    (converts : document.table.slotConverts slot text = true) :
    document.table.betterTarget slot.type text library.object = true ∧
      document.table.betterTarget slot.type library.object text = false := by
  rcases areAtomic_that with ⟨-, textAtomic, -⟩
  rcases standardConversion_object with ⟨objectAtomic, forth, back, differs⟩
  have isType : library.IsType library.object := isConsistent_library.isType_special _
  rcases Option.ne_none_iff_exists'.mp isTyped with ⟨type, isTyped⟩
  have other : type ≠ library.object := by
    rintro rfl
    have converts := keeps.exists_of_slotConverts isTyped isType objectAtomic.notNullable
      isType_text textAtomic converts
    cases back.symm.trans converts
  have forth' : document.table.standardConversion text library.object =
      library.standardConversion text library.object :=
    keeps.standardConversion_eq isType_text objectAtomic.noArguments objectAtomic.noElement
  have back' : document.table.standardConversion library.object text =
      library.standardConversion library.object text :=
    keeps.standardConversion_eq isType textAtomic.noArguments textAtomic.noElement
  simp [betterTarget, isTyped, other, forth', back', forth, back, differs, differs.symm]

/-- An argument that a method takes converts to one type better than to the others. -/
theorem exists_best_of_takes {slot : ArgumentSlot}
    (isTaken : document.table.Takes (takes owner member) slot) :
    ∃ best ∈ takes owner member, document.table.slotConverts slot (surfaceType best) = true ∧
      ∀ other ∈ takes owner member, other ≠ best →
        document.table.slotConverts slot (surfaceType other) = true →
          document.table.betterTarget slot.type (surfaceType best) (surfaceType other) = true ∧
          document.table.betterTarget slot.type (surfaceType other) (surfaceType best) = false := by
  rcases isTaken with ⟨⟨name, isName, converts⟩, isTyped⟩
  rcases isMethod.shape with isOne | areTwo
  · rcases List.length_eq_one_iff.mp isOne with ⟨only, takes_eq⟩
    refine ⟨name, isName, converts, fun other isOther differs => absurd ?_ differs⟩
    rw [takes_eq, List.mem_singleton] at isName isOther
    rw [isName, isOther]
  · rw [areTwo] at isName isTyped ⊢
    by_cases isText : document.table.slotConverts slot (surfaceType "String") = true
    · refine ⟨"String", by decide, isText, fun other isOther differs _ => ?_⟩
      have isObject : other = "Object" := by simpa [differs] using isOther
      rw [isObject, ← special_library.1, ← text_eq]
      exact betterTarget_object keeps (isTyped (by decide)) (text_eq ▸ isText)
    · have isObject : name = "Object" := by
        refine (List.mem_pair.mp isName).resolve_right ?_
        rintro rfl
        exact isText converts
      subst isObject
      refine ⟨"Object", by decide, converts, fun other isOther differs otherConverts => ?_⟩
      have isString : other = "String" := by simpa [differs] using isOther
      exact absurd (isString ▸ otherConverts) isText

/-- A call of a constraint method resolves if the method takes the argument. -/
theorem isSome_resolveAmong?_argument {slot : ArgumentSlot} (unlabelled : slot.label = none) :
    (document.table.resolveAmong? (memberCandidates (surfaceType owner) member) [slot]
      []).isSome = true ↔ document.table.Takes (takes owner member) slot := by
  constructor
  · intro isResolved
    rcases Option.isSome_iff_exists.mp isResolved with ⟨method, isMethodSymbol⟩
    rcases exists_applicable_of_resolveAmong? isMethodSymbol with
      ⟨candidate, isCandidate, found, isFound, -⟩
    rcases exists_of_applicable?_argument isMethod keeps isCandidate unlabelled isFound with
      ⟨name, isTaken, converts, -⟩
    refine ⟨⟨name, mem_takes isMethod isCandidate isTaken, converts⟩, fun several => ?_⟩
    refine type_ne_none_of_resolveAmong? isMethod keeps ?_ unlabelled isResolved
    exact isMethod.shape.resolve_left several.ne'
  · intro isTaken
    rcases exists_best_of_takes isMethod keeps isTaken with
      ⟨best, isBest, bestConverts, isBetterTarget⟩
    rcases exists_of_mem_takes isMethod isBest with ⟨candidate, isCandidate, isTaken⟩
    have isApplicable := (isSome_applicable?_argument isMethod keeps isCandidate unlabelled).mpr
      ⟨best, isTaken, bestConverts⟩
    rcases Option.isSome_iff_exists.mp isApplicable with ⟨found, isFound⟩
    rcases exists_of_applicable?_argument isMethod keeps isCandidate unlabelled isFound with
      ⟨_, isTaken', -, targets, -⟩
    cases isTaken.symm.trans isTaken'
    refine isSome_resolveAmong?_of_isBetter isCandidate isFound ?_
    intro other isOther differs method isOtherApplicable
    refine ⟨sameSignature_eq_false isMethod keeps isOther isCandidate differs unlabelled
      isOtherApplicable isFound, ?_⟩
    rcases exists_of_applicable?_argument isMethod keeps isOther unlabelled isOtherApplicable with
      ⟨otherName, isOtherTaken, otherConverts, otherTargets, -⟩
    rcases isBetterTarget otherName (mem_takes isMethod isOther isOtherTaken)
      (by
        rintro rfl
        exact differs (eq_of_takes? isMethod isOther isCandidate isOtherTaken isTaken))
      otherConverts with ⟨better, notWorse⟩
    simp [isBetter, targets, otherTargets, better, notWorse]

/-- Whatever a call of a constraint method resolves to gives a constraint. -/
theorem exists_returnType_of_resolveAmong? {slots : List ArgumentSlot}
    {explicit : List TypeSymbol} {method : MethodSymbol}
    (isResolved : document.table.resolveAmong? (memberCandidates (surfaceType owner) member) slots
      explicit = some method) :
    ∃ declared ∈ Reference.methodsOf owner member, ∃ result ∈ constraintNames,
      declared.returnType.plainName? = some result ∧ method.returnType = surfaceType result := by
  rcases exists_applicable_of_resolveAmong? isResolved with
    ⟨candidate, isCandidate, found, isFound, rfl⟩
  rcases declares_constraint isMethod isCandidate with ⟨-, result, isConstraint, isNamed, declares⟩
  have declares := declares_of_library keeps (isType_owner isMethod) isCandidate declares
  rcases isApplicable_of_applicable? isFound with ⟨expanded, places, inferred, isApplicable⟩
  refine ⟨candidate.method, ?_, result, isConstraint, isNamed, ?_⟩
  · rw [← map_method_memberCandidates isMethod]
    exact List.mem_map_of_mem isCandidate
  have closed := (isConstraintType_surfaceType isConstraint).isClosed
  have returnType := isApplicable.returnType
  rw [declares.signature, TypeSymbol.substitute_of_isClosed _ _ closed] at returnType
  exact returnType

/-- Without arguments a constraint method needs a type argument. -/
theorem isSome_applicable?_typeArguments {candidate : MethodCandidate}
    (isCandidate : candidate ∈ memberCandidates (surfaceType owner) member)
    (explicit : List TypeSymbol) :
    (document.table.applicable? [] explicit candidate).isSome = true ↔
      candidate.method.takes? = none ∧ explicit.length = 1 := by
  rcases declares_constraint isMethod isCandidate with ⟨gives, result, -, -, declares⟩
  have declares := declares_of_library keeps (isType_owner isMethod) isCandidate declares
  rcases gives.shape with ⟨name, takes, -⟩ | ⟨isGeneric, noParameters⟩
  · have takes : candidate.method.takes? = some name := takes
    have noNames := (MethodDecl.exists_of_takes? takes).1
    by_cases isWritten : explicit = []
    · subst isWritten
      rw [takes] at declares
      rw [isSome_applicable?_iff_accepts declares (by simp) (by simp [formsOf])]
      simp [formsOf, targetTypes?, takes]
    · simp [applicable?, isWritten, noNames, takes]
  · have takesNone := MethodDecl.takes?_of_isGeneric isGeneric
    rcases List.length_eq_one_iff.mp isGeneric with ⟨name, names_eq⟩
    have noParameters := List.eq_nil_of_length_eq_zero noParameters
    rcases explicit with _ | ⟨type, _ | ⟨second, others⟩⟩
    · rw [takesNone] at declares
      rw [isSome_applicable?_iff_accepts declares (by simp) (by simp [formsOf])]
      simp [formsOf, targetTypes?, Accepts, AcceptsWith, names_eq, callSubstitution?,
        inferArguments, Substitution.find?, Substitution.empty]
    · have isApplicable :
          (document.table.applicableIn? candidate [] [type] none).isSome = true := by
        rw [isSome_applicableIn?_iff]
        exact ⟨[], .ofLists [name] [type], by simp [noParameters, MethodDecl.assign?,
          MethodDecl.assignFrom?, MethodDecl.unassigned], by simp [callSubstitution?, names_eq,
          Substitution.ofLists, Substitution.find?, Substitution.insert], by simp⟩
      rcases Option.isSome_iff_exists.mp isApplicable with ⟨found, isFound⟩
      simp [applicable?, names_eq, isFound, takesNone]
    · simp [applicable?, names_eq]

/-- A call of a constraint method without arguments resolves if it has one type argument. -/
theorem isSome_resolveAmong?_typeArguments
    (isGeneric : ((Reference.methodsOf owner member).filter (·.takes?.isNone)).length = 1)
    (explicit : List TypeSymbol) :
    (document.table.resolveAmong? (memberCandidates (surfaceType owner) member) []
      explicit).isSome = true ↔ explicit.length = 1 := by
  rw [← map_method_memberCandidates isMethod, List.filter_map, List.length_map] at isGeneric
  rcases List.length_eq_one_iff.mp isGeneric with ⟨generic, areGeneric⟩
  have isOnly {candidate : MethodCandidate}
      (isCandidate : candidate ∈ memberCandidates (surfaceType owner) member)
      (takesNone : candidate.method.takes? = none) : candidate = generic := by
    rw [← List.mem_singleton, ← areGeneric]
    exact List.mem_filter.mpr ⟨isCandidate, by simp [takesNone]⟩
  have isListed : generic ∈ (memberCandidates (surfaceType owner) member).filter
      ((fun method : MethodDecl => method.takes?.isNone) ∘ fun candidate => candidate.method) := by
    rw [areGeneric]
    exact List.mem_singleton_self generic
  rcases List.mem_filter.mp isListed with ⟨isCandidate, takesNone⟩
  constructor
  · intro isResolved
    rcases Option.isSome_iff_exists.mp isResolved with ⟨method, isMethodSymbol⟩
    rcases exists_applicable_of_resolveAmong? isMethodSymbol with
      ⟨candidate, isCandidate, found, isFound, -⟩
    exact ((isSome_applicable?_typeArguments isMethod keeps isCandidate explicit).mp
      (Option.isSome_iff_exists.mpr ⟨found, isFound⟩)).2
  · intro isOne
    refine isSome_resolveAmong?_of_unique isCandidate ?_ ?_
    · exact (isSome_applicable?_typeArguments isMethod keeps isCandidate explicit).mpr
        ⟨Option.isNone_iff_eq_none.mp takesNone, isOne⟩
    · intro other isOther differs
      rw [← Option.not_isSome_iff_eq_none]
      intro isApplicable
      exact differs (isOnly isOther
        ((isSome_applicable?_typeArguments isMethod keeps isOther explicit).mp isApplicable).1)

end

end TypeTable

end AssertionLint
