import AssertionLint.Proofs.TypeTable.Conversion
import AssertionLint.Proofs.TypeTable.Library

/-!
# Conversions of references one after the other

Where one conversion of a reference leads to a second one, there is also one over both, unless the
chain breaks off (`TypeTable.Breaks`). The types in the middle are the supertypes of the first one
with a type argument replaced (`TypeTable.IsMatched`), so the proof goes down the type arguments and
array elements of the last type. What is left are the arrays: an array is a list of its own elements
only, although it converts to arrays of their supertypes.
-/

namespace AssertionLint.TypeTable

/-- The interfaces whose type argument stays as it is. -/
def invariantNames : List String := ["IList", "ICollection"]

/-- A type is another one or converts to it as a reference. -/
def ConvertsTo (table : TypeTable) (source destination : TypeSymbol) : Prop :=
  source = destination ∨ table.convertsByReference source destination = true

/-- A supertype is the destination, or both are one covariant interface and the type argument
converts. -/
inductive LeadsTo (table : TypeTable) : TypeSymbol → TypeSymbol → Prop
  | same (type : TypeSymbol) : LeadsTo table type type
  | covariant {name : String} {source target : TypeSymbol} (isCovariant : name ∈ covariantNames)
      (converts : table.ConvertsTo source target) :
      LeadsTo table (collectionOf name source) (collectionOf name target)

/-- A search through the supertypes of a type finds the destination. -/
def Finds (table : TypeTable) (source destination : TypeSymbol) : Prop :=
  ∃ supertype ∈ table.supertypes source, table.LeadsTo supertype destination

theorem arrayOf_ne_collectionOf {name : String} {element target : TypeSymbol} :
    TypeSymbol.arrayOf element ≠ collectionOf name target :=
  fun same => nomatch congrArg TypeSymbol.kind same

namespace IsType

variable {table : TypeTable} {symbol element : TypeSymbol}

theorem eq_arrayOf (isType : table.IsType symbol) (elements : symbol.elementType = some element) :
    symbol = .arrayOf element ∧ table.IsType element := by
  cases isType with
  | array isType =>
    cases elements
    exact ⟨rfl, isType⟩
  | declared isDecl => simp [symbolOf, isDecl, TypeSymbol.named, TypeSymbol.empty] at elements
  | typeParameter | null | void | unresolved => cases elements

theorem argument (isType : table.IsType symbol) (isArgument : element ∈ symbol.typeArguments) :
    table.IsType element := by
  cases isType with
  | declared isDecl arity areTypes =>
    rw [symbolOf, isDecl] at isArgument
    exact areTypes element isArgument
  | array | typeParameter | null | void | unresolved => cases isArgument

theorem of_collectionOf {name : String} (isType : table.IsType (collectionOf name element)) :
    table.IsType element :=
  isType.argument (List.mem_singleton_self element)

end IsType

namespace HasLibrary

variable {table : TypeTable} {source destination supertype : TypeSymbol}
  (library : table.HasLibrary)

include library

/-- A covariant type is one of the two interfaces, or a type parameter or an unknown name. -/
theorem exists_of_isCovariant (isType : table.IsType source)
    (isCovariant : source.isCovariant = true) :
    (∃ name ∈ covariantNames, ∃ element, source = collectionOf name element) ∨
      (∃ name, source = .typeParameter name) ∨ ∃ name, source = .unresolved name := by
  cases isType with
  | declared isDecl arity =>
    rcases library.covariant isDecl arity isCovariant with ⟨name, isName, element, -, found⟩
    exact .inl ⟨name, isName, element, found⟩
  | typeParameter name => exact .inr (.inl ⟨name, rfl⟩)
  | unresolved name => exact .inr (.inr ⟨name, rfl⟩)
  | array => simp [TypeSymbol.isCovariant, TypeSymbol.fullName, TypeSymbol.arrayOf,
      TypeSymbol.qualify] at isCovariant
  | null | void => exact absurd isCovariant (by decide)

/-- Two types of one covariant declaration are equal or differ in the type argument. -/
theorem eq_or_collectionOf (isSource : table.IsType supertype)
    (isDestination : table.IsType destination) (isCovariant : supertype.isCovariant = true)
    (same : supertype.sameDefinition destination = true) :
    supertype = destination ∨ ∃ name ∈ covariantNames, ∃ source target,
      supertype = collectionOf name source ∧ destination = collectionOf name target := by
  simp only [TypeSymbol.sameDefinition, Bool.and_eq_true, beq_iff_eq] at same
  rcases same with ⟨⟨⟨kinds, names⟩, containers⟩, -⟩
  have alsoCovariant : destination.isCovariant = true := by
    rwa [TypeSymbol.isCovariant, TypeSymbol.fullName, ← names, ← containers]
  have others := library.exists_of_isCovariant isDestination alsoCovariant
  rcases library.exists_of_isCovariant isSource isCovariant with
    ⟨name, isName, source, rfl⟩ | ⟨name, rfl⟩ | ⟨name, rfl⟩
  · rcases others with ⟨name', -, target, rfl⟩ | ⟨name', rfl⟩ | ⟨name', rfl⟩
    · cases names
      exact .inr ⟨name, isName, source, target, rfl, rfl⟩
    · cases kinds
    · cases kinds
  · rcases others with ⟨name', -, target, rfl⟩ | ⟨name', rfl⟩ | ⟨name', rfl⟩
    · cases kinds
    · cases names
      exact .inl rfl
    · cases kinds
  · rcases others with ⟨name', -, target, rfl⟩ | ⟨name', rfl⟩ | ⟨name', rfl⟩
    · cases kinds
    · cases kinds
    · cases names
      exact .inl rfl

theorem leadsTo_iff (isSource : table.IsType supertype) (isDestination : table.IsType destination) :
    (supertype = destination ∨ (supertype.isCovariant && supertype.sameDefinition destination &&
      table.argumentsConvert supertype.typeArguments destination.typeArguments) = true) ↔
        table.LeadsTo supertype destination := by
  constructor
  · rintro (rfl | leads)
    · exact .same supertype
    · rw [Bool.and_eq_true, Bool.and_eq_true] at leads
      rcases leads with ⟨⟨isCovariant, same⟩, converts⟩
      rcases library.eq_or_collectionOf isSource isDestination isCovariant same with
        rfl | ⟨name, isName, source, target, rfl, rfl⟩
      · exact .same supertype
      · simp only [argumentsConvert_eq_all, collectionOf, List.zip_cons_cons, List.zip_nil_right,
          List.all_cons, List.all_nil, Bool.and_true, Bool.or_eq_true, decide_eq_true_eq]
          at converts
        exact .covariant isName converts
  · rintro (- | @⟨name, source, target, isName, converts⟩)
    · exact .inl rfl
    · have isCovariant : (collectionOf name source).isCovariant = true := by
        rcases List.mem_pair.mp isName with rfl | rfl
        · simp [TypeSymbol.isCovariant, TypeSymbol.fullName, collectionOf, TypeSymbol.named,
            TypeSymbol.qualify, collectionNamespace]
        · simp [TypeSymbol.isCovariant, TypeSymbol.fullName, collectionOf, TypeSymbol.named,
            TypeSymbol.qualify, collectionNamespace]
      have same : (collectionOf name source).sameDefinition (collectionOf name target) = true := by
        simp [TypeSymbol.sameDefinition, collectionOf, TypeSymbol.named, TypeSymbol.arity]
      have arguments (element : TypeSymbol) : (collectionOf name element).typeArguments =
        [element] := rfl
      simp only [isCovariant, same, argumentsConvert_eq_all, arguments]
      simpa [ConvertsTo] using Or.inr converts

/-- Arrays convert as their elements do, and everything else is searched for among the
supertypes. -/
theorem convertsByReference_iff (isSource : table.IsType source)
    (isDestination : table.IsType destination) :
    table.convertsByReference source destination = true ↔
      table.valueConversion? source destination = none ∧
        ((∃ element target, source = .arrayOf element ∧ destination = .arrayOf target ∧
            table.ConvertsTo element target) ∨
          ((source.elementType = none ∨ destination.elementType = none) ∧
            table.Finds source destination)) := by
  have search : ((table.supertypes source).any fun supertype =>
      supertype = destination ||
        (supertype.isCovariant && supertype.sameDefinition destination &&
          table.argumentsConvert supertype.typeArguments destination.typeArguments)) = true ↔
        table.Finds source destination := by
    rw [List.any_eq_true]
    refine exists_congr fun supertype => and_congr_right fun isSupertype => ?_
    rw [Bool.or_eq_true, decide_eq_true_eq]
    exact library.leadsTo_iff (library.isType_of_mem_supertypes isSource isSupertype) isDestination
  rw [convertsByReference_eq, Bool.and_eq_true, Option.isNone_iff_eq_none]
  refine and_congr_right fun _ => ?_
  -- only two arrays are compared by their elements; all else is a search
  cases elements : source.elementType with
  | none =>
    refine search.trans ⟨fun finds => .inr ⟨.inl rfl, finds⟩, ?_⟩
    rintro (⟨element, target, rfl, -⟩ | ⟨-, finds⟩)
    · cases elements
    · exact finds
  | some element =>
    cases targets : destination.elementType with
    | none =>
      refine search.trans ⟨fun finds => .inr ⟨.inr rfl, finds⟩, ?_⟩
      rintro (⟨element, target, -, rfl, -⟩ | ⟨-, finds⟩)
      · cases targets
      · exact finds
    | some target =>
      rw [(isSource.eq_arrayOf elements).1, (isDestination.eq_arrayOf targets).1, Bool.or_eq_true,
        decide_eq_true_eq]
      constructor
      · exact fun converts => .inl ⟨element, target, rfl, rfl, converts⟩
      · rintro (⟨_, _, same, same', converts⟩ | ⟨none | none, -⟩)
        · cases same
          cases same'
          exact converts
        · cases none
        · cases none

/-- A reference has no conversion of its own kind but to what adds null to it. -/
theorem valueConversion?_eq_none (isType : table.IsType source)
    (isReference : source.isReferenceType = true) (known : destination.isUnknown = false)
    (different : source ≠ destination)
    (notNullable : destination.underlying? ≠ some source) :
    table.valueConversion? source destination = none := by
  have special : source.special.wider = [] ∧ source.special ≠ .nullable := by
    cases isType with
    | declared isDecl => exact library.special isDecl _ isReference
    | array => exact ⟨rfl, by simp [TypeSymbol.arrayOf, TypeSymbol.empty]⟩
    | typeParameter | null | void | unresolved => cases isReference
  have narrow (target : SpecialType) : source.special.widensTo target = false := by
    rw [SpecialType.widensTo, special.1]
    rfl
  have underlying : source.underlying = source := by
    simp [TypeSymbol.underlying, TypeSymbol.underlying?, TypeSymbol.isNullableValueType, special.2]
  have staysReference : source.convertsToNullable destination = false := by
    unfold TypeSymbol.convertsToNullable
    split
    · rename_i target isTarget
      have other : source ≠ target := by
        rintro rfl
        exact notNullable isTarget
      rw [underlying, narrow]
      simp [other]
    · rfl
  have kinds : source.isUnknown = false ∧ source.kind ≠ .null ∧ source.isValueType = false ∧
      source.kind ≠ .typeParameter := by
    unfold TypeSymbol.isReferenceType at isReference
    unfold TypeSymbol.isUnknown TypeSymbol.isValueType
    split at isReference <;> simp_all
  simp [valueConversion?, known, different, kinds, narrow, staysReference, isReference]

/-- An array converts to a list or a collection only if it is one itself, whatever its elements
convert to. -/
theorem convertsTo_collection_iff {name : String} {element target : TypeSymbol}
    (isElement : table.IsType element) (isCollection : table.IsType (collectionOf name target))
    (isName : name ∈ invariantNames) :
    table.ConvertsTo (.arrayOf element) (collectionOf name target) ↔
      collectionOf name target ∈ table.supertypes (.arrayOf element) := by
  have convertsIff := library.convertsByReference_iff (.array isElement) isCollection
  constructor
  · rintro (same | converts)
    · exact absurd same arrayOf_ne_collectionOf
    rcases convertsIff.mp converts with ⟨-, ⟨_, _, -, same, -⟩ | ⟨-, supertype, isFound, leads⟩⟩
    · exact absurd same.symm arrayOf_ne_collectionOf
    generalize destinationIs : collectionOf name target = destination at leads ⊢
    cases leads with
    | same => exact isFound
    | covariant isCovariant =>
      cases destinationIs
      rcases List.mem_pair.mp isName with rfl | rfl <;> exact absurd isCovariant (by decide)
  · intro isFound
    have notNullable : (collectionOf name target).underlying? = none := by
      rcases List.mem_pair.mp isName with rfl | rfl <;> rfl
    refine .inr (convertsIff.mpr ⟨?_, .inr ⟨.inr rfl, _, isFound, .same _⟩⟩)
    exact library.valueConversion?_eq_none (.array isElement) rfl rfl arrayOf_ne_collectionOf
      (by rw [notNullable]; nofun)

/-- The supertypes of a type that does not have too many contain their direct supertypes. -/
theorem mem_supertypes_of_mem_directSupertypes
    (few : (table.supertypes source).length < maxSupertypes) {type base : TypeSymbol}
    (isSupertype : type ∈ table.supertypes source) (isBase : base ∈ table.directSupertypes type) :
    base ∈ table.supertypes source := by
  unfold supertypes at few isSupertype ⊢
  dsimp only at few isSupertype ⊢
  split
  · rename_i isInterface
    rw [if_pos isInterface] at few isSupertype
    rw [List.length_append] at few
    rcases List.mem_append.mp isSupertype with found | isObject
    · exact List.mem_append_left _ (closed_of_length_lt (by omega) type found base isBase)
    · rw [List.mem_singleton.mp isObject, library.object] at isBase
      cases isBase
  · rename_i notInterface
    rw [if_neg notInterface] at few isSupertype
    exact closed_of_length_lt few type isSupertype base isBase

end HasLibrary

/-- The interfaces that an array implements. -/
def arrayNames : List String := invariantNames ++ covariantNames

/-- A type is a supertype of the source, or it is a collection of one element type where the source
has the same collection of another one. -/
def IsMatched (table : TypeTable) (names : List String) (source element target : TypeSymbol)
    (type : TypeSymbol) : Prop :=
  type ∈ table.supertypes source ∨
    ∃ name ∈ names, type = collectionOf name target ∧
      collectionOf name element ∈ table.supertypes source

variable {table : TypeTable} {names : List String} {source element target type base : TypeSymbol}

/-- The bases of a collection are matched, as they follow from the element type in the same way. -/
theorem HasLibrary.isMatched_base (library : table.HasLibrary)
    (few : (table.supertypes source).length < maxSupertypes)
    (isNames : names = arrayNames ∨ names = covariantNames)
    (isMatched : table.IsMatched names source element target type)
    (isBase : base ∈ table.directSupertypes type) :
    table.IsMatched names source element target base := by
  have closed {type base : TypeSymbol} := @library.mem_supertypes_of_mem_directSupertypes
    table source few type base
  have next {name further : String}
      (derives : ∀ element, table.directSupertypes (collectionOf name element) =
        [collectionOf further element]) (isName : further ∈ names)
      (isBase : base ∈ table.directSupertypes (collectionOf name target))
      (isSupertype : collectionOf name element ∈ table.supertypes source) :
      table.IsMatched names source element target base := by
    rw [derives, List.mem_singleton] at isBase
    refine .inr ⟨further, isName, isBase, closed isSupertype ?_⟩
    rw [derives]
    exact List.mem_singleton_self _
  have isSequence : "IEnumerable" ∈ names := by
    rcases isNames with rfl | rfl <;> decide
  -- a supertype has its bases among the supertypes; a collection over `target` has a base that is
  -- matched by that of the collection over `element`
  rcases isMatched with isSupertype | ⟨name, isName, rfl, isSupertype⟩
  · exact .inl (closed isSupertype isBase)
  · have isArrayName : name ∈ arrayNames := by
      rcases isNames with rfl | rfl
      · exact isName
      · exact List.mem_append_right _ isName
    simp only [arrayNames, invariantNames, covariantNames, List.cons_append, List.nil_append,
      List.mem_cons, List.not_mem_nil, or_false] at isArrayName
    rcases isArrayName with rfl | rfl | rfl | rfl
    · have isCollection : "ICollection" ∈ names := by
        rcases isNames with rfl | rfl
        · decide
        · exact absurd isName (by decide)
      exact next library.list isCollection isBase isSupertype
    · exact next library.collection isSequence isBase isSupertype
    · rcases library.sequence with ⟨bases, same⟩
      rw [same target, ← same element] at isBase
      exact .inl (closed isSupertype isBase)
    · exact next library.readOnly isSequence isBase isSupertype

/-- Where two conversions of a reference do not make one over both. -/
inductive Breaks (table : TypeTable) : TypeSymbol → TypeSymbol → TypeSymbol → Prop
  /-- An array is a list and a collection of its own elements only. -/
  | collection {element target : TypeSymbol} {name : String} (isName : name ∈ invariantNames)
      (notFound : collectionOf name target ∉ table.supertypes (.arrayOf element)) :
      Breaks table (.arrayOf element) (.arrayOf target) (collectionOf name target)
  /-- A declared type derives from an array. -/
  | derivedArray {first middle derived element target : TypeSymbol}
      (isPart : derived = first ∨ derived = middle) (declared : derived.elementType = none)
      (derives : .arrayOf element ∈ table.supertypes derived) :
      Breaks table first middle (.arrayOf target)
  /-- The bases of a type run in a circle, so that the type of all objects is not among them. -/
  | noObject {first middle : TypeSymbol} (isInterface : middle.kind = .interface)
      (notFound : table.object ∉ table.supertypes first) :
      Breaks table first middle table.object
  /-- A reference type has null added to it. -/
  | nullable {first middle last : TypeSymbol} (isNullable : last.underlying? = some first) :
      Breaks table first middle last
  /-- The search for supertypes is cut off. -/
  | tooMany {first middle last : TypeSymbol}
      (many : maxSupertypes ≤ (table.supertypes first).length) : Breaks table first middle last
  /-- The elements break. -/
  | element {first middle last : TypeSymbol} (breaks : Breaks table first middle last) :
      Breaks table (.arrayOf first) (.arrayOf middle) (.arrayOf last)
  /-- The type arguments break. -/
  | argument {first middle source target last : TypeSymbol} {name : String}
      (isCovariant : name ∈ covariantNames)
      (ofFirst : collectionOf name source ∈ table.supertypes first)
      (ofMiddle : collectionOf name target ∈ table.supertypes middle)
      (breaks : Breaks table source target last) :
      Breaks table first middle (collectionOf name last)

/-- Conversions to types below a size make one, or break. -/
def TransitiveBelow (table : TypeTable) (size : Nat) : Prop :=
  ∀ first middle last, sizeOf last < size →
    table.IsType first → table.IsType middle → table.IsType last →
      table.ConvertsTo first middle → table.ConvertsTo middle last →
        table.ConvertsTo first last ∨ table.Breaks first middle last

theorem HasLibrary.object_ne_collectionOf (library : table.HasLibrary) {name : String} :
    table.object ≠ collectionOf name target := by
  rw [library.object_eq]
  exact fun same => nomatch congrArg TypeSymbol.kind same

theorem mem_of_finds_array (finds : table.Finds source (.arrayOf element)) :
    .arrayOf element ∈ table.supertypes source := by
  rcases finds with ⟨supertype, isSupertype, leads⟩
  generalize destinationIs : TypeSymbol.arrayOf element = destination at leads ⊢
  cases leads with
  | same => exact isSupertype
  | covariant => exact absurd destinationIs arrayOf_ne_collectionOf

namespace HasLibrary

variable {first middle last : TypeSymbol} (library : table.HasLibrary)
  (isFirst : table.IsType first) (isMiddle : table.IsType middle) (isLast : table.IsType last)
  (smaller : table.TransitiveBelow (sizeOf last))

include library isFirst isMiddle isLast smaller

/-- A supertype of the middle type that is matched by the first one leads on from there, unless it
is a collection whose element type cannot be replaced. -/
theorem finds_of_isMatched (converts : table.ConvertsTo element target)
    (isMatched : table.IsMatched names first element target type)
    (isSupertype : type ∈ table.supertypes middle) (leads : table.LeadsTo type last) :
    table.Finds first last ∨ table.Breaks first middle last ∨
      ∃ name ∈ names, name ∉ covariantNames ∧ last = collectionOf name target := by
  rcases isMatched with ofFirst | ⟨name, isName, typeIs, ofFirst⟩
  · exact .inl ⟨type, ofFirst, leads⟩
  · cases leads with
    | same =>
      by_cases isCovariant : name ∈ covariantNames
      · refine .inl ⟨_, ofFirst, ?_⟩
        rw [typeIs]
        exact .covariant isCovariant converts
      · exact .inr (.inr ⟨name, isName, isCovariant, typeIs⟩)
    | @covariant _ _ further isCovariant toLast =>
      cases typeIs
      have isElement := (library.isType_of_mem_supertypes isFirst ofFirst).of_collectionOf
      have isTarget := (library.isType_of_mem_supertypes isMiddle isSupertype).of_collectionOf
      have smallerLast : sizeOf further < sizeOf (collectionOf name further) :=
        TypeSymbol.IsPartOf.sizeOf_lt (.inl (List.mem_singleton_self further))
      rcases smaller element target further smallerLast isElement isTarget isLast.of_collectionOf
        converts toLast with toLast | breaks
      · exact .inl ⟨_, ofFirst, .covariant isCovariant toLast⟩
      · exact .inr (.inl (.argument isCovariant ofFirst isSupertype breaks))

variable (few : (table.supertypes first).length < maxSupertypes)

include few

/-- A middle type that the search for supertypes of the first one leads to. -/
theorem finds_of_finds (toMiddle : table.Finds first middle) (toLast : table.Finds middle last) :
    table.Finds first last ∨ table.Breaks first middle last := by
  have started : ∃ element target, table.ConvertsTo element target ∧
      table.IsMatched covariantNames first element target middle := by
    rcases toMiddle with ⟨type, ofFirst, leads⟩
    cases leads with
    | same => exact ⟨middle, middle, .inl rfl, .inl ofFirst⟩
    | @covariant name element target isCovariant converts =>
      exact ⟨element, target, converts, .inr ⟨name, isCovariant, rfl, ofFirst⟩⟩
  rcases started with ⟨element, target, converts, isMatched⟩
  rcases toLast with ⟨type, isSupertype, leads⟩
  rcases supertypes_induction isMatched
      (fun _ isMatched _ => library.isMatched_base few (.inr rfl) isMatched) isSupertype with
    isMatched | ⟨isInterface, isObject⟩
  · rcases library.finds_of_isMatched isFirst isMiddle isLast smaller converts isMatched isSupertype
      leads with finds | breaks | ⟨name, isName, notCovariant, -⟩
    · exact .inl finds
    · exact .inr breaks
    · exact absurd isName notCovariant
  · cases leads with
    | same =>
      rw [isObject]
      by_cases ofFirst : table.object ∈ table.supertypes first
      · exact .inl ⟨_, ofFirst, .same _⟩
      · exact .inr (.noObject isInterface ofFirst)
    | covariant => exact absurd isObject.symm library.object_ne_collectionOf

omit isFirst isMiddle in
/-- Between arrays, the collections of the elements follow each other. -/
theorem finds_of_arrays (isElement : table.IsType element) (isTarget : table.IsType target)
    (firstIs : first = .arrayOf element) (middleIs : middle = .arrayOf target)
    (converts : table.ConvertsTo element target) (noArray : last.elementType = none)
    (toLast : table.Finds middle last) :
    table.Finds first last ∨ table.Breaks first middle last := by
  subst firstIs middleIs
  have bases (element : TypeSymbol) : table.directSupertypes (.arrayOf element) =
      table.wellKnown "System.Array" :: arrayNames.map (collectionOf · element) :=
    library.array element
  have ofFirst {base : TypeSymbol} (isBase : base ∈ table.directSupertypes (.arrayOf element)) :
      base ∈ table.supertypes (.arrayOf element) :=
    library.mem_supertypes_of_mem_directSupertypes few
      (List.mem_of_mem_head? (table.head?_supertypes _)) isBase
  have step (type : TypeSymbol)
      (before : type = .arrayOf target ∨
        table.IsMatched arrayNames (.arrayOf element) element target type)
      (base : TypeSymbol) (isBase : base ∈ table.directSupertypes type) :
      base = .arrayOf target ∨
        table.IsMatched arrayNames (.arrayOf element) element target base := by
    right
    rcases before with rfl | isMatched
    · rw [bases] at isBase
      rcases List.mem_cons.mp isBase with rfl | isCollection
      · refine .inl (ofFirst ?_)
        rw [bases]
        exact List.mem_cons_self
      · rcases List.mem_map.mp isCollection with ⟨name, isName, rfl⟩
        refine .inr ⟨name, isName, rfl, ofFirst ?_⟩
        rw [bases]
        exact List.mem_cons_of_mem _ (List.mem_map_of_mem isName)
    · exact library.isMatched_base few (.inl rfl) isMatched isBase
  -- so every supertype of the second array is matched by one of the first
  rcases toLast with ⟨type, isSupertype, leads⟩
  rcases supertypes_induction (.inl rfl) step isSupertype with
    (isArray | isMatched) | ⟨isInterface, -⟩
  · cases leads with
    | same => simp [isArray, TypeSymbol.arrayOf] at noArray
    | covariant => exact absurd isArray.symm arrayOf_ne_collectionOf
  · rcases library.finds_of_isMatched (.array isElement) (.array isTarget) isLast smaller converts
      isMatched isSupertype leads with finds | breaks | ⟨name, isName, notCovariant, rfl⟩
    · exact .inl finds
    · exact .inr breaks
    · have isInvariant := (List.mem_append.mp isName).resolve_right notCovariant
      by_cases found : collectionOf name target ∈ table.supertypes (.arrayOf element)
      · exact .inl ⟨_, found, .same _⟩
      · exact .inr (.collection isInvariant found)
  · cases isInterface

omit smaller few isFirst isMiddle isLast in
/-- Two conversions of a reference make one, or break. -/
theorem convertsTo_trans (isFirst : table.IsType first) (isMiddle : table.IsType middle)
    (isLast : table.IsType last) (toMiddle : table.ConvertsTo first middle)
    (toLast : table.ConvertsTo middle last) :
    table.ConvertsTo first last ∨ table.Breaks first middle last := by
  suffices transitive : ∀ size, table.TransitiveBelow size from
    transitive _ first middle last (Nat.lt_succ_self _) isFirst isMiddle isLast toMiddle toLast
  clear isFirst isMiddle isLast toMiddle toLast
  intro size
  -- the elements and the type arguments of the last type are smaller than the type itself
  induction size with
  | zero => exact fun _ _ _ impossible => absurd impossible (Nat.not_lt_zero _)
  | succ size ih =>
    intro first middle last below isFirst isMiddle isLast toMiddle toLast
    have smaller : table.TransitiveBelow (sizeOf last) :=
      fun first middle further less => ih first middle further (by omega)
    rcases toMiddle with rfl | toMiddle
    · exact .inl toLast
    rcases toLast with rfl | toLast
    · exact .inl (.inr toMiddle)
    by_cases same : first = last
    · exact .inl (.inl same)
    by_cases isNullable : last.underlying? = some first
    · exact .inr (.nullable isNullable)
    by_cases many : maxSupertypes ≤ (table.supertypes first).length
    · exact .inr (.tooMany many)
    have few := Nat.lt_of_not_le many
    have isReference := isReferenceType_of_convertsByReference toMiddle
    rcases (library.convertsByReference_iff isFirst isMiddle).mp toMiddle with ⟨-, toMiddle⟩
    rcases (library.convertsByReference_iff isMiddle isLast).mp toLast with ⟨later, toLast⟩
    have isNone := library.valueConversion?_eq_none isFirst isReference
      (isUnknown_of_valueConversion? later) same isNullable
    suffices found : ((∃ element target, first = .arrayOf element ∧ last = .arrayOf target ∧
        table.ConvertsTo element target) ∨
          ((first.elementType = none ∨ last.elementType = none) ∧ table.Finds first last)) ∨
            table.Breaks first middle last from
      found.imp_left fun found =>
        .inr ((library.convertsByReference_iff isFirst isLast).mpr ⟨isNone, found⟩)
    -- Arrays convert to arrays by their elements; to all else only their supertypes lead.
    cases elements : last.elementType with
    | none =>
      have toLast : table.Finds middle last := by
        rcases toLast with ⟨element, target, -, rfl, -⟩ | ⟨-, finds⟩
        · cases elements
        · exact finds
      have finds : table.Finds first last ∨ table.Breaks first middle last := by
        rcases toMiddle with ⟨element, target, firstIs, middleIs, converts⟩ | ⟨-, toMiddle⟩
        · have isElement : table.IsType element := (isFirst.eq_arrayOf (by rw [firstIs]; rfl)).2
          have isTarget : table.IsType target := (isMiddle.eq_arrayOf (by rw [middleIs]; rfl)).2
          exact library.finds_of_arrays isLast smaller few isElement isTarget firstIs middleIs
            converts elements toLast
        · exact library.finds_of_finds isFirst isMiddle isLast smaller few toMiddle toLast
      exact finds.imp_left fun finds => .inr ⟨.inr rfl, finds⟩
    | some target =>
      rcases isLast.eq_arrayOf elements with ⟨rfl, isTarget⟩
      rcases toLast with ⟨element, _, rfl, same, toTarget⟩ | ⟨declared, toLast⟩
      · cases same
        rcases toMiddle with ⟨start, _, rfl, same, toElement⟩ | ⟨declared, toMiddle⟩
        · cases same
          have isStart := (isFirst.eq_arrayOf rfl).2
          have isElement := (isMiddle.eq_arrayOf rfl).2
          have below : sizeOf target < sizeOf (TypeSymbol.arrayOf target) :=
            TypeSymbol.IsPartOf.sizeOf_lt (.inr rfl)
          exact (smaller start element target below isStart isElement isTarget toElement
            toTarget).imp (fun toTarget => .inl ⟨start, target, rfl, rfl, toTarget⟩) .element
        · exact .inr (.derivedArray (.inl rfl)
            (declared.resolve_right (by simp [TypeSymbol.arrayOf])) (mem_of_finds_array toMiddle))
      · exact .inr (.derivedArray (.inr rfl)
          (declared.resolve_right (by simp [TypeSymbol.arrayOf])) (mem_of_finds_array toLast))

end HasLibrary

/-- A type has the identity or a conversion of references to another one. -/
def Reaches (table : TypeTable) (source destination : TypeSymbol) : Prop :=
  table.standardConversion source destination = .identity ∨
    table.standardConversion source destination = .implicitReference

instance : Decidable (table.Reaches source destination) :=
  inferInstanceAs (Decidable (_ ∨ _))

theorem isUnknown_of_convertsByReference
    (converts : table.convertsByReference source destination = true) :
    source.isUnknown = false := by
  have isReference := isReferenceType_of_convertsByReference converts
  unfold TypeSymbol.isReferenceType at isReference
  unfold TypeSymbol.isUnknown
  split at isReference <;> simp_all

theorem reaches_iff :
    table.Reaches source destination ↔
      source.isUnknown = false ∧ table.ConvertsTo source destination := by
  constructor
  · rintro (isIdentity | isReference)
    · have same : source.isUnknown = false ∧ source = destination := by
        rw [standardConversion_eq] at isIdentity
        grind
      exact ⟨same.1, .inl same.2⟩
    · have converts := standardConversion_eq_implicitReference_iff.mp isReference
      exact ⟨isUnknown_of_convertsByReference converts, .inr converts⟩
  · rintro ⟨known, rfl | converts⟩
    · exact .inl (by simp [standardConversion_eq, known])
    · exact .inr (standardConversion_eq_implicitReference_iff.mpr converts)

/-- A class with arrays and a list. -/
def arrayFields : String := "class A \x7b string[] s; object[] o; IList<object> l; \x7d"

/-- The types that the class can name. -/
def arrayTable : TypeTable := (ParsedDocument.ofSource arrayFields).table

/-- An array that the class can name. -/
def arrayOver (element : SpecialType) : TypeSymbol := .arrayOf (arrayTable.special element)

/-- A collection that the class can name. -/
def collectionOver (name : String) (element : SpecialType) : TypeSymbol :=
  arrayTable.constructed (TypeSymbol.qualify collectionNamespace name) [arrayTable.special element]

/-- From an array of strings over sequences of strings to sequences of objects, and over an array of
objects to a list of objects. -/
theorem evaluated_arrayFields :
    (ParsedDocument.ofSource arrayFields).declarations.KeepsLibrary ∧
    (arrayTable.Reaches (arrayOver .string) (collectionOver "IEnumerable" .string) ∧
      arrayTable.Reaches (collectionOver "IEnumerable" .string)
        (collectionOver "IEnumerable" .object)) ∧
    ((∀ type ∈ [arrayOver .string, arrayOver .object, collectionOver "IList" .object],
        (arrayTable.supertypes type).length < maxSupertypes) ∧
      arrayTable.Reaches (arrayOver .string) (arrayOver .object) ∧
      arrayTable.Reaches (arrayOver .object) (collectionOver "IList" .object) ∧
      ¬arrayTable.Reaches (arrayOver .string) (collectionOver "IList" .object)) ∧
    collectionOver "IEnumerable" .object =
      collectionOf "IEnumerable" (arrayTable.special .object) ∧
    (∀ type ∈ arrayTable.supertypes (arrayOver .string) ++
        arrayTable.supertypes (collectionOver "IEnumerable" .string),
      type.name = "IEnumerable" → ∀ argument ∈ type.typeArguments,
        argument = arrayTable.special .string) ∧
    (arrayTable.supertypes (arrayTable.special .string)).length < maxSupertypes ∧
    (arrayTable.special .string).kind = .class ∧
    (arrayTable.special .object).elementType = none ∧
    (arrayTable.special .object).typeArguments = [] := by
  decide +kernel

theorem keepsLibrary_arrayFields :
    (ParsedDocument.ofSource arrayFields).declarations.KeepsLibrary :=
  evaluated_arrayFields.1

theorem hasLibrary_arrayTable : arrayTable.HasLibrary :=
  hasLibrary_ofDeclarations (ParsedDocument.areDeclared_ofSource arrayFields)
    keepsLibrary_arrayFields

theorem isType_arrayOver (element : SpecialType) : arrayTable.IsType (arrayOver element) :=
  .array (hasLibrary_arrayTable.isType_special element)

theorem isType_collectionOver (name : String) (element : SpecialType) :
    arrayTable.IsType (collectionOver name element) :=
  have consistent := hasLibrary_arrayTable.toIsConsistent
  consistent.isType_constructed (List.forall_mem_singleton.mpr (consistent.isType_special element))

/-- In a document that leaves the names of the library alone, two conversions of references between
any types make one over both, unless the chain breaks off. At lists and collections of the elements
that an array converts to, it does: the array converts to those of its own elements only. -/
theorem standardConversion_trans {document : Declarations} (areDeclared : document.AreDeclared)
    (keeps : document.KeepsLibrary) {table : TypeTable}
    (tableIs : table = .ofDeclarations Reference.declarations document)
    {first middle last : TypeSymbol} (isFirst : table.IsType first)
    (isMiddle : table.IsType middle) (isLast : table.IsType last)
    (toMiddle : table.Reaches first middle) (toLast : table.Reaches middle last) :
    (table.Reaches first last ∨ table.Breaks first middle last) ∧
      ∀ element target, ∀ name ∈ invariantNames, first = .arrayOf element →
        last = collectionOf name target →
          (table.Reaches first last ↔ last ∈ table.supertypes first) := by
  subst tableIs
  have library := hasLibrary_ofDeclarations areDeclared keeps
  rcases reaches_iff.mp toMiddle with ⟨known, toMiddle⟩
  rcases reaches_iff.mp toLast with ⟨-, toLast⟩
  constructor
  · exact (library.convertsTo_trans isFirst isMiddle isLast toMiddle toLast).imp_left
      fun converts => reaches_iff.mpr ⟨known, converts⟩
  · rintro element target name isName rfl rfl
    have isElement := (isFirst.eq_arrayOf rfl).2
    rw [← library.convertsTo_collection_iff isElement isLast isName, reaches_iff]
    exact ⟨And.right, fun converts => ⟨known, converts⟩⟩

/-- A chain does not break off at a class without type arguments, unless the search for supertypes
is cut off. -/
theorem not_breaks_of_plain {first middle last : TypeSymbol}
    (notInterface : middle.kind ≠ .interface) (noArray : last.elementType = none)
    (noArguments : last.typeArguments = [])
    (few : (table.supertypes first).length < maxSupertypes) :
    ¬table.Breaks first middle last := by
  intro breaks
  cases breaks with
  | collection | argument => simp [collectionOf, TypeSymbol.named] at noArguments
  | derivedArray | element => cases noArray
  | noObject isInterface => exact notInterface isInterface
  | nullable isNullable =>
    rw [TypeSymbol.underlying?, noArguments] at isNullable
    simp at isNullable
  | tooMany many => omega

/-- The types on the way from an array of strings to sequences of objects are none of those where a
chain breaks off. -/
theorem not_breaks_sequences :
    ¬arrayTable.Breaks (arrayOver .string) (collectionOver "IEnumerable" .string)
      (collectionOver "IEnumerable" .object) := by
  rcases evaluated_arrayFields with ⟨-, -, ⟨areFew, -⟩, last_eq, areStrings, fewElements, isClass,
    noArray, noArguments⟩
  have few := areFew (arrayOver .string) List.mem_cons_self
  have ofFirst := fun type isFirst => areStrings type (List.mem_append_left _ isFirst)
  have ofMiddle := fun type isMiddle => areStrings type (List.mem_append_right _ isMiddle)
  rw [last_eq]
  generalize collectionOver "IEnumerable" .string = middle at ofMiddle
  generalize firstIs : arrayOver .string = first at few ofFirst
  generalize lastIs : collectionOf "IEnumerable" (arrayTable.special .object) = last
  intro breaks
  cases breaks with
  | collection isName =>
    cases lastIs
    exact absurd isName (by decide)
  | derivedArray | element => exact arrayOf_ne_collectionOf lastIs.symm
  | noObject => exact hasLibrary_arrayTable.object_ne_collectionOf lastIs.symm
  | nullable isNullable =>
    rw [← lastIs] at isNullable
    cases isNullable
  | tooMany many => omega
  | argument _ isFirst isMiddle breaks =>
    -- the type arguments on the way are strings, and these are objects
    cases lastIs
    have same := ofFirst _ isFirst rfl _ (List.mem_singleton_self _)
    have same' := ofMiddle _ isMiddle rfl _ (List.mem_singleton_self _)
    rw [same, same'] at breaks
    exact not_breaks_of_plain (by rw [isClass]; decide) noArray noArguments fewElements breaks

/-- From an array of strings over sequences of strings to sequences of objects. -/
theorem standardConversion_trans_sequences :
    arrayTable.Reaches (arrayOver .string) (collectionOver "IEnumerable" .string) ∧
      arrayTable.Reaches (collectionOver "IEnumerable" .string)
        (collectionOver "IEnumerable" .object) ∧
      arrayTable.Reaches (arrayOver .string) (collectionOver "IEnumerable" .object) := by
  have reached := evaluated_arrayFields.2.1
  have chain := standardConversion_trans (ParsedDocument.areDeclared_ofSource arrayFields)
    keepsLibrary_arrayFields (show arrayTable = _ from rfl) (isType_arrayOver .string)
    (isType_collectionOver "IEnumerable" .string) (isType_collectionOver "IEnumerable" .object)
    reached.1 reached.2
  exact ⟨reached.1, reached.2, chain.1.resolve_right not_breaks_sequences⟩

/-- An array of strings converts to an array of objects, and that to a list of objects, but an array
of strings does not convert to such a list. None of the three types has too many supertypes. -/
theorem exists_array_not_list :
    ∃ text first middle last, (ParsedDocument.ofSource text).declarations.KeepsLibrary ∧
      (∀ type ∈ [first, middle, last], (ParsedDocument.ofSource text).table.IsType type ∧
        ((ParsedDocument.ofSource text).table.supertypes type).length < maxSupertypes) ∧
      (ParsedDocument.ofSource text).table.Reaches first middle ∧
      (ParsedDocument.ofSource text).table.Reaches middle last ∧
      ¬(ParsedDocument.ofSource text).table.Reaches first last := by
  have areTypes : ∀ type ∈ [arrayOver .string, arrayOver .object, collectionOver "IList" .object],
      arrayTable.IsType type := by
    simp only [List.forall_mem_cons]
    exact ⟨isType_arrayOver .string, isType_arrayOver .object,
      isType_collectionOver "IList" .object, by simp⟩
  have evaluated := evaluated_arrayFields.2.2.1
  exact ⟨arrayFields, _, _, _, keepsLibrary_arrayFields,
    fun type isPart => ⟨areTypes type isPart, evaluated.1 type isPart⟩, evaluated.2⟩

end AssertionLint.TypeTable
