import AssertionLint.Proofs.TypeTable.Transitivity
import Mathlib.Logic.Relation

/-!
# Types that convert to each other

Two different types do not convert to each other by standard conversions
(`TypeTable.standardConversion_antisymm`), unless bases are declared as the language does not admit
them (`TypeTable.HasImproperBases`) or null is added to a reference type. Steps up the supertypes
forget the type arguments, because a covariant interface may come back with others.
-/

namespace AssertionLint

namespace SpecialType

/-- Number types of one size have one rank, and wider ones a greater rank. -/
def rank : SpecialType → Nat
  | int16 | uint16 => 1
  | int32 | uint32 => 2
  | int64 | uint64 => 3
  | single | decimal => 4
  | double => 5
  | _ => 0

theorem rank_lt_of_mem_wider (source : SpecialType) :
    ∀ destination ∈ source.wider, source.rank < destination.rank := by
  cases source <;> decide

theorem not_widensTo_of_widensTo {source destination : SpecialType}
    (widens : source.widensTo destination = true) : destination.widensTo source = false := by
  by_contra back
  rw [Bool.not_eq_false, widensTo, List.contains_iff_mem] at back
  rw [widensTo, List.contains_iff_mem] at widens
  have := rank_lt_of_mem_wider source destination widens
  have := rank_lt_of_mem_wider destination source back
  omega

theorem wider_ne_nil_of_widensTo {source destination : SpecialType}
    (widens : source.widensTo destination = true) : source.wider ≠ [] := by
  rw [widensTo, List.contains_iff_mem] at widens
  exact List.ne_nil_of_mem widens

end SpecialType

namespace TypeSymbol

theorem sameDefinition_refl (type : TypeSymbol) : type.sameDefinition type = true := by
  simp [sameDefinition]

theorem sameDefinition_trans {first second third : TypeSymbol}
    (toSecond : first.sameDefinition second = true) (toThird : second.sameDefinition third = true) :
    first.sameDefinition third = true := by
  simp only [sameDefinition, Bool.and_eq_true, beq_iff_eq] at toSecond toThird ⊢
  grind

/-- A type adds null to a type that has it already. -/
def AddsNullTo (type inner : TypeSymbol) : Prop :=
  type.underlying? = some inner ∧ inner.isReferenceType = true

theorem exists_of_convertsToNullable {source destination : TypeSymbol}
    (converts : source.convertsToNullable destination = true) :
    ∃ target, destination.underlying? = some target ∧
      (source.underlying = target ∨
        source.underlying.special.widensTo target.special = true) := by
  unfold convertsToNullable at converts
  split at converts
  · rename_i target isUnderlying
    rw [Bool.or_eq_true, beq_iff_eq] at converts
    exact ⟨target, isUnderlying, converts⟩
  · cases converts

theorem special_of_underlying? {type inner : TypeSymbol}
    (isUnderlying : type.underlying? = some inner) : type.special = .nullable := by
  unfold underlying? isNullableValueType at isUnderlying
  split at isUnderlying
  · rename_i isNullable
    exact beq_iff_eq.mp isNullable
  · cases isUnderlying

theorem underlying_of_special {type : TypeSymbol} (notNullable : type.special ≠ .nullable) :
    type.underlying = type := by
  simp [underlying, underlying?, isNullableValueType, notNullable]

end TypeSymbol

namespace TypeTable

variable {table : TypeTable} {first second type base : TypeSymbol}

/-- A direct supertype of the type has the definition of the base. -/
def Derives (table : TypeTable) (type base : TypeSymbol) : Prop :=
  ∃ direct ∈ table.directSupertypes type, direct.sameDefinition base = true

/-- Bases that the language does not admit. -/
inductive HasImproperBases (table : TypeTable) : Prop
  /-- A definition derives from itself. -/
  | circle {type : TypeSymbol} (derives : Relation.TransGen table.Derives type type)
  /-- A base is not a reference type. -/
  | base {type base : TypeSymbol} (isType : table.IsType type)
      (isBase : base ∈ table.directSupertypes type) (notReference : base.isReferenceType = false)

theorem derives_of_sameDefinition {other : TypeSymbol}
    (derives : Relation.TransGen table.Derives type base)
    (same : base.sameDefinition other = true) : Relation.TransGen table.Derives type other := by
  have last {type : TypeSymbol} (derives : table.Derives type base) : table.Derives type other := by
    rcases derives with ⟨direct, isDirect, toBase⟩
    exact ⟨direct, isDirect, TypeSymbol.sameDefinition_trans toBase same⟩
  cases derives with
  | single derives => exact .single (last derives)
  | tail before derives => exact .tail before (last derives)

theorem derives_of_mem_supertypes (isSupertype : base ∈ table.supertypes type) :
    (base = type ∨ Relation.TransGen table.Derives type base) ∨
      (type.kind = .interface ∧ base = table.object) := by
  refine supertypes_induction
    (motive := fun base => base = type ∨ Relation.TransGen table.Derives type base) (.inl rfl) ?_
    isSupertype
  rintro middle before direct isDirect
  have derives : table.Derives middle direct :=
    ⟨direct, isDirect, TypeSymbol.sameDefinition_refl direct⟩
  rcases before with rfl | before
  · exact .inr (.single derives)
  · exact .inr (.tail before derives)

theorem sameDefinition_collectionOf (name : String) (element target : TypeSymbol) :
    (collectionOf name element).sameDefinition (collectionOf name target) = true := by
  simp [TypeSymbol.sameDefinition, collectionOf, TypeSymbol.named, TypeSymbol.arity]

namespace HasLibrary

variable (library : table.HasLibrary)

include library

/-- All proper supertypes of a type are reference types. -/
theorem isReferenceType_of_mem_supertypes (isType : table.IsType type)
    (isSupertype : base ∈ table.supertypes type) (proper : type ≠ base) :
    base.isReferenceType = true ∨ table.HasImproperBases := by
  have starts : table.IsType type ∧
      (type ≠ type → type.isReferenceType = true ∨ table.HasImproperBases) :=
    ⟨isType, fun different => (different rfl).elim⟩
  have holds := supertypes_induction
    (motive := fun base => table.IsType base ∧
      (type ≠ base → base.isReferenceType = true ∨ table.HasImproperBases)) starts
    (fun middle before base isBase => by
      refine ⟨library.isType_of_mem_directSupertypes before.1 isBase, fun _ => ?_⟩
      cases isReference : base.isReferenceType with
      | true => exact .inl rfl
      | false => exact .inr (.base before.1 isBase isReference)) isSupertype
  rcases holds with ⟨-, isReference⟩ | ⟨-, rfl⟩
  · exact isReference proper
  · rw [library.object_eq]
    exact .inl rfl

/-- What the search for a destination among the supertypes goes through. -/
theorem derives_of_finds (finds : table.Finds first second) :
    first = second ∨ Relation.TransGen table.Derives first second ∨
      (first.kind = .interface ∧ second = table.object) ∨
        ∃ name ∈ covariantNames, ∃ source target, first = collectionOf name source ∧
          second = collectionOf name target ∧ table.ConvertsTo source target := by
  rcases finds with ⟨supertype, isSupertype, leads⟩
  rcases derives_of_mem_supertypes isSupertype with (isFirst | derives) | ⟨isInterface, isObject⟩
  · subst isFirst
    cases leads with
    | same => exact .inl rfl
    | @covariant name source target isCovariant converts =>
      exact .inr (.inr (.inr ⟨name, isCovariant, source, target, rfl, rfl, converts⟩))
  · cases leads with
    | same => exact .inr (.inl derives)
    | @covariant name source target isCovariant converts =>
      exact .inr (.inl (derives_of_sameDefinition derives (sameDefinition_collectionOf _ _ _)))
  · subst isObject
    generalize objectIs : table.object = object at leads
    cases leads with
    | same => exact .inr (.inr (.inl ⟨isInterface, rfl⟩))
    | covariant => exact absurd objectIs library.object_ne_collectionOf

theorem not_derives_object : ¬Relation.TransGen table.Derives table.object base := by
  intro derives
  rcases Relation.TransGen.head'_iff.mp derives with ⟨direct, ⟨_, isDirect, -⟩, -⟩
  rw [library.object] at isDirect
  exact List.not_mem_nil isDirect

/-- The object type is found from interfaces, but leads to nothing else. -/
theorem eq_object_of_finds (finds : table.Finds table.object base) : base = table.object := by
  rcases library.derives_of_finds finds with same | derives | ⟨isInterface, -⟩ |
    ⟨name, -, source, -, isCollection, -⟩
  · exact same.symm
  · exact (library.not_derives_object derives).elim
  · rw [library.object_eq] at isInterface
    cases isInterface
  · exact absurd isCollection library.object_ne_collectionOf

/-- Two different references do not convert to each other. -/
theorem convertsTo_antisymm (isFirst : table.IsType first) (isSecond : table.IsType second)
    (there : table.ConvertsTo first second) (back : table.ConvertsTo second first) :
    first = second ∨ table.HasImproperBases := by
  suffices bounded : ∀ size, ∀ first second, sizeOf first < size → table.IsType first →
      table.IsType second → table.ConvertsTo first second → table.ConvertsTo second first →
        first = second ∨ table.HasImproperBases from
    bounded _ first second (Nat.lt_succ_self _) isFirst isSecond there back
  clear isFirst isSecond there back
  intro size
  -- arrays and covariant collections leave the question to their elements
  induction size with
  | zero => exact fun _ _ impossible => absurd impossible (Nat.not_lt_zero _)
  | succ size ih =>
    intro first second below isFirst isSecond there back
    rcases there with rfl | there
    · exact .inl rfl
    rcases back with rfl | back
    · exact .inl rfl
    rcases (library.convertsByReference_iff isFirst isSecond).mp there with ⟨-, onward⟩
    rcases (library.convertsByReference_iff isSecond isFirst).mp back with ⟨-, backward⟩
    clear there back
    rcases onward with ⟨element, target, rfl, rfl, toTarget⟩ | ⟨notArrays, onward⟩
    · rcases backward with ⟨_, _, same, same', toElement⟩ | ⟨none | none, -⟩
      · cases same
        cases same'
        have smaller : sizeOf element < sizeOf (TypeSymbol.arrayOf element) :=
          TypeSymbol.IsPartOf.sizeOf_lt (.inr rfl)
        exact (ih element target (by omega) (isFirst.eq_arrayOf rfl).2 (isSecond.eq_arrayOf rfl).2
          toTarget toElement).imp_left (congrArg TypeSymbol.arrayOf)
      · cases none
      · cases none
    rcases backward with ⟨_, _, rfl, rfl, -⟩ | ⟨-, backward⟩
    · rcases notArrays with none | none <;> cases none
    -- each way there against each way back: where both derive, the declarations are circular
    rcases library.derives_of_finds onward with same | derives | ⟨-, rfl⟩ |
      ⟨name, isName, source, target, rfl, rfl, toTarget⟩
    · exact .inl same
    · rcases library.derives_of_finds backward with same | derivesBack | ⟨-, rfl⟩ |
        ⟨name, -, source, target, rfl, rfl, -⟩
      · exact .inl same.symm
      · exact .inr (.circle (derives.trans derivesBack))
      · exact (library.not_derives_object derives).elim
      · exact .inr (.circle
          (derives_of_sameDefinition derives (sameDefinition_collectionOf _ _ _)))
    · exact .inl (library.eq_object_of_finds backward)
    · rcases library.derives_of_finds backward with same | derivesBack | ⟨-, isObject⟩ |
        ⟨_, -, _, _, same, same', toSource⟩
      · exact .inl same.symm
      · exact .inr (.circle
          (derives_of_sameDefinition derivesBack (sameDefinition_collectionOf _ _ _)))
      · exact absurd isObject.symm library.object_ne_collectionOf
      · cases same
        cases same'
        have smaller : sizeOf source < sizeOf (collectionOf name source) :=
          TypeSymbol.IsPartOf.sizeOf_lt (.inl (List.mem_singleton_self source))
        exact (ih source target (by omega) isFirst.of_collectionOf isSecond.of_collectionOf
          toTarget toSource).imp_left (congrArg (collectionOf name))

/-- Where references convert to, there are references. -/
theorem isReferenceType_of_convertsByReference_to (isFirst : table.IsType first)
    (isSecond : table.IsType second) (different : first ≠ second)
    (converts : table.convertsByReference first second = true) :
    second.isReferenceType = true ∨ table.HasImproperBases := by
  rcases (library.convertsByReference_iff isFirst isSecond).mp converts with
    ⟨-, ⟨_, _, -, rfl, -⟩ | ⟨-, supertype, isSupertype, leads⟩⟩
  · exact .inl rfl
  · cases leads with
    | same => exact library.isReferenceType_of_mem_supertypes isFirst isSupertype different
    | covariant => exact .inl rfl

end HasLibrary

/-- A value is boxed or a reference converted. -/
def Rises (table : TypeTable) (source destination : TypeSymbol) : Prop :=
  (source.isReferenceType = false ∧ destination ∈ table.supertypes source) ∨
    table.convertsByReference source destination = true

/-- The standard conversions between different types, none of which is that of `null`. -/
theorem standardConversion_cases (different : first ≠ second) (notNull : first.kind ≠ .null)
    (converts : (table.standardConversion first second).exists = true) :
    first.special.widensTo second.special = true ∨ first.convertsToNullable second = true ∨
      table.Rises first second := by
  have references (isValue : first.isValueType = true ∨ first.kind = .typeParameter) :
      first.isReferenceType = false := by
    unfold TypeSymbol.isReferenceType
    unfold TypeSymbol.isValueType at isValue
    grind
  rw [standardConversion_eq] at converts
  unfold Rises
  split_ifs at converts <;> simp_all [Conversion.exists]

namespace HasLibrary

variable (library : table.HasLibrary) (isFirst : table.IsType first)
  (isSecond : table.IsType second)

include library isFirst

theorem special_of_isReferenceType (isReference : first.isReferenceType = true) :
    first.special.wider = [] ∧ first.special ≠ .nullable := by
  cases isFirst with
  | declared isDecl => exact library.special isDecl _ isReference
  | array => exact ⟨rfl, by simp [TypeSymbol.arrayOf, TypeSymbol.empty]⟩
  | typeParameter | null | void | unresolved => cases isReference

include isSecond

theorem isReferenceType_of_rises (different : first ≠ second) (rises : table.Rises first second) :
    second.isReferenceType = true ∨ table.HasImproperBases := by
  rcases rises with ⟨-, isSupertype⟩ | converts
  · exact library.isReferenceType_of_mem_supertypes isFirst isSupertype different
  · exact library.isReferenceType_of_convertsByReference_to isFirst isSecond different converts

/-- A number type is no supertype. -/
theorem hasImproperBases_of_widensTo (different : first ≠ second) (notNull : second.kind ≠ .null)
    (widens : first.special.widensTo second.special = true)
    (back : (table.standardConversion second first).exists = true) : table.HasImproperBases := by
  have wide := SpecialType.wider_ne_nil_of_widensTo widens
  rcases standardConversion_cases (Ne.symm different) notNull back with
    widensBack | addsNull | rises
  · rw [SpecialType.not_widensTo_of_widensTo widens] at widensBack
    cases widensBack
  · rcases TypeSymbol.exists_of_convertsToNullable addsNull with ⟨inner, isUnderlying, -⟩
    rw [TypeSymbol.special_of_underlying? isUnderlying] at wide
    exact (wide rfl).elim
  · refine (library.isReferenceType_of_rises isSecond isFirst (Ne.symm different)
      rises).resolve_left ?_
    intro isReference
    exact wide (library.special_of_isReferenceType isFirst isReference).1

/-- What a type with null rises to has null itself. -/
theorem addsNullTo_of_rises (different : first ≠ second)
    (addsNull : first.convertsToNullable second = true) (rises : table.Rises second first) :
    table.HasImproperBases ∨ second.AddsNullTo first := by
  rcases library.isReferenceType_of_rises isSecond isFirst (Ne.symm different) rises with
    isReference | improper
  · right
    have special := library.special_of_isReferenceType isFirst isReference
    rcases TypeSymbol.exists_of_convertsToNullable addsNull with ⟨inner, isUnderlying, converts⟩
    rw [TypeSymbol.underlying_of_special special.2] at converts
    rcases converts with rfl | widens
    · exact ⟨isUnderlying, isReference⟩
    · exact (SpecialType.wider_ne_nil_of_widensTo widens special.1).elim
  · exact .inl improper

/-- What is boxed does not come back by a conversion of references. -/
theorem eq_of_rises (rises : table.Rises first second) (back : table.Rises second first) :
    first = second ∨ table.HasImproperBases := by
  by_cases same : first = second
  · exact .inl same
  rcases library.isReferenceType_of_rises isFirst isSecond same rises with isSecondRef | improper
  · rcases library.isReferenceType_of_rises isSecond isFirst (Ne.symm same) back with
      isFirstRef | improper
    · rcases rises with ⟨isValue, -⟩ | converts
      · rw [isFirstRef] at isValue
        cases isValue
      rcases back with ⟨isValue, -⟩ | convertsBack
      · rw [isSecondRef] at isValue
        cases isValue
      exact library.convertsTo_antisymm isFirst isSecond (.inr converts) (.inr convertsBack)
    · exact .inr improper
  · exact .inr improper

end HasLibrary

section Document

variable {document : Declarations} (keeps : document.KeepsLibrary)

include keeps

theorem eq_symbolOf_of_underlying? {inner : TypeSymbol}
    (isType : (ofDeclarations Reference.declarations document).IsType type)
    (isUnderlying : type.underlying? = some inner) :
    type = (ofDeclarations Reference.declarations document).symbolOf ⟨.reference, 24⟩ [inner] := by
  have isNullable := TypeSymbol.special_of_underlying? isUnderlying
  cases isType with
  | @declared id type typeArguments isDecl arity areTypes =>
    rcases id with ⟨origin, index⟩
    cases origin with
    | document =>
      rw [(plain_of_document keeps isDecl typeArguments).1] at isNullable
      cases isNullable
    | reference =>
      have inside := (List.getElem?_eq_some_iff.mp isDecl).1
      rw [symbolOf_eq_of_arguments isDecl] at isNullable
      rcases (forall_reference index inside).2.2.2 isNullable with ⟨rfl, one⟩
      have isType : Reference.declarations.types[24]? = some type := isDecl
      rw [isType] at one
      rw [beq_iff_eq.mp one] at arity
      rcases List.length_eq_one_iff.mp arity with ⟨element, rfl⟩
      unfold TypeSymbol.underlying? at isUnderlying
      split at isUnderlying
      · rw [symbolOf, isDecl] at isUnderlying
        cases isUnderlying
        rfl
      · cases isUnderlying
  | array | typeParameter | null | void | unresolved => cases isNullable

theorem eq_of_convertsToNullable
    (isFirst : (ofDeclarations Reference.declarations document).IsType first)
    (isSecond : (ofDeclarations Reference.declarations document).IsType second)
    (addsNull : first.convertsToNullable second = true)
    (back : second.convertsToNullable first = true) : first = second := by
  rcases TypeSymbol.exists_of_convertsToNullable addsNull with ⟨target, ofSecond, onward⟩
  rcases TypeSymbol.exists_of_convertsToNullable back with ⟨source, ofFirst, backward⟩
  rw [TypeSymbol.underlying, ofFirst, Option.getD_some] at onward
  rw [TypeSymbol.underlying, ofSecond, Option.getD_some] at backward
  have same : source = target := by
    rcases onward with same | widens
    · exact same
    · rcases backward with same | widensBack
      · exact same.symm
      · rw [SpecialType.not_widensTo_of_widensTo widens] at widensBack
        cases widensBack
  rw [eq_symbolOf_of_underlying? keeps isFirst ofFirst, same,
    ← eq_symbolOf_of_underlying? keeps isSecond ofSecond]

/-- Two different types convert to each other only over bases that the language does not admit, or
where null is added to a reference type. -/
theorem standardConversion_antisymm (areDeclared : document.AreDeclared)
    (isFirst : (ofDeclarations Reference.declarations document).IsType first)
    (isSecond : (ofDeclarations Reference.declarations document).IsType second)
    (notNull : first.kind ≠ .null) (notNull' : second.kind ≠ .null)
    (there : ((ofDeclarations Reference.declarations document).standardConversion first
      second).exists = true)
    (back : ((ofDeclarations Reference.declarations document).standardConversion second
      first).exists = true) :
    first = second ∨ (ofDeclarations Reference.declarations document).HasImproperBases ∨
      first.AddsNullTo second ∨ second.AddsNullTo first := by
  have library := hasLibrary_ofDeclarations areDeclared keeps
  by_cases same : first = second
  · exact .inl same
  rcases standardConversion_cases same notNull there with widens | addsNull | rises
  · exact .inr (.inl
      (library.hasImproperBases_of_widensTo isFirst isSecond same notNull' widens back))
  · rcases standardConversion_cases (Ne.symm same) notNull' back with
      widensBack | addsNullBack | risesBack
    · exact .inr (.inl (library.hasImproperBases_of_widensTo isSecond isFirst (Ne.symm same)
        notNull widensBack there))
    · exact .inl (eq_of_convertsToNullable keeps isFirst isSecond addsNull addsNullBack)
    · exact .inr ((library.addsNullTo_of_rises isFirst isSecond same addsNull risesBack).imp_right
        .inr)
  · rcases standardConversion_cases (Ne.symm same) notNull' back with
      widensBack | addsNullBack | risesBack
    · exact .inr (.inl (library.hasImproperBases_of_widensTo isSecond isFirst (Ne.symm same)
        notNull widensBack there))
    · exact .inr ((library.addsNullTo_of_rises isSecond isFirst (Ne.symm same) addsNullBack
        rises).imp_right .inl)
    · exact (library.eq_of_rises isFirst isSecond rises risesBack).imp_right .inl

end Document

end TypeTable

end AssertionLint
