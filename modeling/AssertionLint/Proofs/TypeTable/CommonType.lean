import AssertionLint.Proofs.TypeTable.Mutual

/-!
# The common type of elements

The elements of an array without a written type have the first type of an element that every
element converts to. Their order does not matter exactly where no two different types qualify
(`TypeTable.commonType?_perm_iff`). Without declared operators, two types qualify where they convert
to each other, which sound declarations rule out, or where elements of type `int` are constants that
a narrower type holds.
-/

namespace AssertionLint

theorem SpecialType.of_constantFits {source destination : SpecialType} {value : Int}
    (fits : source.constantFits destination value = true) :
    ∃ least greatest, destination.constantRange? = some (least, greatest) ∧
      (source = .int32 ∧ least ≤ value ∧ value ≤ greatest ∨
        source = .int64 ∧ destination = .uint64) := by
  unfold constantFits at fits
  split at fits
  · cases fits
  · rename_i least greatest isRange
    refine ⟨least, greatest, isRange, ?_⟩
    split at fits
    · rw [Bool.and_eq_true, decide_eq_true_eq, decide_eq_true_eq] at fits
      exact .inl ⟨rfl, fits⟩
    · rw [Bool.and_eq_true, beq_iff_eq] at fits
      exact .inr ⟨rfl, fits.1⟩
    · cases fits

/-- A type that constants fit is one of four if all its values are values of `int`. -/
theorem SpecialType.mem_of_widensTo_int32 {source : SpecialType} {range : Int × Int}
    (isRange : source.constantRange? = some range) (widens : source.widensTo .int32 = true) :
    source ∈ [.sbyte, .byte, .int16, .uint16] := by
  cases source with
  | sbyte | byte | int16 | uint16 => decide
  | uint32 | uint64 => exact absurd widens (by decide)
  | _ => cases isRange

namespace TypeTable

variable {table : TypeTable} {elements others : List (Expr × Option TypeSymbol)} {element : Expr}
  {first second type source destination : TypeSymbol}

theorem exists_of_constantConversion?
    (converts : (constantConversion? source destination element).isSome = true) :
    ∃ value target, element.integerConstant? = some value ∧
      (destination = target ∨ destination.underlying? = some target) ∧
        source.special.constantFits target.special value = true := by
  unfold constantConversion? at converts
  rcases Option.isSome_iff_exists.mp converts with ⟨conversion, converts⟩
  rcases Option.bind_eq_some_iff.mp converts with ⟨value, isValue, converts⟩
  split at converts
  · exact ⟨value, destination, isValue, .inl rfl, ‹_›⟩
  · split at converts
    · rename_i target isUnderlying
      split at converts
      · exact ⟨value, target, isValue, .inr isUnderlying, ‹_›⟩
      · cases converts
    · cases converts

/-- Constants are of type `int` or `long`, and convert to neither of them. -/
theorem special_of_constantConversion?
    (converts : (constantConversion? source destination element).isSome = true) :
    source.special ∈ [.int32, .int64] ∧ destination.special ∉ [.int32, .int64] := by
  rcases exists_of_constantConversion? converts with ⟨value, target, -, isTarget, fits⟩
  rcases SpecialType.of_constantFits fits with ⟨least, greatest, isRange, sources⟩
  constructor
  · rcases sources with ⟨isSource, -⟩ | ⟨isSource, -⟩ <;> simp [isSource]
  · rcases isTarget with rfl | isUnderlying
    · intro isWide
      rcases List.mem_pair.mp isWide with isWide | isWide <;>
        (rw [isWide] at isRange; cases isRange)
    · rw [TypeSymbol.special_of_underlying? isUnderlying]
      decide

/-- A type of an element, not that of `null`, that every element with a known type converts to. -/
structure IsCommon (table : TypeTable) (elements : List (Expr × Option TypeSymbol))
    (type : TypeSymbol) : Prop where
  isElement : ∃ element, (element, some type) ∈ elements
  notNull : type.kind ≠ .null
  converts : ∀ element source, (element, some source) ∈ elements →
    (table.exprConversion element source type).exists = true

/-- No element needs a declared operator to convert to the type of another one. -/
def AvoidsOperators (table : TypeTable) (elements : List (Expr × Option TypeSymbol)) : Prop :=
  ∀ element ∈ elements, ∀ other ∈ elements, ∀ source ∈ element.2, ∀ type ∈ other.2,
    table.exprConversion element.1 source type ≠ .userDefined

instance : Decidable (table.AvoidsOperators elements) :=
  inferInstanceAs (Decidable (∀ element ∈ elements, _))

/-- Two different types that every element converts to: the second one converts to the first, and
back, unless all elements of the first type are constants that fit the second. -/
structure AreRivals (table : TypeTable) (elements : List (Expr × Option TypeSymbol))
    (first second : TypeSymbol) : Prop where
  different : first ≠ second
  isFirst : table.IsCommon elements first
  isSecond : table.IsCommon elements second
  toFirst : (table.standardConversion second first).exists = true
  toSecond : (table.standardConversion first second).exists = true ∨
    ∀ element, (element, some first) ∈ elements →
      (constantConversion? first second element).isSome = true

/-- All elements of type `int` are constants that a narrower type holds. -/
structure AreNarrow (elements : List (Expr × Option TypeSymbol)) (wide narrow : TypeSymbol) :
    Prop where
  isInt : wide.special = .int32
  isNarrow : narrow.special ∈ [.sbyte, .byte, .int16, .uint16]
  fit : ∀ element, (element, some wide) ∈ elements → ∃ value least greatest,
    element.integerConstant? = some value ∧
      narrow.special.constantRange? = some (least, greatest) ∧ least ≤ value ∧ value ≤ greatest

/-- Every element with a known type converts to the type. -/
def accepts (table : TypeTable) (elements : List (Expr × Option TypeSymbol)) (type : TypeSymbol) :
    Bool :=
  elements.all fun (element, source) =>
    match source with
    | none => true
    | some source => (table.exprConversion element source type).exists

theorem commonType?_eq :
    table.commonType? elements =
      ((elements.filterMap (·.2)).filter (·.kind != .null)).find? (table.accepts elements) := rfl

theorem isCommon_iff :
    table.IsCommon elements type ↔
      type ∈ (elements.filterMap (·.2)).filter (·.kind != .null) ∧
        table.accepts elements type = true := by
  rw [accepts, List.all_eq_true, List.mem_filter, List.mem_filterMap, bne_iff_ne]
  constructor
  · rintro ⟨⟨element, isElement⟩, notNull, converts⟩
    refine ⟨⟨⟨_, isElement, rfl⟩, notNull⟩, ?_⟩
    rintro ⟨other, none | source⟩ isOther
    · rfl
    · exact converts other source isOther
  · rintro ⟨⟨⟨⟨element, _⟩, isElement, rfl⟩, notNull⟩, converts⟩
    exact ⟨⟨element, isElement⟩, notNull, fun other source isOther => converts _ isOther⟩

theorem isCommon_of_commonType? (isType : table.commonType? elements = some type) :
    table.IsCommon elements type := by
  rw [commonType?_eq] at isType
  exact isCommon_iff.mpr ⟨List.mem_of_find?_eq_some isType, List.find?_some isType⟩

theorem commonType?_isSome (isCommon : table.IsCommon elements type) :
    (table.commonType? elements).isSome = true := by
  rw [commonType?_eq, List.find?_isSome]
  exact ⟨type, isCommon_iff.mp isCommon⟩

/-- A type that every element converts to is chosen if it is that of the first element. -/
theorem commonType?_cons (isCommon : table.IsCommon ((element, some type) :: elements) type) :
    table.commonType? ((element, some type) :: elements) = some type := by
  have accepted := (isCommon_iff.mp isCommon).2
  have notNull : (type.kind != .null) = true := bne_iff_ne.mpr isCommon.notNull
  have candidates : (((element, some type) :: elements).filterMap (·.2)).filter (·.kind != .null) =
      type :: (elements.filterMap (·.2)).filter (·.kind != .null) := by
    simp [notNull]
  rw [commonType?_eq, candidates, List.find?_cons_of_pos accepted]

theorem IsCommon.perm (isCommon : table.IsCommon elements type) (perm : elements.Perm others) :
    table.IsCommon others type where
  isElement := isCommon.isElement.imp fun _ => perm.mem_iff.mp
  notNull := isCommon.notNull
  converts element source isElement := isCommon.converts element source (perm.mem_iff.mpr isElement)

/-- Some order of the elements chooses a type that every element converts to. -/
theorem IsCommon.exists_perm (isCommon : table.IsCommon elements type) :
    ∃ others, elements.Perm others ∧ table.commonType? others = some type := by
  rcases isCommon.isElement with ⟨element, isElement⟩
  rcases List.append_of_mem isElement with ⟨before, after, rfl⟩
  exact ⟨_, List.perm_middle, commonType?_cons (isCommon.perm List.perm_middle)⟩

/-- The order of the elements does not matter exactly if at most one type qualifies. -/
theorem commonType?_perm_iff_unique :
    (∀ others, elements.Perm others → table.commonType? others = table.commonType? elements) ↔
      ∀ first second, table.IsCommon elements first → table.IsCommon elements second →
        first = second := by
  constructor
  · intro same first second isFirst isSecond
    rcases isFirst.exists_perm with ⟨others, perm, isFirst⟩
    rcases isSecond.exists_perm with ⟨further, furtherPerm, isSecond⟩
    rw [same others perm] at isFirst
    rw [same further furtherPerm] at isSecond
    exact Option.some.inj (isFirst.symm.trans isSecond)
  · intro unique others perm
    cases chosen : table.commonType? elements with
    | none =>
      rw [← Option.not_isSome_iff_eq_none] at chosen ⊢
      intro isSome
      rcases Option.isSome_iff_exists.mp isSome with ⟨type, isType⟩
      exact chosen (commonType?_isSome ((isCommon_of_commonType? isType).perm perm.symm))
    | some type =>
      have isCommon := isCommon_of_commonType? chosen
      rcases Option.isSome_iff_exists.mp (commonType?_isSome (isCommon.perm perm)) with
        ⟨other, isOther⟩
      rw [isOther, unique other type ((isCommon_of_commonType? isOther).perm perm.symm) isCommon]

/-- Without declared operators, an element converts to a type as all of its type do, or it is a
constant. -/
theorem constantConversion?_isSome (avoids : table.AvoidsOperators elements)
    (isType : table.IsCommon elements type) (isElement : (element, some source) ∈ elements)
    (notStandard : (table.standardConversion source type).exists = false) :
    (constantConversion? source type element).isSome = true := by
  rcases isType.isElement with ⟨other, isOther⟩
  have converts := isType.converts element source isElement
  have noOperator := avoids _ isElement _ isOther source rfl type rfl
  unfold exprConversion at converts noOperator
  simp only [notStandard, Bool.false_eq_true, if_false] at converts noOperator
  cases isConstant : constantConversion? source type element with
  | some conversion => rfl
  | none =>
    simp only [isConstant] at converts noOperator
    split at converts
    · rw [if_pos ‹_›] at noOperator
      exact (noOperator rfl).elim
    · cases converts

theorem areRivals_of_isCommon (avoids : table.AvoidsOperators elements) (different : first ≠ second)
    (isFirst : table.IsCommon elements first) (isSecond : table.IsCommon elements second) :
    table.AreRivals elements first second ∨ table.AreRivals elements second first := by
  have toSecond (notStandard : (table.standardConversion first second).exists = false) (element)
      (isElement : (element, some first) ∈ elements) :
      (constantConversion? first second element).isSome = true :=
    constantConversion?_isSome avoids isSecond isElement notStandard
  have toFirst (notStandard : (table.standardConversion second first).exists = false) (element)
      (isElement : (element, some second) ∈ elements) :
      (constantConversion? second first element).isSome = true :=
    constantConversion?_isSome avoids isFirst isElement notStandard
  cases there : (table.standardConversion first second).exists with
  | true =>
    cases back : (table.standardConversion second first).exists with
    | true => exact .inl ⟨different, isFirst, isSecond, back, .inl there⟩
    | false => exact .inr ⟨Ne.symm different, isSecond, isFirst, there, .inr (toFirst back)⟩
  | false =>
    cases back : (table.standardConversion second first).exists with
    | true => exact .inl ⟨different, isFirst, isSecond, back, .inr (toSecond there)⟩
    | false =>
      rcases isFirst.isElement with ⟨element, isElement⟩
      rcases isSecond.isElement with ⟨other, isOther⟩
      have isWide := (special_of_constantConversion? (toSecond there element isElement)).1
      exact absurd isWide (special_of_constantConversion? (toFirst back other isOther)).2

/-- Constants that fit another type of their elements make a narrower type out of `int`. -/
theorem HasLibrary.areNarrow_of_constants (library : table.HasLibrary)
    (isType : table.IsType first) (isOther : table.IsType second)
    (rivals : table.AreRivals elements first second)
    (constants : ∀ element, (element, some first) ∈ elements →
      (constantConversion? first second element).isSome = true) :
    AreNarrow elements first second ∨ table.HasImproperBases := by
  rcases rivals.isFirst.isElement with ⟨element, isElement⟩
  have isWide := (special_of_constantConversion? (constants element isElement)).1
  have numbers : first.special.wider ≠ [] ∧ first.special ≠ .nullable := by
    rcases List.mem_pair.mp isWide with isWide | isWide <;> rw [isWide] <;> decide
  -- the second type converts to a number type, so it can only widen
  rcases standardConversion_cases (Ne.symm rivals.different) rivals.isSecond.notNull
    rivals.toFirst with widens | addsNull | rises
  · left
    have notNullable : second.special ≠ .nullable := by
      intro isNullable
      rw [isNullable] at widens
      exact SpecialType.wider_ne_nil_of_widensTo widens rfl
    have fits (element : Expr) (isElement : (element, some first) ∈ elements) :
        ∃ value, element.integerConstant? = some value ∧
          first.special.constantFits second.special value = true := by
      rcases exists_of_constantConversion? (constants element isElement) with
        ⟨value, target, isValue, rfl | isUnderlying, fits⟩
      · exact ⟨value, isValue, fits⟩
      · exact (notNullable (TypeSymbol.special_of_underlying? isUnderlying)).elim
    have isInt : first.special = .int32 := by
      rcases fits element isElement with ⟨value, -, fits⟩
      rcases SpecialType.of_constantFits fits with
        ⟨least, greatest, -, ⟨isInt, -⟩ | ⟨isLong, isUnsigned⟩⟩
      · exact isInt
      · rw [isLong, isUnsigned] at widens
        exact absurd widens (by decide)
    have narrow : second.special ∈ [.sbyte, .byte, .int16, .uint16] := by
      rcases fits element isElement with ⟨value, -, fits⟩
      rcases SpecialType.of_constantFits fits with ⟨least, greatest, isRange, -⟩
      exact SpecialType.mem_of_widensTo_int32 isRange (isInt ▸ widens)
    refine ⟨isInt, narrow, fun element isElement => ?_⟩
    rcases fits element isElement with ⟨value, isValue, fits⟩
    rcases SpecialType.of_constantFits fits with
      ⟨least, greatest, isRange, ⟨-, lower, upper⟩ | ⟨isLong, -⟩⟩
    · exact ⟨value, least, greatest, isValue, isRange, lower, upper⟩
    · rw [isInt] at isLong
      cases isLong
  · rcases TypeSymbol.exists_of_convertsToNullable addsNull with ⟨inner, isUnderlying, -⟩
    exact (numbers.2 (TypeSymbol.special_of_underlying? isUnderlying)).elim
  · right
    refine (library.isReferenceType_of_rises isOther isType (Ne.symm rivals.different)
      rises).resolve_left ?_
    intro isReference
    exact numbers.1 (library.special_of_isReferenceType isType isReference).1

/-- Without declared operators, the order of the elements does not matter exactly where there are no
rivals. In a document that leaves the names of the library alone, rivals are `int` and a narrower
type that holds all constants of type `int` among the elements, unless the document has bases that
the language does not admit or adds null to a reference type. -/
theorem commonType?_perm_iff (table : TypeTable) {elements : List (Expr × Option TypeSymbol)}
    (avoids : table.AvoidsOperators elements) :
    ((∀ others, elements.Perm others → table.commonType? others = table.commonType? elements) ↔
      ¬∃ first second, table.AreRivals elements first second) ∧
    ∀ document : Declarations, document.AreDeclared → document.KeepsLibrary →
      table = .ofDeclarations Reference.declarations document →
      (∀ element type, (element, some type) ∈ elements → table.IsType type) →
      ∀ first second, table.AreRivals elements first second →
        AreNarrow elements first second ∨ table.HasImproperBases ∨
          first.AddsNullTo second ∨ second.AddsNullTo first := by
  constructor
  · rw [commonType?_perm_iff_unique]
    constructor
    · rintro unique ⟨first, second, rivals⟩
      exact rivals.different (unique first second rivals.isFirst rivals.isSecond)
    · intro noRivals first second isFirst isSecond
      by_contra different
      rcases areRivals_of_isCommon avoids different isFirst isSecond with rivals | rivals
      · exact noRivals ⟨first, second, rivals⟩
      · exact noRivals ⟨second, first, rivals⟩
  · rintro document areDeclared keeps rfl areTypes first second rivals
    rcases rivals.isFirst.isElement with ⟨element, isElement⟩
    rcases rivals.isSecond.isElement with ⟨other, isOther⟩
    have isType := areTypes element first isElement
    have isType' := areTypes other second isOther
    rcases rivals.toSecond with there | constants
    · rcases standardConversion_antisymm keeps areDeclared isType isType' rivals.isFirst.notNull
        rivals.isSecond.notNull there rivals.toFirst with same | exceptional
      · exact (rivals.different same).elim
      · exact .inr exceptional
    · exact ((hasLibrary_ofDeclarations areDeclared keeps).areNarrow_of_constants isType isType'
        rivals constants).imp_right .inl

/-- A class with a field of a narrow type. -/
def classWithByte : ParsedDocument :=
  .ofSource "class A \x7b byte b; \x7d"

/-- The type `int` in the class. -/
def intType : TypeSymbol := classWithByte.table.special .int32

/-- The type of the field. -/
def byteType : TypeSymbol := classWithByte.table.special .byte

/-- The literal `1` and the field. -/
def oneAndByte : List (Expr × Option TypeSymbol) :=
  [(.literal ⟨.integer, "1"⟩ none, some intType), (.name (.ofIdentifier "b") none, some byteType)]

/-- For the literal and the field the order matters, as the literal is a constant of type `byte`. -/
theorem commonType?_perm_iff_oneAndByte :
    classWithByte.table.AvoidsOperators oneAndByte ∧ classWithByte.declarations.AreDeclared ∧
      classWithByte.declarations.KeepsLibrary ∧
      (¬∀ others, oneAndByte.Perm others →
        classWithByte.table.commonType? others = classWithByte.table.commonType? oneAndByte) ∧
      classWithByte.table.AreRivals oneAndByte intType byteType ∧
      AreNarrow oneAndByte intType byteType ∧
      ∀ first second, classWithByte.table.AreRivals oneAndByte first second →
        AreNarrow oneAndByte first second ∨ classWithByte.table.HasImproperBases ∨
          first.AddsNullTo second ∨ second.AddsNullTo first := by
  have evaluated : classWithByte.table.AvoidsOperators oneAndByte ∧
      classWithByte.declarations.KeepsLibrary ∧ intType ≠ byteType ∧
      intType.special = .int32 ∧ byteType.special = .byte ∧
      (∀ type ∈ [intType, byteType],
        type ∈ (oneAndByte.filterMap (·.2)).filter (·.kind != .null) ∧
          classWithByte.table.accepts oneAndByte type = true) ∧
      (classWithByte.table.standardConversion byteType intType).exists = true ∧
      ∀ pair ∈ oneAndByte, pair.2 = some intType →
        (constantConversion? intType byteType pair.1).isSome = true := by
    decide +kernel
  rcases evaluated with ⟨avoids, keeps, different, isInt, isByte, accepted, toFirst, constants⟩
  have rivals : classWithByte.table.AreRivals oneAndByte intType byteType :=
    ⟨different, isCommon_iff.mpr (accepted intType (by simp)),
      isCommon_iff.mpr (accepted byteType (by simp)), toFirst,
      .inr fun element isElement => constants (element, some intType) isElement rfl⟩
  have areDeclared := ParsedDocument.areDeclared (Node.isDocument_ofSource
    classWithByte.tree.source)
  have library := hasLibrary_ofDeclarations areDeclared keeps
  have areTypes (element : Expr) (type : TypeSymbol)
      (isElement : (element, some type) ∈ oneAndByte) : classWithByte.table.IsType type := by
    simp only [oneAndByte, List.mem_cons, Prod.mk.injEq, Option.some.injEq, List.not_mem_nil,
      or_false] at isElement
    rcases isElement with ⟨-, rfl⟩ | ⟨-, rfl⟩
    · exact library.isType_special .int32
    · exact library.isType_special .byte
  have narrow : AreNarrow oneAndByte intType byteType := by
    refine ⟨isInt, by simp [isByte], fun element isElement =>
      ⟨1, 0, 255, ?_, by rw [isByte]; rfl, by decide, by decide⟩⟩
    simp only [oneAndByte, List.mem_cons, Prod.mk.injEq, Option.some.injEq, List.not_mem_nil,
      or_false] at isElement
    rcases isElement with ⟨rfl, -⟩ | ⟨-, same⟩
    · decide
    · exact absurd same different
  rcases commonType?_perm_iff classWithByte.table avoids with ⟨orders, causes⟩
  exact ⟨avoids, areDeclared, keeps, fun same => orders.mp same ⟨_, _, rivals⟩, rivals, narrow,
    causes classWithByte.declarations areDeclared keeps rfl areTypes⟩

/-- The literal in front makes elements of type `int`, and behind the field of type `byte`. -/
theorem exists_order_of_elements :
    ∃ elements others, elements.Perm others ∧
      classWithByte.table.AvoidsOperators elements ∧ intType ≠ byteType ∧
      classWithByte.table.commonType? elements = some intType ∧
      classWithByte.table.commonType? others = some byteType := by
  have evaluated : classWithByte.table.AvoidsOperators oneAndByte ∧ intType ≠ byteType ∧
      classWithByte.table.commonType? oneAndByte = some intType ∧
      classWithByte.table.commonType? oneAndByte.reverse = some byteType := by
    decide +kernel
  exact ⟨oneAndByte, oneAndByte.reverse, (List.reverse_perm _).symm, evaluated⟩

end TypeTable

end AssertionLint
