import AssertionLint.Proofs.Binding.Resolution
import AssertionLint.Proofs.TypeTable.Framework

/-!
# The overloads of `Assert.That`

`Assert.That` takes a condition, or a value with a constraint, each without and with a message. In
the table of every document that keeps the reference surface, here is when a call without labels
resolves to one of these overloads: with a condition if it converts to a truth value
(`TypeTable.isSome_resolveAmong?_condition`), and with a constraint if something can be inferred for
the type of the value (`TypeTable.isSome_resolveAmong?_two`,
`TypeTable.isSome_resolveAmong?_valueMessage`).
-/

namespace AssertionLint

namespace TypeTable

section

variable {table : TypeTable} {slots : List ArgumentSlot} {explicit : List TypeSymbol}
  {candidates : List MethodCandidate} {candidate : MethodCandidate}

/-- An applicable candidate with a signature of its own stays. -/
theorem stays_of_sameSignature {found : ApplicableMethod} (isCandidate : candidate ∈ candidates)
    (isFound : table.applicable? slots explicit candidate = some found)
    (isOwn : ∀ other ∈ candidates, other ≠ candidate → ∀ method,
      table.applicable? slots explicit other = some method → method.sameSignature found = false) :
    table.Stays slots explicit candidates (candidate, found) := by
  rcases List.eq_append_cons_of_mem isCandidate with ⟨before, after, rfl, isFirst⟩
  refine ⟨before, after, rfl, isFound, fun other isBefore method isApplicable => ?_⟩
  refine isOwn other (List.mem_append_left _ isBefore) ?_ method isApplicable
  rintro rfl
  exact isFirst isBefore

/-- An applicable candidate that is better than all others that are applicable is chosen. -/
theorem isSome_resolveAmong?_of_isBetter {found : ApplicableMethod}
    (isCandidate : candidate ∈ candidates)
    (isFound : table.applicable? slots explicit candidate = some found)
    (isBest : ∀ other ∈ candidates, other ≠ candidate → ∀ method,
      table.applicable? slots explicit other = some method →
        method.sameSignature found = false ∧ table.isBetter slots found method = true) :
    (table.resolveAmong? candidates slots explicit).isSome = true := by
  have wins : table.Wins slots explicit candidates (candidate, found) := by
    refine ⟨stays_of_sameSignature isCandidate isFound fun other isOther differs method
      isApplicable => (isBest other isOther differs method isApplicable).1, ?_⟩
    rintro ⟨other, method⟩ ⟨front, back, split, isApplicable, -⟩ differs
    have isOther : other ∈ candidates := by simp [split]
    refine (isBest other isOther ?_ method isApplicable).2
    rintro rfl
    cases isFound.symm.trans isApplicable
    exact differs rfl
  exact Option.isSome_iff_exists.mpr ⟨_, resolveAmong?_eq_some_iff.mpr ⟨_, wins, rfl⟩⟩

/-- The only candidate that is applicable is chosen. -/
theorem isSome_resolveAmong?_of_unique (isCandidate : candidate ∈ candidates)
    (isApplicable : (table.applicable? slots explicit candidate).isSome = true)
    (others : ∀ other ∈ candidates, other ≠ candidate →
      table.applicable? slots explicit other = none) :
    (table.resolveAmong? candidates slots explicit).isSome = true := by
  rcases Option.isSome_iff_exists.mp isApplicable with ⟨found, isFound⟩
  refine isSome_resolveAmong?_of_isBetter isCandidate isFound ?_
  intro other isOther differs method isApplicable
  rw [others other isOther differs] at isApplicable
  cases isApplicable

/-- What is chosen is applicable. -/
theorem exists_applicable_of_resolveAmong? {method : MethodSymbol}
    (isResolved : table.resolveAmong? candidates slots explicit = some method) :
    ∃ candidate ∈ candidates, ∃ found, table.applicable? slots explicit candidate = some found ∧
      methodSymbol candidate found = method := by
  rcases resolveAmong?_eq_some_iff.mp isResolved with
    ⟨⟨candidate, found⟩, ⟨⟨before, after, rfl, isFound, -⟩, -⟩, rfl⟩
  exact ⟨candidate, by simp, found, isFound, rfl⟩

end

/-- The class of assertions. -/
def assertions : TypeSymbol := library.wellKnown Names.assertHolder

/-- The overloads of `Assert.That`. -/
def thatCandidates : List MethodCandidate := memberCandidates assertions "That"

/-- The overload of `Assert.That` at a place. -/
def thatCandidate (place : Nat) : MethodCandidate := thatCandidates[place]?.getD default

/-- The type of conditions. -/
def truth : TypeSymbol := library.special .boolean

/-- The type of messages. -/
def text : TypeSymbol := library.special .string

/-- The type of what `Assert.That` takes for a constraint. -/
def resolver : TypeSymbol := library.wellKnown "NUnit.Framework.Constraints.IResolveConstraint"

/-- The parameters behind a message. -/
def messageParameters : List (Bool × TypeSymbol) := [(false, text), (true, .arrayOf library.object)]

/-- The parameters for a value and its constraint. -/
def valueParameters : List (Bool × TypeSymbol) :=
  [(false, .typeParameter "TActual"), (false, resolver)]

theorem isType_wellKnown (path : String) : library.IsType (library.wellKnown path) :=
  isConsistent_library.isType_constructed fun _ isArgument => nomatch isArgument

/-- There are four overloads, each for a condition or for a value, with or without a message. -/
theorem declares_library : thatCandidates.length = 4 ∧
    (thatCandidate 0).Declares library [] [(false, truth)] (library.special .void) ∧
    (thatCandidate 1).Declares library [] ((false, truth) :: messageParameters)
      (library.special .void) ∧
    (thatCandidate 2).Declares library ["TActual"] valueParameters (library.special .void) ∧
    (thatCandidate 3).Declares library ["TActual"] (valueParameters ++ messageParameters)
      (library.special .void) := by
  decide

theorem thatCandidates_eq :
    thatCandidates = [thatCandidate 0, thatCandidate 1, thatCandidate 2, thatCandidate 3] := by
  have four := declares_library.1
  unfold thatCandidate
  generalize thatCandidates = candidates at four
  match candidates, four with
  | [_, _, _, _], _ => rfl

/-- The types of the parameters have no parts. A message is no constraint and a constraint no
message. -/
theorem parameterTypes_that :
    (truth.isClosed = true ∧ text.isClosed = true ∧ resolver.isClosed = true ∧
      library.object.isClosed = true ∧ (TypeSymbol.arrayOf library.object).isClosed = true) ∧
    (truth.IsAtomic ∧ text.IsAtomic ∧ resolver.IsAtomic) ∧
    (library.standardConversion text resolver).exists = false ∧
    (library.standardConversion resolver text).exists = false ∧
    text.special.isSigned = false ∧
    truth.kind = .struct ∧ truth.special.constantRange? = none := by
  decide

theorem areClosed_that : truth.isClosed = true ∧ text.isClosed = true ∧
    resolver.isClosed = true ∧ library.object.isClosed = true ∧
    (TypeSymbol.arrayOf library.object).isClosed = true :=
  parameterTypes_that.1

theorem areAtomic_that : truth.IsAtomic ∧ text.IsAtomic ∧ resolver.IsAtomic :=
  parameterTypes_that.2.1

theorem isType_text : library.IsType text := isConsistent_library.isType_special _

theorem isType_resolver : library.IsType resolver := isType_wellKnown _

/-- The literal `null` is no condition. -/
theorem kind_of_slotConverts_truth {table : TypeTable} {slot : ArgumentSlot} {type : TypeSymbol}
    (converts : table.slotConverts slot truth = true) (isTyped : slot.type = some type) :
    type.kind ≠ .null := by
  intro isNull
  rcases parameterTypes_that with
    ⟨-, ⟨truthAtomic, -⟩, -, -, -, isStruct, noRange⟩
  have known := truthAtomic.known
  have notNullable := truthAtomic.notNullable
  have noReference : truth.isReferenceType = false := by
    simp [TypeSymbol.isReferenceType, isStruct]
  have other : type ≠ truth := by
    rintro rfl
    cases isStruct.symm.trans isNull
  have isTypeKnown : type.isUnknown = false := by simp [TypeSymbol.isUnknown, isNull]
  have noConversion : table.standardConversion type truth = .none := by
    simp [standardConversion, valueConversion?, isTypeKnown, known, other, isNull, noReference,
      notNullable]
  cases isExpr : slot.expr <;>
    simp [slotConverts, isTyped, isExpr, known, noConversion, exprConversion, constantConversion?,
      SpecialType.constantFits, noRange, TypeSymbol.underlying?, notNullable,
      hasUserDefinedConversion, isNull, Conversion.exists] at converts

theorem formsOf_that :
    formsOf [(false, truth)] = [none] ∧
    formsOf ((false, truth) :: messageParameters) = [none, some 2] ∧
    formsOf valueParameters = [none] ∧
    formsOf (valueParameters ++ messageParameters) = [none, some 3] :=
  ⟨rfl, rfl, rfl, rfl⟩

section

variable {document : ParsedDocument} (keeps : document.declarations.KeepsReference)
  {slots : List ArgumentSlot}

include keeps

theorem declares_of_library {symbol : TypeSymbol} {name : String} {candidate : MethodCandidate}
    {names : List String} {parameters : List (Bool × TypeSymbol)} {result : TypeSymbol}
    (isType : library.IsType symbol) (isCandidate : candidate ∈ memberCandidates symbol name)
    (declares : candidate.Declares library names parameters result) :
    candidate.Declares document.table names parameters result :=
  ⟨declares.names, declares.takesRest, declares.required,
    (keeps.signature_eq_of_mem isType isCandidate).trans declares.signature⟩

theorem declares_that :
    (thatCandidate 0).Declares document.table [] [(false, truth)] (library.special .void) ∧
    (thatCandidate 1).Declares document.table [] ((false, truth) :: messageParameters)
      (library.special .void) ∧
    (thatCandidate 2).Declares document.table ["TActual"] valueParameters
      (library.special .void) ∧
    (thatCandidate 3).Declares document.table ["TActual"] (valueParameters ++ messageParameters)
      (library.special .void) := by
  rcases declares_library with ⟨-, condition, conditionMessage, value, valueMessage⟩
  have isMember {place : Nat} (inside : thatCandidate place ∈ thatCandidates) :
      thatCandidate place ∈ memberCandidates assertions "That" := inside
  have isType : library.IsType assertions := isType_wellKnown _
  refine ⟨declares_of_library keeps isType (isMember ?_) condition,
    declares_of_library keeps isType (isMember ?_) conditionMessage,
    declares_of_library keeps isType (isMember ?_) value,
    declares_of_library keeps isType (isMember ?_) valueMessage⟩
  all_goals simp [thatCandidates_eq]

/-- The name `That` behind the class stands for the overloads. -/
theorem bindMember_that {simple : SimpleName} (isThat : simple.identifier = "That")
    (noArguments : simple.typeArguments = none) (scope : TypeScope) :
    document.table.bindMember scope (.typeReference assertions) simple =
      .methods ⟨none, [], thatCandidates, []⟩ := by
  obtain ⟨⟨type, isSurface, isFull⟩, noType, noValue, nonempty⟩ :
      (∃ type ∈ Reference.declarations.types,
        assertions.fullName = type.enclosing ++ "." ++ type.name) ∧
      (∀ entry ∈ library.entries, entry.fullName ≠ assertions.fullName ++ "." ++ "That") ∧
      (memberValueOf? assertions "That").isNone = true ∧
      (memberCandidates assertions "That").isEmpty = false := by
    decide
  have isMember : document.table.bindMember scope (.typeReference assertions) simple =
      document.table.member scope assertions simple none :=
    keeps.bindMember_typeReference isSurface isFull noType isThat scope
  have isMethods : document.table.member scope assertions simple none =
      .methods ⟨none, document.table.writtenArguments scope simple, thatCandidates, []⟩ :=
    keeps.member_eq_methods (isType_wellKnown Names.assertHolder)
      (Option.isNone_iff_eq_none.mp noValue) nonempty isThat scope nofun
  rw [isMember, isMethods, writtenArguments, noArguments, Option.getD_none, resolveAll]

/-- A condition with a message, each of which converts. -/
theorem targets_conditionMessage {first second : ArgumentSlot}
    (unlabelled : ∀ slot ∈ [first, second], slot.label = none) {method : ApplicableMethod}
    (isApplicable : document.table.applicable? [first, second] [] (thatCandidate 1) =
      some method) :
    method.targets = [truth, text] ∧ method.isExpanded = true ∧ method.parameters.length = 3 ∧
      document.table.slotConverts first truth = true := by
  rcases areClosed_that with ⟨truthClosed, textClosed, -⟩
  have closed : ∀ target ∈ [truth, text], target.isClosed = true := by
    simp [truthClosed, textClosed]
  rcases formsOf_that with ⟨-, forms, -⟩
  rcases isInstance_of_applicable? (declares_that keeps).2.1 unlabelled
    (by rw [forms]; simp [messageParameters]) isApplicable with
    ⟨_, isForm, _, inferred, areTargets, ⟨-, converts⟩, isInstance⟩
  rw [forms, List.mem_cons, List.mem_singleton] at isForm
  rcases isForm with rfl | rfl
  · cases areTargets
  · cases areTargets
    have same := map_substitute_of_closed closed inferred
    exact ⟨isInstance.targets.trans same, isInstance.isExpanded, isInstance.length,
      converts (first, truth) (same ▸ List.mem_cons_self)⟩

/-- A value with a constraint that converts; the type parameter stands for the type of the value. -/
theorem targets_value {first second : ArgumentSlot}
    (unlabelled : ∀ slot ∈ [first, second], slot.label = none) {method : ApplicableMethod}
    (isApplicable : document.table.applicable? [first, second] [] (thatCandidate 2) =
      some method) :
    ∃ actual, method.targets = [actual, resolver] ∧ method.isExpanded = false ∧
      method.parameters.length = 2 ∧ document.table.slotConverts second resolver = true ∧
      ∀ type, first.type = some type → type.isUnknown = false → type.kind ≠ .null →
        actual = type := by
  rcases areClosed_that with ⟨-, -, resolverClosed, -⟩
  rcases formsOf_that with ⟨-, -, forms, -⟩
  rcases isInstance_of_applicable? (declares_that keeps).2.2.1 unlabelled (by simp [forms])
    isApplicable with ⟨_, isForm, _, inferred, areTargets, accepts, isInstance⟩
  rw [forms, List.mem_singleton] at isForm
  subst isForm
  cases areTargets
  have same : (valueParameters.map (·.2)).map (·.substitute inferred) =
      [(TypeSymbol.typeParameter "TActual").substitute inferred, resolver] := by
    simp [valueParameters, TypeSymbol.substitute_of_isClosed _ _ resolverClosed]
  refine ⟨_, isInstance.targets.trans same, isInstance.isExpanded, isInstance.length, ?_, ?_⟩
  · have converts := accepts.2
    rw [same] at converts
    exact converts (second, resolver) (by simp)
  · exact fun type isTyped =>
      substitute_eq_of_acceptsWith (by simp [resolverClosed]) accepts isTyped

/-- Reading an argument as a message is not better than reading it as a constraint. -/
theorem betterTarget_text {slot : ArgumentSlot}
    (converts : document.table.slotConverts slot resolver = true) :
    document.table.betterTarget slot.type text resolver = false := by
  rcases parameterTypes_that with
    ⟨-, ⟨-, textAtomic, resolverAtomic⟩, forth, back, notSigned, -⟩
  cases isTyped : slot.type with
  | none => simp [betterTarget]
  | some type =>
    have other : type ≠ text := by
      rintro rfl
      have isConstraint := keeps.exists_of_slotConverts isTyped isType_text
        textAtomic.notNullable isType_resolver resolverAtomic converts
      cases forth.symm.trans isConstraint
    have noForth : document.table.standardConversion text resolver =
        library.standardConversion text resolver :=
      keeps.standardConversion_eq isType_text resolverAtomic.noArguments resolverAtomic.noElement
    have noBack : document.table.standardConversion resolver text =
        library.standardConversion resolver text :=
      keeps.standardConversion_eq isType_resolver textAtomic.noArguments textAtomic.noElement
    simp [betterTarget, other, noForth, noBack, forth, back, notSigned]

/-- Where a value and its constraint can also be read as a condition and its message, they are read
as a value and its constraint. -/
theorem isBetter_value {first second : ArgumentSlot}
    (unlabelled : ∀ slot ∈ [first, second], slot.label = none)
    (known : ∀ type, first.type = some type → type.isUnknown = false)
    {value message : ApplicableMethod}
    (isValue : document.table.applicable? [first, second] [] (thatCandidate 2) = some value)
    (isMessage : document.table.applicable? [first, second] [] (thatCandidate 1) =
      some message) :
    message.sameSignature value = false ∧
      document.table.isBetter [first, second] value message = true := by
  rcases targets_value keeps unlabelled isValue with
    ⟨actual, valueTargets, isNormal, twoParameters, isConstraint, isOwn⟩
  rcases targets_conditionMessage keeps unlabelled isMessage with
    ⟨messageTargets, isExpanded, threeParameters, isCondition⟩
  constructor
  · refine Bool.eq_false_iff.mpr fun same => ?_
    have lengths := congrArg List.length (ApplicableMethod.sameSignature_iff.mp same)
    simp [twoParameters, threeParameters] at lengths
  · have firstNotWorse : document.table.betterTarget first.type truth actual = false := by
      cases isTyped : first.type with
      | none => simp [betterTarget]
      | some type =>
        rw [isOwn type isTyped (known type isTyped)
          (kind_of_slotConverts_truth isCondition isTyped)]
        by_cases same : type = truth <;> simp [betterTarget, same]
    have secondNotWorse := betterTarget_text keeps isConstraint
    simp [isBetter, valueTargets, messageTargets, firstNotWorse, secondNotWorse, isNormal,
      isExpanded]
    grind

/-- When each overload is applicable to a call without labels. -/
theorem isSome_applicable?_that (unlabelled : ∀ slot ∈ slots, slot.label = none) :
    ((document.table.applicable? slots [] (thatCandidate 0)).isSome = true ↔
      ∃ targets, targetTypes? [truth] none slots.length = some targets ∧
        document.table.Accepts [] slots targets) ∧
    ((document.table.applicable? slots [] (thatCandidate 1)).isSome = true ↔
      ∃ expanded ∈ [none, some 2], ∃ targets,
        targetTypes? [truth, text, .arrayOf library.object] expanded slots.length = some targets ∧
          document.table.Accepts [] slots targets) ∧
    ((document.table.applicable? slots [] (thatCandidate 2)).isSome = true ↔
      ∃ targets, targetTypes? [.typeParameter "TActual", resolver] none slots.length =
          some targets ∧ document.table.Accepts ["TActual"] slots targets) ∧
    ((document.table.applicable? slots [] (thatCandidate 3)).isSome = true ↔
      ∃ expanded ∈ [none, some 3], ∃ targets,
        targetTypes? [.typeParameter "TActual", resolver, text, .arrayOf library.object] expanded
          slots.length = some targets ∧ document.table.Accepts ["TActual"] slots targets) := by
  rcases declares_that keeps with ⟨first, second, third, fourth⟩
  rcases formsOf_that with ⟨oneForm, twoForms, threeForms, fourForms⟩
  have condition := isSome_applicable?_iff_accepts first unlabelled (by simp [oneForm])
  have conditionMessage := isSome_applicable?_iff_accepts second unlabelled
    (by rw [twoForms]; simp [messageParameters])
  have value := isSome_applicable?_iff_accepts third unlabelled (by simp [threeForms])
  have valueMessage := isSome_applicable?_iff_accepts fourth unlabelled
    (by rw [fourForms]; simp [valueParameters, messageParameters])
  rw [oneForm] at condition
  rw [twoForms] at conditionMessage
  rw [threeForms] at value
  rw [fourForms] at valueMessage
  simp only [List.mem_singleton, exists_eq_left] at condition value
  exact ⟨condition, conditionMessage, value, valueMessage⟩

omit keeps in
/-- A call resolves only if an overload is applicable. -/
theorem isSome_applicable?_of_resolveAmong? {table : TypeTable}
    (isResolved : (table.resolveAmong? thatCandidates slots []).isSome = true) :
    (table.applicable? slots [] (thatCandidate 0)).isSome = true ∨
      (table.applicable? slots [] (thatCandidate 1)).isSome = true ∨
      (table.applicable? slots [] (thatCandidate 2)).isSome = true ∨
      (table.applicable? slots [] (thatCandidate 3)).isSome = true := by
  rcases Option.isSome_iff_exists.mp isResolved with ⟨method, isMethod⟩
  rcases exists_applicable_of_resolveAmong? isMethod with
    ⟨candidate, isCandidate, found, isFound, -⟩
  have isSome := Option.isSome_iff_exists.mpr ⟨found, isFound⟩
  simp only [thatCandidates_eq, List.mem_cons, List.not_mem_nil, or_false] at isCandidate
  rcases isCandidate with rfl | rfl | rfl | rfl
  · exact .inl isSome
  · exact .inr (.inl isSome)
  · exact .inr (.inr (.inl isSome))
  · exact .inr (.inr (.inr isSome))

/-- `Assert.That(condition)` resolves if the condition converts to a truth value. -/
theorem isSome_resolveAmong?_condition {condition : ArgumentSlot}
    (unlabelled : ∀ slot ∈ [condition], slot.label = none) :
    (document.table.resolveAmong? thatCandidates [condition] []).isSome = true ↔
      document.table.slotConverts condition truth = true := by
  rcases areClosed_that with ⟨truthClosed, -⟩
  rcases isSome_applicable?_that keeps unlabelled with
    ⟨isCondition, noMessage, noValue, noValueMessage⟩
  simp [targetTypes?] at isCondition noMessage noValue noValueMessage
  rw [accepts_nil_iff (by simp [truthClosed])] at isCondition
  constructor
  · intro isResolved
    have isApplicable := isSome_applicable?_of_resolveAmong? isResolved
    simpa [noMessage, noValue, noValueMessage, isCondition] using isApplicable
  · intro converts
    refine isSome_resolveAmong?_of_unique (by simp [thatCandidates_eq])
      (isCondition.mpr (by simpa using converts)) ?_
    simp [thatCandidates_eq, noMessage, noValue, noValueMessage]

/-- `Assert.That(condition, message)` and `Assert.That(value, constraint)` resolve if the arguments
can be read in one of the two ways. -/
theorem isSome_resolveAmong?_two {first second : ArgumentSlot}
    (unlabelled : ∀ slot ∈ [first, second], slot.label = none)
    (known : ∀ type, first.type = some type → type.isUnknown = false) :
    (document.table.resolveAmong? thatCandidates [first, second] []).isSome = true ↔
      (document.table.slotConverts first truth = true ∧
        document.table.slotConverts second text = true) ∨
      (InfersFirst [first, second] ∧ document.table.slotConverts second resolver = true) := by
  rcases areClosed_that with ⟨truthClosed, textClosed, resolverClosed, -⟩
  rcases isSome_applicable?_that keeps unlabelled with
    ⟨noCondition, isMessage, isValue, noValueMessage⟩
  simp [targetTypes?] at noCondition isMessage isValue noValueMessage
  change _ ↔ document.table.Accepts [] [first, second] [truth, text] at isMessage
  rw [accepts_nil_iff (by simp [truthClosed, textClosed])] at isMessage
  rw [accepts_typeParameter_iff (by simp [resolverClosed])] at isValue
  simp at isMessage isValue
  constructor
  · intro isResolved
    have isApplicable := isSome_applicable?_of_resolveAmong? isResolved
    simpa [noCondition, noValueMessage, isMessage, isValue] using isApplicable
  · intro readable
    cases isValueFound : document.table.applicable? [first, second] [] (thatCandidate 2) with
    | some value =>
      refine isSome_resolveAmong?_of_isBetter (by simp [thatCandidates_eq]) isValueFound ?_
      simp only [thatCandidates_eq, List.mem_cons, List.not_mem_nil, or_false]
      rintro other (rfl | rfl | rfl | rfl) differs method isFound
      · cases noCondition.symm.trans isFound
      · exact isBetter_value keeps unlabelled known isValueFound isFound
      · exact absurd rfl differs
      · cases noValueMessage.symm.trans isFound
    | none =>
      have notValue : ¬(InfersFirst [first, second] ∧
          document.table.slotConverts second resolver = true) := by
        rw [← isValue, isValueFound]
        simp
      refine isSome_resolveAmong?_of_unique (by simp [thatCandidates_eq])
        (isMessage.mpr (readable.resolve_right notValue)) ?_
      simp [thatCandidates_eq, noCondition, isValueFound, noValueMessage]

/-- `Assert.That(value, constraint, message)` resolves if something can be inferred for the value
and the constraint and the message convert. -/
theorem isSome_resolveAmong?_valueMessage {value constraint message : ArgumentSlot}
    (unlabelled : ∀ slot ∈ [value, constraint, message], slot.label = none)
    (noText : document.table.slotConverts constraint text = false) :
    (document.table.resolveAmong? thatCandidates [value, constraint, message] []).isSome = true ↔
      InfersFirst [value, constraint, message] ∧
        document.table.slotConverts constraint resolver = true ∧
          document.table.slotConverts message text = true := by
  rcases areClosed_that with
    ⟨truthClosed, textClosed, resolverClosed, objectClosed, arrayClosed⟩
  rcases isSome_applicable?_that keeps unlabelled with
    ⟨noCondition, isMessage, noValue, isValueMessage⟩
  simp [targetTypes?] at noCondition isMessage noValue isValueMessage
  change _ ↔ _ ∨ document.table.Accepts [] [value, constraint, message]
    [truth, text, library.object] at isMessage
  change _ ↔ document.table.Accepts ["TActual"] [value, constraint, message]
    [.typeParameter "TActual", resolver, text] at isValueMessage
  rw [accepts_nil_iff (by simp [truthClosed, textClosed, arrayClosed]),
    accepts_nil_iff (by simp [truthClosed, textClosed, objectClosed])] at isMessage
  rw [accepts_typeParameter_iff (by simp [textClosed, resolverClosed])] at isValueMessage
  simp [noText] at isMessage isValueMessage
  constructor
  · intro isResolved
    have isApplicable := isSome_applicable?_of_resolveAmong? isResolved
    simpa [noCondition, isMessage, noValue, isValueMessage] using isApplicable
  · intro converts
    refine isSome_resolveAmong?_of_unique (by simp [thatCandidates_eq])
      (isValueMessage.mpr converts) ?_
    simp [thatCandidates_eq, noCondition, isMessage, noValue]

end

end TypeTable

end AssertionLint
