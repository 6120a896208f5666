import AssertionLint.Proofs.Binding.ConstraintCall

/-!
# Calls of `Assert.That` in a document

Fixes write calls of `Assert.That` with a value, and with a constraint or a message or both. In a
document that keeps the reference surface, such a call resolves to `Assert.That`, with a constraint
for the constraint, exactly if the arguments allow it (`ParsedDocument.bindsThat_iff_canBind`).
-/

namespace AssertionLint

/-- A written constraint: its form, what stands for the helper class, and its arguments. -/
structure WrittenConstraint where
  argument : Argument
  form : ConstraintForm
  head : Expr
  arguments : List Argument

/-- A call of `Assert.That` part by part. -/
structure ThatCall where
  /-- What stands for the class of assertions. -/
  head : Expr
  value : Argument
  constraint : Option WrittenConstraint
  message : Option Argument

def ThatCall.arguments (call : ThatCall) : List Argument :=
  call.value :: ((call.constraint.map (·.argument)).toList ++ call.message.toList)

/-- The parts that a call of `Assert.That` has. -/
structure ThatForm where
  constraint : Option ConstraintForm
  hasMessage : Bool
  deriving DecidableEq

namespace ThatForm

/-- Reads the constraint in front of other arguments. -/
def readConstraint? (form : ThatForm) (arguments : List Argument) :
    Option (Option WrittenConstraint × List Argument) :=
  match form.constraint, arguments with
  | none, arguments => some (none, arguments)
  | some written, argument :: rest =>
    (written.read? argument.expression).map fun (head, inner) =>
      (some ⟨argument, written, head, inner⟩, rest)
  | some _, [] => none

/-- Reads the message, which is the last argument. -/
def readMessage? (form : ThatForm) : List Argument → Option (Option Argument)
  | [] => if form.hasMessage then none else some none
  | [message] => if form.hasMessage then some (some message) else none
  | _ => none

def readArguments? (form : ThatForm) (head : Expr) : List Argument → Option ThatCall
  | [] => none
  | value :: rest => do
    let (constraint, rest) ← form.readConstraint? rest
    let message ← form.readMessage? rest
    pure ⟨head, value, constraint, message⟩

/-- Reads a call of the form, in which no argument has a label. -/
def read? (form : ThatForm) : Expr → Option ThatCall
  | .invocation target list _ =>
    if list.arguments.all (·.name.isNone) then
      (target.before? "That").bind fun head => form.readArguments? head list.arguments
    else none
  | _ => none

end ThatForm

/-- The call is one of the form, part by part. -/
structure ThatCall.IsOf (call : ThatCall) (form : ThatForm) : Prop where
  constraint : call.constraint.map (·.form) = form.constraint
  message : call.message.isSome = form.hasMessage
  unlabelled : ∀ argument ∈ call.arguments, argument.name = none
  isRead : ∀ written ∈ call.constraint,
    written.form.read? written.argument.expression = some (written.head, written.arguments)

namespace ThatForm

variable {form : ThatForm} {call : ThatCall}

theorem of_readConstraint? {arguments rest : List Argument} {constraint : Option WrittenConstraint}
    (isRead : form.readConstraint? arguments = some (constraint, rest)) :
    arguments = (constraint.map (·.argument)).toList ++ rest ∧
      constraint.map (·.form) = form.constraint ∧ ∀ written ∈ constraint,
        written.form.read? written.argument.expression =
          some (written.head, written.arguments) := by
  unfold readConstraint? at isRead
  split at isRead
  · rename_i isNone
    cases isRead
    exact ⟨rfl, isNone.symm, nofun⟩
  · rename_i isSome
    rcases Option.map_eq_some_iff.mp isRead with ⟨⟨head, inner⟩, isWritten, same⟩
    cases same
    refine ⟨rfl, isSome.symm, ?_⟩
    rintro _ ⟨⟩
    exact isWritten
  · cases isRead

theorem of_readMessage? {arguments : List Argument} {message : Option Argument}
    (isRead : form.readMessage? arguments = some message) :
    arguments = message.toList ∧ message.isSome = form.hasMessage := by
  unfold readMessage? at isRead
  split at isRead
  · split at isRead
    · cases isRead
    · rename_i noMessage
      cases isRead
      exact ⟨rfl, (Bool.eq_false_iff.mpr noMessage).symm⟩
  · split at isRead
    · rename_i hasMessage
      cases isRead
      exact ⟨rfl, hasMessage.symm⟩
    · cases isRead
  · cases isRead

theorem exists_of_read? {expr : Expr} (isRead : form.read? expr = some call) :
    call.IsOf form ∧ ∃ target list span, expr = .invocation target list span ∧
      target.before? "That" = some call.head ∧ list.arguments = call.arguments := by
  unfold read? at isRead
  split at isRead
  · rename_i target list span
    split at isRead
    · rename_i unlabelled
      rcases Option.bind_eq_some_iff.mp isRead with ⟨head, isBefore, isRead⟩
      cases isList : list.arguments with
      | nil =>
        rw [isList] at isRead
        cases isRead
      | cons value rest =>
        rw [isList] at isRead
        simp only [readArguments?, bind, pure, Option.bind_eq_some_iff, Option.some.injEq] at isRead
        rcases isRead with ⟨⟨constraint, behind⟩, isConstraint, message, isMessage, rfl⟩
        rcases of_readConstraint? isConstraint with ⟨rfl, form_eq, isWritten⟩
        rcases of_readMessage? isMessage with ⟨rfl, hasMessage⟩
        rw [isList] at unlabelled
        simp only [List.all_eq_true, Option.isNone_iff_eq_none] at unlabelled
        exact ⟨⟨form_eq, hasMessage, unlabelled, isWritten⟩, target, list, span, rfl, isBefore,
          isList⟩
    · cases isRead
  · cases isRead

theorem read?_of_isOf {target : Expr} {list : ArgumentList} {span : Option Span}
    (isOf : call.IsOf form) (isBefore : target.before? "That" = some call.head)
    (isList : list.arguments = call.arguments) :
    form.read? (.invocation target list span) = some call := by
  have unlabelled : list.arguments.all (·.name.isNone) = true := by
    rw [List.all_eq_true, isList]
    exact fun argument isArgument => Option.isNone_iff_eq_none.mpr (isOf.unlabelled _ isArgument)
  rcases isOf with ⟨form_eq, hasMessage, -, isRead⟩
  rcases call with ⟨head, value, constraint, message⟩
  have isMessage : form.readMessage? message.toList = some message := by
    cases message <;> simp_all [readMessage?]
  have isConstraint :
      form.readConstraint? ((constraint.map (·.argument)).toList ++ message.toList) =
        some (constraint, message.toList) := by
    unfold readConstraint?
    rw [← form_eq]
    cases constraint with
    | none => rfl
    | some written => simp [isRead written rfl]
  rw [read?, if_pos unlabelled, isBefore, isList, ThatCall.arguments]
  simp [readArguments?, isConstraint, isMessage]

end ThatForm

namespace TypeTable

/-- Whatever a call of `Assert.That` resolves to is an `Assert.That`. -/
theorem owner_of_mem_thatCandidates : ∀ candidate ∈ thatCandidates,
    candidate.owner.fullName = Names.assertHolder ∧ candidate.method.name = "That" := by
  decide +kernel

end TypeTable

namespace ParsedDocument

open TypeTable

variable (document : ParsedDocument)

/-- The names in front of the call and its constraint stand for the classes of the framework. -/
structure MeansFramework (call : ThatCall) : Prop where
  head : document.boundOf call.head = .typeReference assertions
  constraint : ∀ written ∈ call.constraint,
    document.boundOf written.head = .typeReference (surfaceType written.form.name.helper)

instance (call : ThatCall) : Decidable (document.MeansFramework call) :=
  decidable_of_iff
    (document.boundOf call.head = .typeReference assertions ∧ ∀ written ∈ call.constraint,
      document.boundOf written.head = .typeReference (surfaceType written.form.name.helper))
    ⟨fun ⟨head, constraint⟩ => ⟨head, constraint⟩, fun ⟨head, constraint⟩ => ⟨head, constraint⟩⟩

/-- The call resolves to `Assert.That`, and its constraint, if there is one, is a constraint. -/
structure BindsThat (bindings : Bindings) (expr : Expr) (call : ThatCall) : Prop where
  resolves : ∃ method, ((document.model.resolveMethod expr).run bindings).1 = some method ∧
    method.containingType.fullName = Names.assertHolder ∧ method.name = "That"
  constraint : ∀ written ∈ call.constraint, ∃ type,
    ((document.model.typeOf written.argument.expression).run bindings).1 = some type ∧
      document.table.isDerivedFrom type Names.constraintBase = true

/-- The argument converts to a type. -/
def Converts (argument : Argument) (type : TypeSymbol) : Prop :=
  document.table.slotConverts (document.slotOf argument) type = true

/-- The arguments of the call allow it: a value alone is a condition, with a message as text behind
it unless both can be read as a value and its constraint; the arguments of a constraint suit it, its
value has a type of its own, and a message behind it is text. -/
def CanBind (call : ThatCall) : Prop :=
  match call.constraint, call.message with
  | none, none => document.Converts call.value truth
  | none, some message =>
    (document.Converts call.value truth ∧ document.Converts message text) ∨
      (InfersFirst (call.arguments.map document.slotOf) ∧ document.Converts message resolver)
  | some written, message =>
    document.Suits written.form written.arguments ∧
      InfersFirst (call.arguments.map document.slotOf) ∧
        ∀ argument ∈ message, document.Converts argument text

instance : (call : ThatCall) → Decidable (document.CanBind call)
  | ⟨_, _, none, none⟩ => inferInstanceAs (Decidable (_ = true))
  | ⟨_, _, none, some _⟩ => inferInstanceAs (Decidable ((_ = true ∧ _ = true) ∨ _ ∧ _ = true))
  | ⟨_, _, some _, message⟩ =>
    inferInstanceAs (Decidable (_ ∧ _ ∧ ∀ argument ∈ message, _ = true))

variable {document}

/-- There is no type that a value of `null` could have in front of a constraint. -/
theorem not_canBind_of_null {call : ThatCall} (isConstrained : call.constraint.isSome = true)
    (typed : ∀ argument ∈ call.arguments, (document.slotOf argument).type ≠ none)
    (isNull : ∀ type, (document.slotOf call.value).type = some type → type.kind = .null) :
    ¬document.CanBind call := by
  intro canBind
  rcases Option.isSome_iff_exists.mp isConstrained with ⟨written, isWritten⟩
  rw [CanBind, isWritten] at canBind
  rcases canBind.2.1 with ⟨slot, isSlot, untyped⟩ | ⟨first, type, isFirst, isType, -, notNull⟩
  · rcases List.mem_map.mp isSlot with ⟨argument, isArgument, rfl⟩
    exact typed argument isArgument untyped
  · cases isFirst
    exact notNull (isNull type isType)

variable (keeps : document.KeepsFramework)

section

include keeps

/-- A constraint converts to what `Assert.That` takes for it and not to a message. -/
theorem converts_constraint {argument : Argument} {result : String}
    (isResult : result ∈ Reference.constraintNames)
    (isTyped : (document.slotOf argument).type = some (surfaceType result)) :
    document.Converts argument resolver ∧ ¬document.Converts argument text := by
  have isConstraint := isConstraintType_surfaceType isResult
  rcases areAtomic_that with ⟨-, textAtomic, resolverAtomic⟩
  have converts_iff {destination : TypeSymbol} (isType : library.IsType destination)
      (atomic : destination.IsAtomic) : document.Converts argument destination ↔
        (library.standardConversion (surfaceType result) destination).exists = true := by
    rw [Converts, table, keeps.keeps.slotConverts_eq rfl isTyped isConstraint.isType
      isConstraint.notNullable isType atomic]
  rw [converts_iff isType_resolver resolverAtomic, converts_iff isType_text textAtomic,
    isConstraint.noText]
  exact ⟨isConstraint.resolves, Bool.false_ne_true⟩

/-- Something that suits the form of a constraint has the type of one. -/
theorem exists_type_of_suits {written : WrittenConstraint} (isKnown : written.form.IsKnown)
    (inside : written.argument.expression ∈ document.expressions)
    (isRead : written.form.read? written.argument.expression =
      some (written.head, written.arguments))
    (headIs : document.boundOf written.head =
      .typeReference (surfaceType written.form.name.helper)) :
    (document.Suits written.form written.arguments → ∃ result ∈ Reference.constraintNames,
      (document.slotOf written.argument).type = some (surfaceType result)) ∧
    (¬document.Suits written.form written.arguments →
      (document.slotOf written.argument).type = none) := by
  rcases boundOf_of_read? keeps isKnown inside isRead headIs with ⟨isResult, isUnknown⟩
  constructor
  · intro suits
    rcases isResult suits with ⟨result, isResult, symbol, isValue⟩
    refine ⟨result, isResult, ?_⟩
    have known := (isConstraintType_surfaceType isResult).known
    change (document.boundOf written.argument.expression).knownType? = _
    simp [isValue, Bound.knownType?, Bound.type?, known]
  · intro fails
    change (document.boundOf written.argument.expression).knownType? = _
    rw [isUnknown fails]
    rfl

/-- What the overloads of `Assert.That` make of the arguments. -/
theorem isSome_resolveAmong?_arguments {call : ThatCall}
    (unlabelled : ∀ argument ∈ call.arguments, argument.name = none)
    (suited : ∀ written ∈ call.constraint, document.Suits written.form written.arguments ∧
      ∃ result ∈ Reference.constraintNames,
        (document.slotOf written.argument).type = some (surfaceType result)) :
    (document.table.resolveAmong? thatCandidates (call.arguments.map document.slotOf) []).isSome =
      true ↔ document.CanBind call := by
  have unlabelled : ∀ slot ∈ call.arguments.map document.slotOf, slot.label = none :=
    List.forall_mem_map.mpr unlabelled
  have known (argument : Argument) (type : TypeSymbol)
      (isTyped : (document.slotOf argument).type = some type) : type.isUnknown = false := by
    simpa using (Option.filter_eq_some_iff.mp isTyped).2
  rcases call with ⟨head, value, constraint, message⟩
  cases constraint with
  | none =>
    cases message with
    | none => exact isSome_resolveAmong?_condition keeps.keeps unlabelled
    | some message => exact isSome_resolveAmong?_two keeps.keeps unlabelled (known value)
  | some written =>
    rcases suited written rfl with ⟨suits, result, isResult, isTyped⟩
    rcases converts_constraint keeps isResult isTyped with ⟨isResolver, noText⟩
    cases message with
    | none =>
      refine (isSome_resolveAmong?_two keeps.keeps unlabelled (known value)).trans ?_
      constructor
      · rintro (⟨-, isText⟩ | ⟨infers, -⟩)
        · exact absurd isText noText
        · exact ⟨suits, infers, nofun⟩
      · rintro ⟨-, infers, -⟩
        exact .inr ⟨infers, isResolver⟩
    | some message =>
      refine (isSome_resolveAmong?_valueMessage keeps.keeps unlabelled
        (Bool.eq_false_iff.mpr noText)).trans ?_
      constructor
      · rintro ⟨infers, -, isText⟩
        refine ⟨suits, infers, ?_⟩
        rintro _ ⟨⟩
        exact isText
      · rintro ⟨-, infers, isText⟩
        exact ⟨infers, isResolver, isText message rfl⟩

end

section

variable (distinct : SpansAreDistinct (· ∈ document.expressions)) {bindings : Bindings}
  (agree : bindings.Agree document.table (· ∈ document.expressions))

include keeps distinct agree

theorem run_typeOf {expr : Expr} (inside : expr ∈ document.expressions) :
    ((document.model.typeOf expr).run bindings).1 = (document.boundOf expr).knownType? :=
  StepRelation.run_answersAs ((related_model distinct).knownType? inside)
    ((related_totalBinder keeps.within).knownType? inside) agree

theorem run_resolveMethod_eq_some_iff {expr : Expr} (inside : expr ∈ document.expressions)
    {method : MethodSymbol} :
    ((document.model.resolveMethod expr).run bindings).1 = some method ↔
      (document.boundOf expr).symbol? = some (.method method) := by
  have answered := StepRelation.run_answersAs ((related_model distinct).resolveMethod inside)
    ((related_totalBinder keeps.within).resolveMethod inside) agree
  exact (iff_of_eq (congrArg (· = some method) answered)).trans Binder.resolveMethod_eq_some_iff

/-- A call of `Assert.That` as fixes write it resolves to `Assert.That`, with a constraint for its
constraint, exactly if its arguments allow it. -/
theorem bindsThat_iff_canBind {expr : Expr} (inside : expr ∈ document.expressions)
    {form : ThatForm} (isKnown : ∀ written ∈ form.constraint, written.IsKnown) {call : ThatCall}
    (isRead : form.read? expr = some call) (means : document.MeansFramework call) :
    document.BindsThat bindings expr call ↔ document.CanBind call := by
  rcases ThatForm.exists_of_read? isRead with
    ⟨isOf, target, list, span, rfl, isBefore, isList⟩
  have isInside : target ∈ document.expressions :=
    document.isClosed_expressions.child inside List.mem_cons_self
  have argumentInside (argument : Argument) (isArgument : argument ∈ call.arguments) :
      argument.expression ∈ document.expressions := by
    refine document.isClosed_expressions.child inside (List.mem_cons_of_mem _ ?_)
    rw [isList]
    exact List.mem_map_of_mem isArgument
  rcases boundOf_of_before? keeps isInside isBefore with
    ⟨-, scope, simple, isName, noArguments, calls⟩
  rw [means.head, bindMember_that keeps.keeps isName noArguments] at calls
  have isBound := boundOf_invocation keeps inside calls
  rw [isList] at isBound
  -- a constraint has a type if its arguments suit it, and otherwise neither side holds
  have typed (written : WrittenConstraint) (isWritten : written ∈ call.constraint) :
      (document.Suits written.form written.arguments → ∃ result ∈ Reference.constraintNames,
        (document.slotOf written.argument).type = some (surfaceType result)) ∧
      (¬document.Suits written.form written.arguments →
        (document.slotOf written.argument).type = none) := by
    refine exists_type_of_suits keeps (isKnown _ ?_) (argumentInside _ ?_)
      (isOf.isRead _ isWritten) (means.constraint _ isWritten)
    · rw [← isOf.constraint, Option.mem_def.mp isWritten]
      rfl
    · simp [ThatCall.arguments, Option.mem_def.mp isWritten]
  have isTyped (written : WrittenConstraint) (isWritten : written ∈ call.constraint) :
      ((document.model.typeOf written.argument.expression).run bindings).1 =
        (document.slotOf written.argument).type := by
    refine run_typeOf keeps distinct agree (argumentInside _ ?_)
    simp [ThatCall.arguments, Option.mem_def.mp isWritten]
  by_cases suited : ∀ written ∈ call.constraint, document.Suits written.form written.arguments
  · rw [← isSome_resolveAmong?_arguments keeps isOf.unlabelled fun written isWritten =>
      ⟨suited written isWritten, (typed written isWritten).1 (suited written isWritten)⟩]
    constructor
    · rintro ⟨⟨method, resolved, -⟩, -⟩
      have isSymbol := (run_resolveMethod_eq_some_iff keeps distinct agree inside).mp resolved
      by_contra fails
      rw [Option.not_isSome_iff_eq_none] at fails
      rw [isBound, fails] at isSymbol
      cases isSymbol
    · intro resolves
      rcases Option.isSome_iff_exists.mp resolves with ⟨method, isResolved⟩
      refine ⟨⟨method, ?_, ?_⟩, fun written isWritten => ?_⟩
      · rw [run_resolveMethod_eq_some_iff keeps distinct agree inside, isBound, isResolved]
        rfl
      · rcases exists_applicable_of_resolveAmong? isResolved with
          ⟨candidate, isCandidate, _, -, rfl⟩
        exact owner_of_mem_thatCandidates candidate isCandidate
      · rcases (typed written isWritten).1 (suited written isWritten) with
          ⟨result, isResult, typeIs⟩
        have isConstraint := isConstraintType_surfaceType isResult
        refine ⟨_, (isTyped written isWritten).trans typeIs, ?_⟩
        exact (keeps.keeps.isDerivedFrom_eq isConstraint.isType _).trans isConstraint.isDerived
  · simp only [not_forall] at suited
    rcases suited with ⟨written, isWritten, fails⟩
    refine iff_of_false (fun binds => ?_) (fun canBind => ?_)
    · rcases binds.constraint written isWritten with ⟨type, typeIs, -⟩
      rw [isTyped written isWritten, (typed written isWritten).2 fails] at typeIs
      cases typeIs
    · rw [CanBind, Option.mem_def.mp isWritten] at canBind
      exact fails canBind.1

end

end ParsedDocument

end AssertionLint
