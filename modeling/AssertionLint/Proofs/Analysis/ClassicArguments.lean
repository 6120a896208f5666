import AssertionLint.Proofs.Analysis.FixedCalls
import AssertionLint.Proofs.Analysis.Reported
import AssertionLint.Proofs.Binding.Arguments
import Mathlib.Data.List.Nodup

/-!
# Arguments of classic rewrites

A classic call that is rewritten in the constraint model keeps its arguments: each one that is bound
to a parameter is the actual value, is taken over by the constraint, or is the message, and nothing
else is written (`FixedCall.classic?_keeps_arguments`). This rests on two facts. The rules know all
parameters of the overloads that the reference surface declares (`Reference.reads_of_holders`), and
no parameter of an overload that a call is bound to has two arguments
(`CallShape.BindsTo.nodup_names`).

A message is passed without a cast, and an empty list of type arguments is taken for an expected
type (`FixedCall.exists_classic?_without_copy`).
-/

namespace AssertionLint

/-- The names of the parameters that take an argument of their own. -/
def MethodDecl.ownParameters (method : MethodDecl) : List String :=
  (method.parameters.filter fun parameter =>
    !(parameter.isParams || parameter.name == "args")).map (·.name)

/-- The reference surface declares a method in the type with a full name. -/
def Reference.Declares (fullName : String) (method : MethodDecl) : Prop :=
  ∃ entry ∈ declarations.types.zipIdx, declarations.fullName entry.2 = fullName ∧
    method ∈ entry.1.methods

/-- All parameters of an overload that take an argument of their own are known to the form of a
rule. -/
def Replacement.Reads (overload : MethodDecl) : Replacement → Prop
  | property actual _ =>
    ∃ subject ∈ actual, ∀ name ∈ overload.ownParameters, name = subject ∨ name = "message"
  | call actual expected _ =>
    ∀ name ∈ overload.ownParameters, name ∈ [actual, expected, "delta"] ∨ name = "message"
  | typeCheck _ =>
    ∀ name ∈ overload.ownParameters, name = "actual" ∨
      (name = "expected" ∧ overload.typeParameters = []) ∨ name = "message"

instance (overload : MethodDecl) : (replacement : Replacement) →
    Decidable (replacement.Reads overload)
  | .property actual _ => inferInstanceAs (Decidable (∃ subject ∈ actual, _))
  | .call .. | .typeCheck _ => inferInstanceAs (Decidable (∀ name ∈ overload.ownParameters, _))

/-- The rules know all parameters of the overloads of the methods that they are about. -/
theorem Reference.reads_of_holders :
    ∀ entry ∈ declarations.types.zipIdx, declarations.fullName entry.2 ∈ Names.holders →
      ∀ overload ∈ entry.1.methods, ∀ rule ∈ ClassicRule.ofMethodName? overload.name,
        rule.replacement.Reads overload ∧ (overload.parameters.map (·.name)).Nodup := by
  decide +kernel

theorem ClassicRule.message_notMem_actualParameters (rule : ClassicRule) :
    "message" ∉ rule.replacement.actualParameters := by
  cases rule <;> decide

namespace CallShape

/-- The call is bound to an overload that the reference surface declares: the method has the name
and the parameters of the overload, each argument has a parameter of it and each parameter that
needs one has an argument, and written type arguments are as many as the type parameters. -/
structure BindsTo (shape : CallShape) (overload : MethodDecl) : Prop where
  declares : Reference.Declares shape.method.containingType.fullName overload
  name : shape.method.name = overload.name
  parameters : MethodDecl.Describes overload.parameters shape.method.parameters
  arguments : ∃ expanded places, MethodDecl.IsForm overload.parameters expanded ∧
    MethodDecl.assign? overload.parameters expanded (shape.arguments.map (·.name)) = some places
  typeArguments : ∀ written, shape.memberName?.bind (·.typeArguments) = some written →
    written ≠ [] → written.length = overload.typeParameters.length

theorem assign?_of_classify? {call : Expr} {root : RootExpression} {model : SemanticModel Id}
    {shape : CallShape} (classified : Id.run (classify? call root model) = some shape) :
    shape.method.containingType.fullName ∈ Names.holders ∧
      assign? shape.method 0 shape.arguments = some shape.assigned := by
  rcases resolved_of_classify? classified with ⟨-, isHolder, read⟩
  exact ⟨isHolder, assign?_of_bind? read⟩

theorem mem_parameters_of_assign? {method : MethodSymbol} {position : Nat}
    {arguments : List Argument} {entries : List BoundArgument}
    (read : assign? method position arguments = some entries) :
    ∀ entry ∈ entries, entry.parameter ∈ method.parameters := by
  induction arguments generalizing position entries with
  | nil =>
    cases read
    simp
  | cons argument rest ih =>
    simp only [assign?, bind, pure, Option.bind_eq_some_iff, Option.some.injEq] at read
    rcases read with ⟨parameter, isFor, others, restRead, rfl⟩
    refine List.forall_mem_cons.mpr ⟨?_, ih restRead⟩
    unfold parameterFor? at isFor
    split at isFor
    · exact List.mem_of_find?_eq_some isFor
    · split at isFor <;> exact List.mem_of_getElem? isFor

/-- The names of bound parameters are those at the places of the arguments. -/
theorem map_name_filter_not_isCatchAll {parameters : List ParameterSymbol}
    {entries : List BoundArgument} {places : List Nat} {test : Nat → Bool}
    (follow : List.Forall₂ (fun entry place => parameters[place]? = some entry.parameter) entries
      places)
    (tests : ∀ {place : Nat} {symbol : ParameterSymbol}, parameters[place]? = some symbol →
      symbol.isCatchAll = test place) :
    (entries.filter fun entry => !entry.parameter.isCatchAll).map
        (fun entry => some entry.parameter.name) =
      (places.filter fun place => !test place).map fun place =>
        (parameters.map (·.name))[place]? := by
  induction follow with
  | nil => rfl
  | cons parameterIs _ ih =>
    simp only [List.filter_cons, ← tests parameterIs]
    split
    · rw [List.map_cons, List.map_cons, ih, List.getElem?_map, parameterIs, Option.map_some]
    · exact ih

variable {shape : CallShape} {overload : MethodDecl}

namespace BindsTo

variable (binds : shape.BindsTo overload)
  (read : assign? shape.method 0 shape.arguments = some shape.assigned)

include binds read

/-- The parameter of a bound argument is one that takes an argument of its own. -/
theorem name_mem_ownParameters {entry : BoundArgument} (bound : entry ∈ shape.bound) :
    entry.parameter.name ∈ overload.ownParameters := by
  rcases List.mem_filter.mp bound with ⟨assigned, isOwn⟩
  have member : (entry.parameter.name, entry.parameter.isParams) ∈
      overload.parameters.map fun parameter => (parameter.name, parameter.isParams) :=
    binds.parameters ▸ List.mem_map_of_mem (mem_parameters_of_assign? read entry assigned)
  rcases List.mem_map.mp member with ⟨declared, isDeclared, same⟩
  rcases Prod.mk.inj same with ⟨sameName, sameRest⟩
  refine List.mem_map.mpr ⟨declared, List.mem_filter.mpr ⟨isDeclared, ?_⟩, sameName⟩
  rw [sameName, sameRest]
  exact isOwn

/-- No parameter is bound to two arguments. -/
theorem nodup_names (distinct : (overload.parameters.map (·.name)).Nodup) :
    (shape.bound.map (·.parameter.name)).Nodup := by
  rcases binds.declares with ⟨entry, isEntry, -, member⟩
  have isLast : MethodDecl.CatchAllIsLast overload.parameters :=
    Reference.catchAllIsLast _ (List.fst_mem_of_mem_zipIdx isEntry) _ member
  rcases binds.arguments with ⟨expanded, places, form, accepted⟩
  simp only [MethodDecl.assign?, bind, Option.bind_eq_some_iff] at accepted
  rcases accepted with ⟨assigned, given, accepted⟩
  split at accepted <;> cases accepted
  rcases MethodDecl.exists_assign? isLast form binds.parameters given with
    ⟨entries, same, -, follow⟩
  cases read.symm.trans same
  have names : shape.method.parameters.map (·.name) = overload.parameters.map (·.name) := by
    simpa [Function.comp_def] using congrArg (List.map Prod.fst) binds.parameters
  have atPlaces := map_name_filter_not_isCatchAll follow fun isAt =>
    isLast.takesRest_eq binds.parameters isAt
  have own : (places.filter fun place =>
      !MethodDecl.takesRest overload.parameters place).Nodup := by
    refine (MethodDecl.nodup_of_assignFrom? given).1.sublist
      (List.monotone_filter_right places fun place isOwn => ?_)
    refine decide_eq_true fun isExpanded => ?_
    simp [MethodDecl.takesRest_of_isForm form isExpanded] at isOwn
  -- a place that is given has a name, and no two places have the same one
  have once : ((places.filter fun place => !MethodDecl.takesRest overload.parameters place).map
      fun place => (shape.method.parameters.map (·.name))[place]?).Nodup := by
    refine List.Nodup.map_on (fun place inside other _ sameName => ?_) own
    have named := List.mem_map_of_mem (f := fun place =>
      (shape.method.parameters.map (·.name))[place]?) inside
    rw [← atPlaces] at named
    rcases List.mem_map.mp named with ⟨bound, -, isAt⟩
    have isInside := (List.getElem?_eq_some_iff.mp isAt.symm).1
    exact (List.getElem?_inj isInside (names ▸ distinct)).mp sameName
  rw [← atPlaces] at once
  refine List.Nodup.of_map some ?_
  rw [List.map_map]
  exact once

/-- A bound argument is the one that its parameter is looked up with. -/
theorem binding?_eq_some (distinct : (overload.parameters.map (·.name)).Nodup)
    {entry : BoundArgument} (bound : entry ∈ shape.bound) :
    shape.binding? entry.parameter.name = some entry := by
  cases found : shape.binding? entry.parameter.name with
  | none => simpa using List.find?_eq_none.mp found entry bound
  | some other =>
    have sameName : other.parameter.name = entry.parameter.name := by
      simpa using List.find?_some found
    exact congrArg some (List.inj_on_of_nodup_map (binds.nodup_names read distinct)
      (List.mem_of_find?_eq_some found) bound sameName)

end BindsTo

end CallShape

namespace CallShape

/-- What overload resolution asks of a call is what binding to an overload means. -/
theorem bindsTo_of_applicable? {table : TypeTable} {slots : List ArgumentSlot}
    {explicit : List TypeSymbol} {candidate : MethodCandidate} {found : ApplicableMethod}
    {shape : CallShape} (applicable : table.applicable? slots explicit candidate = some found)
    (declares : Reference.Declares candidate.owner.fullName candidate.method)
    (notReduced : candidate.isReduced = false)
    (resolved : shape.method = TypeTable.methodSymbol candidate found)
    (labels : slots.map (·.label) = shape.arguments.map (·.name))
    (typesWritten : ∀ written, shape.memberName?.bind (·.typeArguments) = some written →
      explicit.length = written.length) :
    shape.BindsTo candidate.method := by
  have parametersAre : shape.method.parameters = found.parameters := by
    simp [resolved, TypeTable.methodSymbol, notReduced]
  unfold TypeTable.applicable? at applicable
  split at applicable
  · cases applicable
  · rename_i sameLength
    have inForm : ∃ expanded, MethodDecl.IsForm candidate.method.parameters expanded ∧
        table.applicableIn? candidate slots explicit expanded = some found := by
      rw [Option.orElse_eq_orElse, Option.orElse_eq_or, Option.or_eq_some_iff] at applicable
      rcases applicable with normal | ⟨-, rest⟩
      · exact ⟨none, .inl rfl, normal⟩
      · split at rest
        · rename_i place isRest
          exact ⟨some place, .inr isRest.symm, rest⟩
        · cases rest
    rcases inForm with ⟨expanded, form, applicable⟩
    have accepted := applicable
    simp only [TypeTable.applicableIn?, bind, Option.bind_eq_some_iff] at accepted
    rcases accepted with ⟨places, given, -⟩
    refine ⟨resolved ▸ declares, resolved ▸ rfl, ?_, ⟨expanded, places, form, labels ▸ given⟩, ?_⟩
    · exact parametersAre ▸ TypeTable.describes_of_applicableIn? applicable
    · intro written writtenIs nonempty
      have sameWritten := typesWritten written writtenIs
      have isExplicit : explicit ≠ [] := by
        rintro rfl
        exact nonempty (List.eq_nil_of_length_eq_zero sameWritten.symm)
      simpa [isExplicit, sameWritten] using sameLength

end CallShape

/-- What is written in a new call for an argument of the old one: its expression, behind a cast to
the type of the parameter if the conversion to it calls an operator. -/
def BoundArgument.copied (entry : BoundArgument) (model : SemanticModel Id) : Expr :=
  let conversion := Id.run (model.classifyConversion entry.argument.expression entry.parameter.type)
  if conversion.isUserDefined then
    Expr.castTo (.other entry.parameter.type.display none) entry.argument.expression
  else entry.argument.expression

namespace FixedCall

/-- How a form of constraint is written for a call, with the arguments that the constraint takes
over. -/
inductive Constrains (shape : CallShape) (model : SemanticModel Id) :
    Replacement → Expr → List BoundArgument → Prop
  | property {actual chain : List String} :
      Constrains shape model (.property actual chain) (Expr.dotted chain) []
  | exact {actual name : String} {chain : List String} {expected : BoundArgument}
      (isExpected : shape.binding? name = some expected)
      (noTolerance : shape.binding? "delta" = none) :
      Constrains shape model (.call actual name chain)
        (constraintCall chain [expected.copied model]) [expected]
  | within {actual name : String} {chain : List String} {expected delta : BoundArgument}
      (isExpected : shape.binding? name = some expected)
      (tolerance : shape.binding? "delta" = some delta) :
      Constrains shape model (.call actual name chain)
        (.call ((constraintCall chain [expected.copied model]).member "Within")
          [.ofExpr (delta.copied model)]) [expected, delta]
  | typeArguments {before : List String} {last : String} {written : List TypeExpr}
      (isWritten : shape.memberName?.bind (·.typeArguments) = some written) :
      Constrains shape model (.typeCheck (before ++ [last]))
        (.call (.genericMember (.dotted before) last written) []) []
  | typeArgument {chain : List String} {expected : BoundArgument}
      (isExpected : shape.binding? "expected" = some expected)
      (notWritten : shape.memberName?.bind (·.typeArguments) = none) :
      Constrains shape model (.typeCheck chain)
        (constraintCall chain [expected.copied model]) [expected]

/-- How the message of a call is written: not at all if there is none or if it is `null`, as it is
if no values for it follow, and otherwise with the values put into it or formatted by a call. -/
inductive Messages (shape : CallShape) : Option Expr → Prop
  | none (noMessage : shape.message? = none) : Messages shape none
  | null {message : Argument} (isMessage : shape.message? = some message)
      (isNull : message.expression.unparenthesized.isLiteral .null = true) : Messages shape none
  | plain {message : Argument} (isMessage : shape.message? = some message)
      (notNull : message.expression.unparenthesized.isLiteral .null = false)
      (noValues : shape.overflow = []) : Messages shape (some message.expression)
  | values {message : Argument} (isMessage : shape.message? = some message)
      (notNull : message.expression.unparenthesized.isLiteral .null = false)
      (hasValues : shape.overflow ≠ []) :
      Messages shape (some (withValues message (shape.overflow.map (·.expression))).expression)
  | elements {message single : Argument} {type : Option TypeExpr} {elements : List Expr}
      {span : Option Span} (isMessage : shape.message? = some message)
      (notNull : message.expression.unparenthesized.isLiteral .null = false)
      (isSingle : shape.overflow = [single])
      (isArray : single.expression = .arrayCreation type elements span) :
      Messages shape (some (withValues message elements).expression)
  | array {message single : Argument} (isMessage : shape.message? = some message)
      (notNull : message.expression.unparenthesized.isLiteral .null = false)
      (isSingle : shape.overflow = [single]) :
      Messages shape (some (stringFormat message.expression [single.expression]))

variable {shape : CallShape} {model : SemanticModel Id}

theorem run_converted? (shape : CallShape) (parameter : String) (model : SemanticModel Id) :
    Id.run (converted? shape parameter model) =
      (shape.binding? parameter).map (·.copied model) := by
  unfold converted?
  cases shape.binding? parameter <;> rfl

theorem exists_constrains {replacement : Replacement} {constraint : Expr}
    (written : Id.run (classicConstraint? shape replacement (shape.binding? "delta").isSome model) =
      some constraint) : ∃ taken, Constrains shape model replacement constraint taken := by
  cases replacement with
  | property actual chain =>
    cases written
    exact ⟨[], .property⟩
  | call actual name chain =>
    have expectedIs := run_converted? shape name model
    have deltaIs := run_converted? shape "delta" model
    simp only [Id.run] at expectedIs deltaIs
    simp only [classicConstraint?, bind, pure, Id.run, expectedIs, deltaIs] at written
    cases isExpected : shape.binding? name with
    | none => simp [isExpected] at written
    | some expected =>
      cases tolerance : shape.binding? "delta" with
      | none =>
        simp only [isExpected, tolerance, Option.map_some, Option.isSome_none, Bool.false_eq_true,
          if_false, Option.some.injEq] at written
        exact ⟨[expected], written ▸ .exact isExpected tolerance⟩
      | some delta =>
        simp only [isExpected, tolerance, Option.map_some, Option.isSome_some, if_true,
          Option.some.injEq] at written
        exact ⟨[expected, delta], written ▸ .within isExpected tolerance⟩
  | typeCheck chain =>
    have expectedIs := run_converted? shape "expected" model
    simp only [Id.run] at expectedIs
    simp only [classicConstraint?, typeCheck?, bind, pure, Id.run, expectedIs] at written
    cases isWritten : shape.memberName?.bind (·.typeArguments) with
    | none =>
      simp only [isWritten, Option.map_map, Option.map_eq_some_iff] at written
      rcases written with ⟨expected, isExpected, rfl⟩
      exact ⟨[expected], .typeArgument isExpected isWritten⟩
    | some typeArguments =>
      simp only [isWritten, Option.map_eq_some_iff] at written
      rcases written with ⟨last, isLast, rfl⟩
      have chainIs := List.dropLast_append_getLast? last isLast
      refine ⟨[], ?_⟩
      conv => arg 3; rw [← chainIs]
      exact .typeArguments isWritten

theorem messages_messageArgument? (shape : CallShape) (model : SemanticModel Id) :
    Messages shape ((Id.run (messageArgument? shape model)).map (·.expression)) := by
  cases isMessage : shape.message? with
  | none =>
    simp only [messageArgument?, isMessage]
    exact .none isMessage
  | some message =>
    cases isNull : message.expression.unparenthesized.isLiteral .null with
    | true =>
      simp only [messageArgument?, isMessage, isNull, if_true]
      exact .null isMessage isNull
    | false =>
      simp only [messageArgument?, isMessage, isNull, Bool.false_eq_true, if_false]
      cases values : shape.overflow with
      | nil => exact .plain isMessage isNull values
      | cons first rest =>
        have filled := Messages.values isMessage isNull (values ▸ List.cons_ne_nil first rest)
        rw [values] at filled
        cases rest with
        | cons second rest => exact filled
        | nil =>
          simp only [bind, pure, Id.run]
          cases passesArray shape first.expression model with
          | false => exact filled
          | true =>
            simp only [if_true]
            split
            · rename_i isArray
              exact .elements isMessage isNull values isArray
            · exact .array isMessage isNull values

/-- A constraint takes over all arguments but the actual value and the message. -/
theorem Constrains.takes_or_message {replacement : Replacement} {constraint : Expr}
    {taken : List BoundArgument} (constrains : Constrains shape model replacement constraint taken)
    {overload : MethodDecl} (reads : replacement.Reads overload)
    (notMessage : "message" ∉ replacement.actualParameters)
    (own : ∀ entry ∈ shape.bound, entry.parameter.name ∈ overload.ownParameters)
    (once : ∀ entry ∈ shape.bound, shape.binding? entry.parameter.name = some entry)
    (generic : (shape.memberName?.bind (·.typeArguments)).isSome → overload.typeParameters ≠ [])
    {actual : BoundArgument} (isActual : actual ∈ shape.bound)
    (isSubject : actual.parameter.name ∈ replacement.actualParameters) {entry : BoundArgument}
    (bound : entry ∈ shape.bound) :
    entry ∈ actual :: taken ∨ shape.binding? "message" = some entry := by
  have found {other : BoundArgument} (same : shape.binding? entry.parameter.name = some other) :
      entry = other := Option.some.inj ((once entry bound).symm.trans same)
  have isMessage (named : entry.parameter.name = "message") :
      shape.binding? "message" = some entry := named ▸ once entry bound
  have isSame (named : entry.parameter.name = actual.parameter.name) : entry = actual :=
    found (named ▸ once actual isActual)
  -- a parameter of the overload is the subject, one that the constraint takes, or the message
  cases constrains with
  | property =>
    rcases reads with ⟨subject, -, known⟩
    rcases known _ (own entry bound) with named | named
    · rcases known _ (own actual isActual) with actualNamed | actualNamed
      · exact .inl (isSame (named.trans actualNamed.symm) ▸ List.mem_cons_self)
      · exact (notMessage (actualNamed ▸ isSubject)).elim
    · exact .inr (isMessage named)
  | exact isExpected noTolerance =>
    have subject := List.mem_singleton.mp isSubject
    rcases reads _ (own entry bound) with known | named
    · simp only [List.mem_cons, List.not_mem_nil, or_false] at known
      rcases known with named | named | named
      · exact .inl (isSame (named.trans subject.symm) ▸ List.mem_cons_self)
      · exact .inl (by simp [found (named ▸ isExpected)])
      · rw [← named, once entry bound] at noTolerance
        cases noTolerance
    · exact .inr (isMessage named)
  | within isExpected tolerance =>
    have subject := List.mem_singleton.mp isSubject
    rcases reads _ (own entry bound) with known | named
    · simp only [List.mem_cons, List.not_mem_nil, or_false] at known
      rcases known with named | named | named
      · exact .inl (isSame (named.trans subject.symm) ▸ List.mem_cons_self)
      · exact .inl (by simp [found (named ▸ isExpected)])
      · exact .inl (by simp [found (named ▸ tolerance)])
    · exact .inr (isMessage named)
  | typeArguments isWritten =>
    have subject := List.mem_singleton.mp isSubject
    rcases reads _ (own entry bound) with named | ⟨-, notGeneric⟩ | named
    · exact .inl (isSame (named.trans subject.symm) ▸ List.mem_cons_self)
    · exact (generic (by simp [isWritten]) notGeneric).elim
    · exact .inr (isMessage named)
  | typeArgument isExpected notWritten =>
    have subject := List.mem_singleton.mp isSubject
    rcases reads _ (own entry bound) with named | ⟨named, -⟩ | named
    · exact .inl (isSame (named.trans subject.symm) ▸ List.mem_cons_self)
    · exact .inl (by simp [found (named ▸ isExpected)])
    · exact .inr (isMessage named)

theorem exists_classic? {rule : ClassicRule} {fixed : Expr}
    (rewritten : Id.run (classic? shape rule (shape.binding? "delta").isSome model) = some fixed) :
    ∃ actual constraint taken, actual ∈ shape.bound ∧
      actual.parameter.name ∈ rule.replacement.actualParameters ∧
      Constrains shape model rule.replacement constraint taken ∧
      fixed = Id.run (assemble shape (actual.copied model) (some constraint) model) := by
  simp only [classic?, bind, pure, Id.run] at rewritten
  split at rewritten
  · cases rewritten
  · rename_i parameter search
    have actualIs := run_converted? shape parameter model
    simp only [Id.run] at actualIs
    rw [actualIs] at rewritten
    have isBound : (shape.binding? parameter).isSome = true := by simpa using List.find?_some search
    rcases Option.isSome_iff_exists.mp isBound with ⟨actual, isActual⟩
    simp only [isActual, Option.map_some] at rewritten
    split at rewritten
    · cases rewritten
    · rename_i constraint written
      rcases exists_constrains written with ⟨taken, constrains⟩
      have named : actual.parameter.name = parameter := by simpa using List.find?_some isActual
      refine ⟨actual, constraint, taken, List.mem_of_find?_eq_some isActual, ?_, constrains, ?_⟩
      · exact named ▸ List.mem_of_find?_eq_some search
      · exact (Option.some.inj rewritten).symm

/-- A classic call that is bound to an overload of the reference surface is rewritten as the actual
value, the constraint of its rule and its message, in this order, without labels and between the
trivia of the old parentheses. Every bound argument is one of these, and what is written for the
actual value and for what the constraint takes over is the old expression, behind a cast exactly if
its conversion calls an operator; the message is written without one. -/
theorem classic?_keeps_arguments {σ : Type} {model : SemanticModel (StateM σ)}
    {reference : SemanticModel Id} {invariant : σ → Prop}
    (answers : model.Answers reference invariant) {state : σ} (inside : invariant state)
    {call : Expr} {root : RootExpression} {overload : MethodDecl} {rule : ClassicRule}
    {fixed : Expr}
    (classified : ((CallShape.classify? call root model).run state).1 = some shape)
    (binds : shape.BindsTo overload)
    (isRule : ClassicRule.ofMethodName? shape.method.name = some rule)
    (namesTypes : shape.memberName?.bind (·.typeArguments) ≠ some [])
    (rewritten : ((classic? shape rule (shape.binding? "delta").isSome model).run
      ((CallShape.classify? call root model).run state).2).1 = some fixed) :
    ∃ arguments actual constraint taken message,
      fixed = .invocation (thatTarget shape.target) ⟨arguments, none⟩ none ∧
      arguments.map (·.expression) = actual.copied reference :: constraint :: message.toList ∧
      (actual ∈ shape.bound ∧ actual.parameter.name ∈ rule.replacement.actualParameters) ∧
      Constrains shape reference rule.replacement constraint taken ∧
      Messages shape message ∧
      (∀ entry ∈ shape.bound, entry ∈ actual :: taken ∨ shape.binding? "message" = some entry) ∧
      (∀ argument ∈ arguments, argument.name = none) ∧
      arguments.head?.map (·.leading) = some shape.openingTrivia ∧
      arguments.getLast?.map (·.trailing) = some shape.closingTrivia := by
  rcases answers.classify? call root state inside with ⟨sameShape, kept⟩
  rw [classified] at sameShape
  rw [(answers.classic? shape rule _).eq_run kept] at rewritten
  rcases CallShape.assign?_of_classify? sameShape.symm with ⟨isHolder, read⟩
  rcases binds.declares with ⟨holder, isEntry, holderName, isMember⟩
  rcases Reference.reads_of_holders holder isEntry (holderName ▸ isHolder) overload isMember rule
    (binds.name ▸ isRule) with ⟨reads, distinct⟩
  rcases exists_classic? rewritten with
    ⟨actual, constraint, taken, isActual, isSubject, constrains, rfl⟩
  rcases exists_assemble shape (actual.copied reference) (some constraint) reference with
    ⟨arguments, assembled, expressions, unlabelled, opening, closing⟩
  have generic (isWritten : (shape.memberName?.bind (·.typeArguments)).isSome) :
      overload.typeParameters ≠ [] := by
    rcases Option.isSome_iff_exists.mp isWritten with ⟨written, writtenIs⟩
    have nonempty : written ≠ [] := fun isEmpty => namesTypes (isEmpty ▸ writtenIs)
    have length := binds.typeArguments written writtenIs nonempty
    rintro isEmpty
    rw [isEmpty] at length
    exact nonempty (List.eq_nil_of_length_eq_zero length)
  refine ⟨arguments, actual, constraint, taken, _, assembled, expressions, ⟨isActual, isSubject⟩,
    constrains, messages_messageArgument? shape reference, ?_, unlabelled, opening, closing⟩
  exact fun entry bound => constrains.takes_or_message reads rule.message_notMem_actualParameters
    (fun _ => binds.name_mem_ownParameters read) (fun _ => binds.binding?_eq_some read distinct)
    generic isActual isSubject bound

end FixedCall

/-- A model that takes every call for one of the given method, and that converts a value of one name
by an operator. -/
def SemanticModel.ofMethod (method : MethodSymbol) (converted : String) : SemanticModel Id where
  resolveMethod _ := some method
  symbolInfo _ := none
  typeOf _ := none
  classifyConversion
    | .name value _, _ => if value.identifier == converted then .userDefined else .identity
    | _, _ => .identity
  isDerivedFrom _ _ := false

/-- The symbol of an overload of a classic assertion. -/
def MethodDecl.toClassicSymbol (overload : MethodDecl) : MethodSymbol where
  name := overload.name
  containingType := .named "NUnit.Framework.Legacy" "ClassicAssert" .class
  parameters := overload.parameters.map fun parameter =>
    ⟨parameter.name, .named "" ((parameter.type.map (·.render "")).getD "") .class,
      parameter.isParams, parameter.isOptional⟩
  returnType := .empty
  typeArguments := []
  isStatic := overload.isStatic
  isExtension := false
  isReducedExtension := false

namespace FixedCall

/-- The call of a classic assertion with the given arguments. -/
def classicCall (method : SimpleName) (arguments : List Argument) : Expr :=
  .invocation (.memberAccess (.identifier "ClassicAssert") method none) ⟨arguments, none⟩
    (some ⟨0, 80⟩)

/-- An argument with a label. -/
def labelled (label value : String) : Argument :=
  { Argument.ofExpr (.identifier value) with name := some label }

/-- An argument behind a comma. -/
def spaced (value : Expr) : Argument := { Argument.ofExpr value with leading := " " }

open Reference in
/-- `AreEqual(delta: d, message: m, actual: a, expected: e)`, where `e` is converted by an operator,
is bound to the overload for numbers with a message. -/
theorem classic?_keeps_labelledTolerance :
    let overload : MethodDecl := ⟨"AreEqual", .ordinary, [], [param double "expected",
      param double "actual", param double "delta", param string "message",
      rest (arrayOf object) "args"], void, true⟩
    let reference : SemanticModel Id := .ofMethod overload.toClassicSymbol "e"
    let call := classicCall (.ofIdentifier "AreEqual") [labelled "delta" "d",
      labelled "message" "m", labelled "actual" "a", labelled "expected" "e"]
    reference.counting.Answers reference (fun _ => True) ∧
    ∃ shape fixed,
      ((CallShape.classify? call ⟨call, true, false⟩ reference.counting).run 0).1 = some shape ∧
      shape.BindsTo overload ∧
      ClassicRule.ofMethodName? shape.method.name = some .areEqual ∧
      shape.memberName?.bind (·.typeArguments) ≠ some [] ∧
      ((classic? shape .areEqual (shape.binding? "delta").isSome reference.counting).run
        ((CallShape.classify? call ⟨call, true, false⟩ reference.counting).run 0).2).1 =
          some fixed ∧
      fixed.render "" = "Assert.That(a, Is.EqualTo((double)e).Within(d), m)" ∧
      ∃ arguments actual constraint taken message,
        fixed = .invocation (thatTarget shape.target) ⟨arguments, none⟩ none ∧
        arguments.map (·.expression) = actual.copied reference :: constraint :: message.toList ∧
        (actual ∈ shape.bound ∧ actual.parameter.name ∈ Replacement.actualParameters
          ClassicRule.areEqual.replacement) ∧
        Constrains shape reference ClassicRule.areEqual.replacement constraint taken ∧
        Messages shape message ∧
        (∀ entry ∈ shape.bound,
          entry ∈ actual :: taken ∨ shape.binding? "message" = some entry) ∧
        (∀ argument ∈ arguments, argument.name = none) ∧
        arguments.head?.map (·.leading) = some shape.openingTrivia ∧
        arguments.getLast?.map (·.trailing) = some shape.closingTrivia := by
  intro overload reference call
  have declares : Reference.Declares "NUnit.Framework.Legacy.ClassicAssert" overload :=
    ⟨_, List.mem_of_getElem? (i := 99) rfl, by decide, List.mem_of_getElem? (i := 37) rfl⟩
  have binds : ∀ shape,
      ((CallShape.classify? call ⟨call, true, false⟩ reference.counting).run 0).1 = some shape →
        shape.BindsTo overload := by
    rintro _ ⟨⟩
    exact ⟨declares, rfl, rfl, ⟨some 4, [2, 3, 1, 0], .inr rfl, by decide⟩, nofun⟩
  have kept := classic?_keeps_arguments reference.answers_counting trivial
    (show ((CallShape.classify? call ⟨call, true, false⟩ reference.counting).run 0).1 = some _
      from rfl) (binds _ rfl) rfl nofun rfl
  exact ⟨reference.answers_counting, _, _, rfl, binds _ rfl, rfl, nofun, rfl, by decide,
    kept⟩

open Reference in
/-- In `IsTrue(flag, text)` the message is converted by an operator, but the new call passes it
without a cast. `IsInstanceOf<>(type, value)` is bound to the overload that takes the type as an
argument, but the new call has the empty list of type arguments in its place. -/
theorem exists_classic?_without_copy :
    (∃ overload model root shape message fixed,
      Id.run (CallShape.classify? (classicCall (.ofIdentifier "IsTrue")
        [.ofExpr (.identifier "flag"), .ofExpr (.identifier "text")]) root model) = some shape ∧
      shape.BindsTo overload ∧ ClassicRule.ofMethodName? shape.method.name = some .isTrue ∧
      Id.run (classic? shape .isTrue (shape.binding? "delta").isSome model) = some fixed ∧
      shape.binding? "message" = some message ∧
      (Id.run (model.classifyConversion message.argument.expression
        message.parameter.type)).isUserDefined = true ∧
      (message.copied model).render "" = "(string)text" ∧
      message.copied model ∉ fixed.walk ∧ fixed.render "" = "Assert.That(flag, Is.True, text)") ∧
    ∃ overload model root shape expected fixed,
      Id.run (CallShape.classify? (classicCall ⟨"IsInstanceOf", some [], none⟩
        [.ofExpr (.identifier "type"), .ofExpr (.identifier "value")]) root model) = some shape ∧
      shape.BindsTo overload ∧ ClassicRule.ofMethodName? shape.method.name = some .isInstanceOf ∧
      Id.run (classic? shape .isInstanceOf (shape.binding? "delta").isSome model) = some fixed ∧
      expected ∈ shape.bound ∧ expected.argument.expression.render "" = "type" ∧
      expected.argument.expression ∉ fixed.walk ∧
      fixed.render "" = "Assert.That(value, Is.InstanceOf<>())" := by
  refine ⟨?_, ?_⟩
  · let overload : MethodDecl := ⟨"IsTrue", .ordinary, [], [param bool "condition",
      param string "message", rest (arrayOf object) "args"], void, true⟩
    have declares : Reference.Declares "NUnit.Framework.Legacy.ClassicAssert" overload :=
      ⟨_, List.mem_of_getElem? (i := 99) rfl, by decide,
        List.mem_of_getElem? (i := 7) rfl⟩
    let fixed : Expr := .invocation (.dotted ["Assert", "That"])
      ⟨[.ofExpr (.identifier "flag"), spaced (.dotted ["Is", "True"]),
        spaced (.identifier "text")], none⟩ none
    refine ⟨overload, .ofMethod overload.toClassicSymbol "text", ⟨default, true, false⟩, _, _,
      fixed, rfl, ⟨declares, rfl, rfl, ⟨some 2, [0, 1], .inr rfl, by decide⟩, nofun⟩, rfl, rfl,
      rfl, rfl, by decide, ?_, by decide⟩
    change Expr.cast (.other "string" none) (.identifier "text") none ∉ fixed.walk
    simp [fixed, Expr.walk_eq, Expr.children, Expr.dotted, Expr.identifier, Expr.member, spaced,
      Argument.ofExpr]
  · let overload : MethodDecl := ⟨"IsInstanceOf", .ordinary, [], [param (named "Type") "expected",
      param object "actual"], void, true⟩
    have declares : Reference.Declares "NUnit.Framework.Legacy.ClassicAssert" overload :=
      ⟨_, List.mem_of_getElem? (i := 99) rfl, by decide,
        List.mem_of_getElem? (i := 170) rfl⟩
    let fixed : Expr := .invocation (.dotted ["Assert", "That"])
      ⟨[.ofExpr (.identifier "value"),
        spaced (.call (.genericMember (.identifier "Is") "InstanceOf" []) [])], none⟩ none
    refine ⟨overload, .ofMethod overload.toClassicSymbol "", ⟨default, true, false⟩, _, _, fixed,
      rfl, ⟨declares, rfl, rfl, ⟨none, [0, 1], .inl rfl, by decide⟩, ?_⟩, rfl, rfl,
      List.mem_cons_self, by decide, ?_, by decide⟩
    · rintro _ ⟨⟩ nonempty
      exact (nonempty rfl).elim
    · change Expr.identifier "type" ∉ fixed.walk
      simp [fixed, Expr.walk_eq, Expr.children, Expr.dotted, Expr.identifier, Expr.member,
        Expr.genericMember, Expr.call, ArgumentList.ofArguments, spaced, Argument.ofExpr,
        SimpleName.ofIdentifier]

end FixedCall

end AssertionLint
