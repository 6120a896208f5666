import AssertionLint.Proofs.Binding.MethodGroup
import AssertionLint.Proofs.Binding.RestArgument
import AssertionLint.Proofs.Model.Simulation

/-!
# Arrays that are passed for the remaining arguments

A message converter has to know whether a single argument for the values of a message is their array
or one value. Resolution knows, since it has tried the array first, but the symbol of a method does
not say it. The converter asks for the type of the argument instead.
-/

namespace AssertionLint

/-- What a computation with a memory gives is the result of the one without. -/
theorem StepRelation.run_answersAs {σ α : Type} {invariant : σ → Prop} {remembering : StateM σ α}
    {plain : Option α} {result : Id α} (answers : (answersAs invariant).Rel remembering plain)
    (isDefined : defined.Rel plain result) {state : σ} (holds : invariant state) :
    (remembering.run state).1 = Id.run result :=
  (answers _ isDefined state holds).1

namespace ParsedDocument

variable {document : ParsedDocument}

/-- Binding without memory goes step by step. -/
theorem totalBinder_bind (within : document.IsWithinDepth) {expr : Expr}
    (member : expr ∈ document.expressions) {span : Span} (spanIs : expr.span = some span) :
    Id.run (document.totalBinder.bind expr) =
      Id.run (document.totalBinder.bindStep span.start expr) := by
  have related := related_totalBinder within
  have bindsTo := related.bind member
  have step := related.bindStep span.start member
  change document.table.bindPlain (255 + 1) expr = _ at bindsTo
  rw [TypeTable.bindPlain_succ spanIs] at bindsTo
  have deeper := (@TypeTable.related_plainBinder document.table _ _
    (Nat.le_succ 255)).bindStep span.start trivial _ bindsTo
  exact Option.some.inj (deeper.symm.trans step)

theorem related_model (distinct : SpansAreDistinct (· ∈ document.expressions)) :
    Binder.Related (.answersAs (Bindings.Agree document.table (· ∈ document.expressions)))
      (· ∈ document.expressions) (document.table.rememberingBinder TypeTable.maxBindDepth)
      (document.table.plainBinder TypeTable.maxBindDepth) :=
  ⟨rfl, document.isClosed_expressions, fun member _ bindsTo =>
    TypeTable.ensures_bindWithin document.isClosed_expressions distinct member bindsTo⟩

end ParsedDocument

namespace Binder.Related

variable {m n : Type → Type} [Monad m] [Monad n] {relation : StepRelation m n}
  {inside : Expr → Prop} {left : Binder m} {right : Binder n}
  (related : Related relation inside left right)

include related

theorem passesArray (shape : CallShape) {expr : Expr} (member : inside expr) :
    relation.Rel (FixedCall.passesArray shape expr left.toModel)
      (FixedCall.passesArray shape expr right.toModel) := by
  unfold FixedCall.passesArray
  split
  · exact relation.pure _
  · refine relation.bind (related.knownType? member) fun type => ?_
    split
    · split
      · exact relation.bind (related.classifyConversion member _) fun _ => relation.pure _
      · exact relation.pure _
    · exact relation.pure _

theorem classify? {call : Expr} (member : inside call) (root : RootExpression) :
    relation.Rel (CallShape.classify? call root left.toModel)
      (CallShape.classify? call root right.toModel) := by
  unfold CallShape.classify?
  split
  · exact relation.pure _
  · split
    · exact relation.pure _
    · refine relation.bind (related.resolveMethod member) fun method => ?_
      split
      · exact relation.pure _
      · split <;> exact relation.pure _

end Binder.Related

theorem TypeTable.applicable_of_chosen? {table : TypeTable} {group : MethodGroup}
    {slots front : List ArgumentSlot} {candidate : MethodCandidate}
    {applicable : ApplicableMethod}
    (isChosen : table.chosen? group slots = some (front, candidate, applicable)) :
    table.applicable? (front ++ slots) group.typeArguments candidate = some applicable ∧
      (group.IsWellFormed → Fronts candidate front) := by
  rcases mem_of_chosen? isChosen with
    ⟨isApplicable, ⟨rfl, isCandidate⟩ | ⟨receiver, rfl, isExtension⟩⟩
  · exact ⟨isApplicable, fun isWellFormed =>
      .member (isWellFormed.members candidate isCandidate)⟩
  · exact ⟨isApplicable, fun isWellFormed =>
      .extension receiver (isWellFormed.extensions candidate isExtension)⟩

/-- What is read as an assertion is a call of the method that it resolves to. -/
theorem CallShape.exists_of_classify? {call : Expr} {root : RootExpression}
    {model : SemanticModel Id} {shape : CallShape}
    (classified : Id.run (classify? call root model) = some shape) :
    ∃ list, call = .invocation shape.target list (some shape.span) ∧
      list.arguments = shape.arguments ∧ Id.run (model.resolveMethod call) = some shape.method := by
  rcases resolved_of_classify? classified with ⟨resolved, -, read⟩
  rcases exists_of_bind? read with ⟨list, isCall, same, -⟩
  exact ⟨list, isCall, same, resolved⟩

namespace Binder

variable {binder : Binder Id} {shape : CallShape} {expr : Expr}

/-- A single value is taken for the array exactly if it has the type of an array and converts to the
type of the parameter. -/
theorem passesArray_eq_true_iff {parameter : ParameterSymbol} {type : TypeSymbol}
    (isCatchAll : shape.catchAll? = some parameter)
    (typed : Id.run (binder.toModel.typeOf expr) = some type) :
    Id.run (FixedCall.passesArray shape expr binder.toModel) = true ↔ type.isArray = true ∧
      (binder.table.exprConversion expr type parameter.type).exists = true := by
  have converted : Id.run (binder.toModel.classifyConversion expr parameter.type) =
      binder.table.exprConversion expr type parameter.type := by
    simp only [toModel, Bind.bind, Id.run] at typed ⊢
    rw [typed]
    rfl
  simp only [FixedCall.passesArray, isCatchAll, Bind.bind, pure, Id.run] at typed converted ⊢
  rw [typed]
  dsimp only
  split
  · rename_i isArray
    rw [converted]
    simp [isArray]
  · rename_i isArray
    simp [isArray]

end Binder

namespace ParsedDocument

variable {document : ParsedDocument} {shape : CallShape} {candidate : MethodCandidate}
  {front : List ArgumentSlot} {applicable : ApplicableMethod} {call : Expr}
  {root : RootExpression}

/-- An argument as resolution sees it. -/
def slotOf (document : ParsedDocument) (argument : Argument) : ArgumentSlot :=
  Id.run (document.totalBinder.argumentSlot argument)

/-- The candidate that a call resolves to, in the form that it is applicable in, and what it takes
in front of the arguments of the call. -/
def chosen? (document : ParsedDocument) (shape : CallShape) :
    Option (List ArgumentSlot × MethodCandidate × ApplicableMethod) :=
  match Id.run (document.totalBinder.bind shape.target) with
  | .methods group => document.table.chosen? group (shape.arguments.map document.slotOf)
  | _ => none

theorem applicable_of_chosen?
    (isChosen : document.chosen? shape = some (front, candidate, applicable)) :
    TypeTable.Fronts candidate front ∧ ∃ explicit, document.table.applicable?
      (front ++ shape.arguments.map document.slotOf) explicit candidate = some applicable := by
  unfold chosen? at isChosen
  split at isChosen
  · rename_i group calls
    rcases TypeTable.applicable_of_chosen? isChosen with ⟨isApplicable, fronts⟩
    rcases TypeTable.isNamed_of_bind calls with ⟨_, -, isNamed⟩
    exact ⟨fronts isNamed.toIsWellFormed, _, isApplicable⟩
  · cases isChosen

/-- A call that is read as an assertion has the method of the candidate that is chosen for it. -/
theorem method_eq_of_chosen? (within : document.IsWithinDepth)
    (member : call ∈ document.expressions)
    (classified : Id.run (CallShape.classify? call root document.totalBinder.toModel) =
      some shape)
    (isChosen : document.chosen? shape = some (front, candidate, applicable)) :
    shape.method = TypeTable.methodSymbol candidate applicable := by
  rcases CallShape.exists_of_classify? classified with ⟨list, rfl, same, resolved⟩
  rw [Binder.resolveMethod_eq_some_iff, totalBinder_bind within member rfl] at resolved
  rcases Binder.exists_of_bindInvocation resolved with ⟨group, calls, resolved⟩
  rw [same, TypeTable.resolveOverload?_eq_map_chosen?] at resolved
  rw [chosen?, calls] at isChosen
  have isMethod := (congrArg (Option.map _) isChosen).symm.trans resolved
  exact (Option.some.inj isMethod).symm

/-- The message converter takes the only argument for the values of a message for their array
exactly if the argument has the type of an array and resolution has passed it as the array. -/
theorem passesArray_iff (distinct : SpansAreDistinct (· ∈ document.expressions))
    (within : document.IsWithinDepth) {bindings : Bindings}
    (agree : bindings.Agree document.table (· ∈ document.expressions))
    (isCall : (call, root) ∈ document.tree.invocations)
    (classified : ((CallShape.classify? call root document.model).run bindings).1 = some shape)
    {argument : Argument} (single : shape.overflow = [argument]) {type : TypeSymbol}
    (typed : ((document.model.typeOf argument.expression).run bindings).1 = some type)
    (isChosen : document.chosen? shape = some (front, candidate, applicable)) {last : Nat}
    {array : TypeSymbol} (takes : document.table.TakesArray candidate last array) :
    ((FixedCall.passesArray shape argument.expression document.model).run bindings).1 = true ↔
      type.isArray = true ∧ applicable.isExpanded = false := by
  have member : call ∈ document.expressions := by
    rcases SyntaxTree.mem_invocations.mp isCall with ⟨isRoot, inside, -⟩
    exact List.mem_append_left _ (SyntaxTree.mem_expressions.mpr ⟨root, isRoot, inside⟩)
  have remembers := related_model distinct
  have total := related_totalBinder within
  -- what is remembered answers as the total binder does, so all questions are put to the latter
  have classified := (StepRelation.run_answersAs (remembers.classify? member root)
    (total.classify? member root) agree).symm.trans classified
  rcases CallShape.exists_of_classify? classified with ⟨list, rfl, same, -⟩
  have inOverflow : argument ∈ shape.overflow := single ▸ List.mem_singleton_self argument
  have isArgument : argument ∈ list.arguments := by
    rcases List.mem_map.mp inOverflow with ⟨entry, isEntry, rfl⟩
    rw [same]
    exact List.mem_map_of_mem (List.mem_filter.mp isEntry).1
  have inside : argument.expression ∈ document.expressions :=
    document.isClosed_expressions.child member (by
      simp only [Expr.children]
      exact List.mem_cons_of_mem _ (List.mem_map_of_mem isArgument))
  have typed := (StepRelation.run_answersAs (remembers.knownType? inside)
    (total.knownType? inside) agree).symm.trans typed
  have passes := StepRelation.run_answersAs (remembers.passesArray shape inside)
    (total.passesArray shape inside) agree
  have isMethod := method_eq_of_chosen? within member classified isChosen
  rcases applicable_of_chosen? isChosen with ⟨fronts, explicit, isApplicable⟩
  have isRead := (CallShape.assign?_of_classify? classified).2
  rw [isMethod] at isRead
  have nonempty : shape.assigned ≠ [] := by
    rintro isEmpty
    simp [CallShape.overflow, isEmpty] at inOverflow
  have labels : ∀ given, (document.slotOf given).label = given.name := fun _ => rfl
  have isRest := takes.isRest_of_overflow fronts labels isApplicable isRead single
  have isNormal := takes.isExpanded_eq_false_iff isRest isApplicable
  rcases takes.exists_catchAll? fronts isApplicable isRead nonempty with
    ⟨parameter, isCatchAll, rfl⟩
  rw [← isMethod] at isCatchAll
  have converts : document.table.slotConverts (document.slotOf argument) parameter.type =
      (document.table.exprConversion argument.expression type parameter.type).exists := by
    have isType : (document.slotOf argument).type = some type := typed
    simp only [TypeTable.slotConverts, isType, takes.isKnown, Bool.false_or]
    rfl
  refine (iff_of_eq (congrArg (· = true) passes)).trans ?_
  rw [Binder.passesArray_eq_true_iff isCatchAll typed, isNormal, converts]
  rfl

/-- Two calls whose values for the message are passed in one array, which once is `null`. -/
def passedArrays : ParsedDocument where
  tree :=
    { source := "Assert.That(true, \"\x7b0\x7d\", new object[] \x7b 1 \x7d); " ++
        "Assert.That(true, \"\x7b0\x7d\", null);"
      roots := [root withElements, root withNull] }
  declarations := { Declarations.empty with usings := ["NUnit.Framework"] }
where
  root (call : Expr) : RootExpression := ⟨call, true, false⟩
  call (start finish : Nat) (values : Expr) : Expr :=
    .invocation
      (.memberAccess (.name (.ofIdentifier "Assert") (some ⟨start, start + 6⟩))
        (.ofIdentifier "That") (some ⟨start, start + 11⟩))
      ⟨[.ofExpr (.literal ⟨.boolean, "true"⟩ (some ⟨start + 12, start + 16⟩)),
        .ofExpr (.literal ⟨.string, "\"\x7b0\x7d\""⟩ (some ⟨start + 18, start + 23⟩)),
        .ofExpr values], none⟩ (some ⟨start, finish⟩)
  withElements : Expr :=
    call 0 44 (.arrayCreation (some (.predefined "object" none))
      [.literal ⟨.integer, "1"⟩ (some ⟨40, 41⟩)] (some ⟨25, 43⟩))
  withNull : Expr := call 46 76 (.literal ⟨.null, "null"⟩ (some ⟨71, 75⟩))

theorem spansAreDistinct_passedArrays : SpansAreDistinct (· ∈ passedArrays.expressions) :=
  spansAreDistinct_of_nodup (by decide +kernel)

/-- Both arrays are passed as they are, but the message converter does not see it of `null`. -/
theorem passesArray_passedArrays :
    (∀ expr ∈ passedArrays.expressions,
      (passedArrays.table.bindPlain TypeTable.maxBindDepth expr).isSome) ∧
    ∀ entry ∈ [(passedArrays.withElements, true), (passedArrays.withNull, false)],
      ∃ shape ∈ ((CallShape.classify? entry.1 (passedArrays.root entry.1)
          passedArrays.model).run {}).1,
        ∃ argument ∈ shape.overflow, shape.overflow.length = 1 ∧
          ∃ type ∈ ((passedArrays.model.typeOf argument.expression).run {}).1,
            ∃ chosen ∈ passedArrays.chosen? shape,
              passedArrays.table.TakesArray chosen.2.1 2 (.arrayOf passedArrays.table.object) ∧
              chosen.2.2.isExpanded = false ∧
              ((FixedCall.passesArray shape argument.expression passedArrays.model).run {}).1 =
                entry.2 := by
  decide +kernel

theorem passesArray_iff_withElements :
    SpansAreDistinct (· ∈ passedArrays.expressions) ∧ passedArrays.IsWithinDepth ∧
    (passedArrays.withElements, passedArrays.root passedArrays.withElements) ∈
      passedArrays.tree.invocations ∧
    ∃ shape argument type front candidate applicable,
      ((CallShape.classify? passedArrays.withElements (passedArrays.root passedArrays.withElements)
        passedArrays.model).run {}).1 = some shape ∧ shape.overflow = [argument] ∧
      ((passedArrays.model.typeOf argument.expression).run {}).1 = some type ∧
      passedArrays.chosen? shape = some (front, candidate, applicable) ∧
      passedArrays.table.TakesArray candidate 2 (.arrayOf passedArrays.table.object) ∧
      (((FixedCall.passesArray shape argument.expression passedArrays.model).run {}).1 = true ↔
        type.isArray = true ∧ applicable.isExpanded = false) := by
  have within : passedArrays.IsWithinDepth := passesArray_passedArrays.1
  have isCall : (passedArrays.withElements, passedArrays.root passedArrays.withElements) ∈
      passedArrays.tree.invocations :=
    SyntaxTree.mem_invocations.mpr ⟨List.mem_cons_self, Expr.mem_walk_self _, rfl⟩
  rcases passesArray_passedArrays.2 _ List.mem_cons_self with
    ⟨shape, classified, argument, isOverflow, single, type, typed, ⟨front, candidate, applicable⟩,
      isChosen, takes, -, -⟩
  rcases List.length_eq_one_iff.mp single with ⟨only, single⟩
  rw [single, List.mem_singleton] at isOverflow
  subst isOverflow
  exact ⟨spansAreDistinct_passedArrays, within, isCall, shape, argument, type, front, candidate,
    applicable, classified, single, typed, isChosen, takes,
    passesArray_iff spansAreDistinct_passedArrays within (Bindings.agree_empty _ _) isCall
      classified single typed isChosen takes⟩

/-- `null` is passed as the array of the values of a message, but the message converter takes it for
one of them. -/
theorem exists_array_not_passed :
    ∃ (document : ParsedDocument) (call : Expr) (root : RootExpression) (shape : CallShape)
      (argument : Argument) (type : TypeSymbol) (front : List ArgumentSlot)
      (candidate : MethodCandidate) (applicable : ApplicableMethod),
      SpansAreDistinct (· ∈ document.expressions) ∧ document.IsWithinDepth ∧
      (call, root) ∈ document.tree.invocations ∧
      ((CallShape.classify? call root document.model).run {}).1 = some shape ∧
      shape.overflow = [argument] ∧
      ((document.model.typeOf argument.expression).run {}).1 = some type ∧
      document.chosen? shape = some (front, candidate, applicable) ∧
      document.table.TakesArray candidate 2 (.arrayOf document.table.object) ∧
      applicable.isExpanded = false ∧
      ((FixedCall.passesArray shape argument.expression document.model).run {}).1 = false := by
  have isCall : (passedArrays.withNull, passedArrays.root passedArrays.withNull) ∈
      passedArrays.tree.invocations :=
    SyntaxTree.mem_invocations.mpr
      ⟨List.mem_cons_of_mem _ List.mem_cons_self, Expr.mem_walk_self _, rfl⟩
  rcases passesArray_passedArrays.2 _ (List.mem_cons_of_mem _ List.mem_cons_self) with
    ⟨shape, classified, argument, isOverflow, single, type, typed, ⟨front, candidate, applicable⟩,
      isChosen, takes, isNormal, passes⟩
  rcases List.length_eq_one_iff.mp single with ⟨only, single⟩
  rw [single, List.mem_singleton] at isOverflow
  subst isOverflow
  exact ⟨passedArrays, _, _, shape, argument, type, front, candidate, applicable,
    spansAreDistinct_passedArrays, passesArray_passedArrays.1, isCall, classified, single, typed,
    isChosen, takes, isNormal, passes⟩

end ParsedDocument

end AssertionLint
