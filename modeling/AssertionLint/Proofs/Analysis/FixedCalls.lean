import AssertionLint.Proofs.Model.Simulation

/-!
# When there is a fixed call

For each kind of finding, the condition under which a new call can be written in the place of the
old one, and what the call of a condition looks like. The conditions are about the arguments of the
old call only: conversions and types change how a new call is written but not whether there is one.
-/

namespace AssertionLint

variable {model : SemanticModel Id} {shape : CallShape}

/-- The call passes what the constraint of the rule is to be applied to: nothing, an expected value
or an expected type. -/
def ClassicRule.expectedIsGiven (rule : ClassicRule) (shape : CallShape) : Bool :=
  match rule.replacement with
  | .property .. => true
  | .call _ expected _ => (shape.binding? expected).isSome
  | .typeCheck _ =>
    (shape.memberName?.bind (·.typeArguments)).isSome || (shape.binding? "expected").isSome

/-- The arguments of the call suffice for the constraint of the rule, with the tolerance if one is
recorded. -/
structure ClassicRule.IsWritable (rule : ClassicRule) (shape : CallShape) (hasTolerance : Bool) :
    Prop where
  actual : (shape.firstBinding? rule.replacement.actualParameters).isSome = true
  expected : rule.expectedIsGiven shape = true
  tolerance : hasTolerance = true → rule.replacement.expectedParameter?.isSome = true →
    (shape.binding? "delta").isSome = true

/-- The message of the call is the literal `null`. -/
def CallShape.hasNullMessage (shape : CallShape) : Bool :=
  shape.message?.any fun message => message.expression.unparenthesized.isLiteral .null

namespace FixedCall

theorem isSome_converted? (shape : CallShape) (parameter : String) (model : SemanticModel Id) :
    (Id.run (converted? shape parameter model)).isSome = (shape.binding? parameter).isSome := by
  unfold converted?
  cases shape.binding? parameter <;> rfl

theorem isSome_typeCheck? {chain : List String} (isNamed : chain ≠ []) :
    (Id.run (typeCheck? shape chain model)).isSome =
      ((shape.memberName?.bind (·.typeArguments)).isSome ||
        (shape.binding? "expected").isSome) := by
  unfold typeCheck?
  cases shape.memberName?.bind (·.typeArguments) with
  | some typeArguments => simp [Id.run, pure, List.getLast?_isSome, isNamed]
  | none =>
    simp only [bind, pure, Option.isSome_none, Bool.false_or]
    rw [← isSome_converted? shape "expected" model]
    exact Option.isSome_map

theorem isSome_classicConstraint?_iff (shape : CallShape) (rule : ClassicRule)
    (hasTolerance : Bool) (model : SemanticModel Id) :
    (Id.run (classicConstraint? shape rule.replacement hasTolerance model)).isSome = true ↔
      rule.expectedIsGiven shape = true ∧ (hasTolerance = true →
        rule.replacement.expectedParameter?.isSome = true →
        (shape.binding? "delta").isSome = true) := by
  unfold ClassicRule.expectedIsGiven
  cases form : rule.replacement with
  | property actual chain => exact iff_of_true rfl ⟨rfl, nofun⟩
  | call actual expected chain =>
    dsimp only [Replacement.expectedParameter?]
    rw [← isSome_converted? shape expected model, ← isSome_converted? shape "delta" model]
    simp only [classicConstraint?, bind, pure, Id.run]
    cases converted? shape expected model with
    | none => simp
    | some value =>
      cases hasTolerance with
      | false => simp
      | true =>
        dsimp only
        rw [if_pos rfl, Option.isSome_map]
        simp
  | typeCheck chain =>
    refine (Bool.eq_iff_iff.mp (isSome_typeCheck? ?_)).trans (and_iff_left nofun).symm
    rintro rfl
    cases rule <;> cases form

/-- A classic call has a full form for a rule exactly if its arguments suffice for it. -/
theorem isSome_classic?_iff (shape : CallShape) (rule : ClassicRule) (hasTolerance : Bool)
    (model : SemanticModel Id) :
    (Id.run (classic? shape rule hasTolerance model)).isSome = true ↔
      rule.IsWritable shape hasTolerance := by
  have constraint := isSome_classicConstraint?_iff shape rule hasTolerance model
  simp only [classic?, bind, pure, Id.run] at constraint ⊢
  cases search : rule.replacement.actualParameters.find?
      (fun name => (shape.binding? name).isSome) with
  | none =>
    refine iff_of_false (by simp) fun writable => ?_
    rcases List.findSome?_isSome_iff.mp writable.actual with ⟨name, member, bound⟩
    exact List.find?_eq_none.mp search name member bound
  | some parameter =>
    have bound := List.find?_some search
    have passesActual : (shape.firstBinding? rule.replacement.actualParameters).isSome = true :=
      List.findSome?_isSome_iff.mpr ⟨parameter, List.mem_of_find?_eq_some search, bound⟩
    rw [← isSome_converted? shape parameter model] at bound
    rcases Option.isSome_iff_exists.mp bound with ⟨actual, converts⟩
    simp only [Id.run] at converts
    simp only [converts]
    refine Iff.trans ?_ (constraint.trans
      ⟨fun ⟨expected, tolerance⟩ => ⟨passesActual, expected, tolerance⟩,
        fun writable => ⟨writable.expected, writable.tolerance⟩⟩)
    cases classicConstraint? shape rule.replacement hasTolerance model <;> simp

/-- A classic call that passes an actual value has a full form exactly if it passes an expected
value where one is needed. -/
theorem isSome_classic? (model : SemanticModel Id) {rule : ClassicRule} {hasTolerance : Bool}
    (passesActual : (shape.firstBinding? rule.replacement.actualParameters).isSome = true)
    (tolerated : hasTolerance = true → (shape.binding? "delta").isSome = true) :
    (Id.run (classic? shape rule hasTolerance model)).isSome = rule.expectedIsGiven shape :=
  Bool.eq_iff_iff.mpr ((isSome_classic?_iff shape rule hasTolerance model).trans
    ⟨(·.expected), fun expected =>
      ⟨passesActual, expected, fun tolerates _ => tolerated tolerates⟩⟩)

theorem isSome_condensed? (shape : CallShape) (model : SemanticModel Id) :
    (Id.run (condensed? shape model)).isSome = (shape.binding? "condition").isSome := by
  rw [← isSome_converted? shape "condition" model]
  simp only [condensed?, bind, pure, Id.run]
  cases converted? shape "condition" model <;> rfl

/-- Only trivia behind arguments are changed. -/
theorem map_closeWith {α : Type} {view : Argument → α}
    (keeps : ∀ argument text, view { argument with trailing := text } = view argument)
    (closing : String) (arguments : List Argument) :
    (closeWith closing arguments).map view = arguments.map view := by
  fun_induction closeWith closing arguments with
  | case1 => rfl
  | case2 last => simp only [List.map_cons, List.map_nil, keeps last]
  | case3 argument rest _ ih => simp only [List.map_cons, keeps argument, ih]

theorem trailing_getLast?_closeWith (closing : String) {arguments : List Argument}
    (nonempty : arguments ≠ []) :
    (closeWith closing arguments).getLast?.map (·.trailing) = some closing := by
  fun_induction closeWith closing arguments with
  | case1 => exact (nonempty rfl).elim
  | case2 => rfl
  | case3 argument rest hasMore ih =>
    rcases Option.map_eq_some_iff.mp (ih hasMore) with ⟨last, isLast, closed⟩
    rw [List.getLast?_cons, isLast]
    exact congrArg some closed

theorem expression_withoutName (argument : Argument) :
    argument.withoutName.expression = argument.expression := by
  unfold Argument.withoutName
  split <;> rfl

theorem name_withoutName (argument : Argument) : argument.withoutName.name = none := by
  unfold Argument.withoutName
  split
  · rename_i isNone
    exact Option.isNone_iff_eq_none.mp isNone
  · rfl

/-- The arguments of a call that is put together. -/
def assembledArguments (shape : CallShape) (actual : Expr) (constraint : Option Expr)
    (message : Option Argument) : List Argument :=
  closeWith shape.closingTrivia ({ Argument.ofExpr actual with leading := shape.openingTrivia } ::
    (constraint.toList.map (fun expr => { Argument.ofExpr expr with leading := " " }) ++
      message.toList.map fun argument =>
        let plain := argument.withoutName
        if plain.leading.isEmpty then { plain with leading := " " } else plain))

theorem map_expression_assembledArguments (shape : CallShape) (actual : Expr)
    (constraint : Option Expr) (message : Option Argument) :
    (assembledArguments shape actual constraint message).map (·.expression) =
      actual :: (constraint.toList ++ (message.map (·.expression)).toList) := by
  have spaced (argument : Argument) :
      (let plain := argument.withoutName
        if plain.leading.isEmpty then { plain with leading := " " } else plain).expression =
      argument.expression := by
    dsimp only
    split <;> exact expression_withoutName argument
  rw [assembledArguments, map_closeWith fun _ _ => rfl]
  cases message <;> cases constraint <;>
    simp only [Option.toList_some, Option.toList_none, Option.map_some, Option.map_none,
      List.map_cons, List.map_nil, List.nil_append, List.cons_append, Argument.ofExpr, spaced]

/-- None of them has a label. -/
theorem name_of_mem_assembledArguments (shape : CallShape) (actual : Expr)
    (constraint : Option Expr) (message : Option Argument) :
    ∀ argument ∈ assembledArguments shape actual constraint message, argument.name = none := by
  have spaced (argument : Argument) :
      (let plain := argument.withoutName
        if plain.leading.isEmpty then { plain with leading := " " } else plain).name = none := by
    dsimp only
    split <;> exact name_withoutName argument
  suffices names : ∀ name ∈ (assembledArguments shape actual constraint message).map (·.name),
      name = none by
    exact fun argument member => names _ (List.mem_map_of_mem member)
  rw [assembledArguments, map_closeWith fun _ _ => rfl]
  cases message <;> cases constraint <;>
    simp only [Option.toList_some, Option.toList_none, List.map_cons, List.map_nil,
      List.nil_append, List.cons_append, Argument.ofExpr, spaced] <;> simp

/-- A call that is put together passes the actual value, the constraint and the old message, none of
them by name, between the trivia of the old parentheses. -/
theorem exists_assemble (shape : CallShape) (actual : Expr) (constraint : Option Expr)
    (model : SemanticModel Id) :
    ∃ arguments, Id.run (assemble shape actual constraint model) =
        .invocation (thatTarget shape.target) ⟨arguments, none⟩ none ∧
      arguments.map (·.expression) = actual :: (constraint.toList ++
        ((Id.run (messageArgument? shape model)).map (·.expression)).toList) ∧
      (∀ argument ∈ arguments, argument.name = none) ∧
      arguments.head?.map (·.leading) = some shape.openingTrivia ∧
      arguments.getLast?.map (·.trailing) = some shape.closingTrivia := by
  refine ⟨_, rfl, map_expression_assembledArguments shape actual constraint _,
    name_of_mem_assembledArguments shape actual constraint _, ?_,
    trailing_getLast?_closeWith _ (List.cons_ne_nil _ _)⟩
  rw [← List.head?_map, map_closeWith fun _ _ => rfl]
  rfl

/-- A condition that is recognized has a call with its operands and its constraint. -/
theorem condition?_eq_of_recognize? {condition : Condition} {found : RecognizedCondition}
    (read : Id.run (Condition.ofCall? shape model) = some condition)
    (recognized : Id.run (condition.recognize? model) = some found) :
    Id.run (condition? shape model) = some (Id.run (assemble shape found.actual
      (some (constraintCall found.constraint.chain [found.expected])) model)) := by
  simp only [Id.run] at read recognized
  simp only [condition?, bind, pure, Id.run, read, recognized]

theorem render_dotted_chain (constraint : ConditionConstraint) (source : String) :
    (Expr.dotted constraint.chain).render source = constraint.text := by
  cases constraint with
  | ordered relation => cases relation <;> rfl
  | equalTo isNegated | contain isNegated | startWith isNegated | endWith isNegated =>
    cases isNegated <;> rfl

/-- The constraint of a fixed call is written as it is shown. -/
theorem render_constraintCall (constraint : ConditionConstraint) (expected : Expr)
    (source : String) :
    (constraintCall constraint.chain [expected]).render source =
      constraint.text ++ "(" ++ expected.render source ++ ")" := by
  rw [← render_dotted_chain constraint source]
  simp only [constraintCall, Expr.call, ArgumentList.ofArguments, List.map_cons, List.map_nil,
    Expr.render, ArgumentList.render, Argument.render, Argument.ofExpr, copyOr,
    Argument.renderFollowing]
  simp [String.append_assoc]

theorem isSome_messageArgument? (model : SemanticModel Id)
    (message : shape.message?.isSome = true) :
    (Id.run (messageArgument? shape model)).isSome = !shape.hasNullMessage := by
  rcases Option.isSome_iff_exists.mp message with ⟨argument, messageIs⟩
  simp only [messageArgument?, CallShape.hasNullMessage, messageIs, Option.any_some, bind, pure,
    Id.run]
  split
  · rename_i isNull
    rw [isNull]
    rfl
  · rename_i notNull
    rw [Bool.eq_false_iff.mpr notNull]
    split
    · rfl
    · split
      · split <;> rfl
      · rfl
    · rfl

theorem isSome_formatString? (model : SemanticModel Id)
    (message : shape.message?.isSome = true)
    (overflow : shape.overflow ≠ []) :
    (Id.run (formatString? shape model)).isSome = !shape.hasNullMessage := by
  rw [← isSome_messageArgument? model message]
  rcases Option.isSome_iff_exists.mp message with ⟨argument, messageIs⟩
  rcases List.exists_cons_of_ne_nil overflow with ⟨first, rest, overflowIs⟩
  simp only [formatString?, messageIs, overflowIs, bind, pure, Id.run]
  cases messageArgument? shape model <;> rfl

end FixedCall

namespace CodeAction

/-- The action puts a text in the place of a span, trimmed to what changes. -/
def ReplacesAt (action : CodeAction) (source : String) (span : Span) : Prop :=
  ∃ replacement, action.edit = TextEdit.minimized source span replacement

theorem replacesAt_of_mem_ofFixedCall? {source title key : String} {span : Span}
    {fixed : Option Expr} {action : CodeAction}
    (offered : action ∈ ofFixedCall? source span title key fixed) :
    action.ReplacesAt source span := by
  rcases Option.map_eq_some_iff.mp (Option.mem_def.mp offered) with ⟨expr, -, rfl⟩
  exact ⟨expr.render source, rfl⟩

/-- Each action for a call replaces the text of the call. -/
theorem ensures_ofCall (shape : CallShape) (observation : Observation)
    {σ : Type} (model : SemanticModel (StateM σ)) (source : String) (settings : FixSettings) :
    Ensures (fun _ => True) (fun actions => ∀ action ∈ actions,
      action.ReplacesAt source shape.span) (ofCall shape observation model source settings) := by
  have single (title key : String) (fixed : Option Expr) : ∀ action ∈
      (ofFixedCall? source shape.span title key fixed).toList,
      action.ReplacesAt source shape.span :=
    fun action offered => replacesAt_of_mem_ofFixedCall? (Option.mem_toList.mp offered)
  unfold ofCall
  dsimp only
  split
  · refine .bind (.always _) fun full _ => ?_
    split
    · refine .bind (.always _) fun condensed _ => .pure ?_
      intro action offered
      rcases List.mem_append.mp offered with offered | offered
      · exact single _ _ _ action offered
      · exact single _ _ _ action offered
    · exact .pure (single _ _ _)
  · exact .bind (.always _) fun _ _ => .pure (single _ _ _)
  · exact .bind (.always _) fun _ _ => .pure (single _ _ _)
  · exact .pure (by simp)
  · exact .pure (by simp)

theorem replacesAt_of_mem_ofCall {observation : Observation} {source : String}
    {settings : FixSettings} {action : CodeAction}
    (offered : action ∈ Id.run (ofCall shape observation model source settings)) :
    action.ReplacesAt source shape.span := by
  have counted :=
    (model.answers_counting.actionsOfCall shape observation source settings 0 trivial).1
  exact (ensures_ofCall shape observation model.counting source settings 0 trivial).1 action
    (counted ▸ offered)

end CodeAction

end AssertionLint
