import AssertionLint.Proofs.Analysis.FixedCalls
import AssertionLint.Proofs.Analysis.Reported
import AssertionLint.Proofs.Syntax.Search

/-!
# Analysis and fixes agree

The actions for a diagnostic are found by searching for its call again, reading the call again and
reading its condition again. For a diagnostic that analysis just reported, each of these steps gives
what analysis saw, so exactly the actions are offered that the diagnostic promises
(`Diagnostic.IsAnsweredBy`). The search is the only step that depends on the tree: it finds each
call again if every span belongs to one expression and parts lie within the expression around them.
-/

namespace AssertionLint

/-- The diagnostic names the constraint in its message. -/
def Diagnostic.Shows (diagnostic : Diagnostic) (constraint : ConditionConstraint) : Prop :=
  ∃ compared, diagnostic.message =
    "Use " ++ constraint.text ++ " constraint instead of direct " ++ compared

/-- The action replaces the text of a span by a call that passes the actual value of a condition,
its constraint with the expected value, and perhaps a message. -/
def CodeAction.Writes (action : CodeAction) (source : String) (span : Span)
    (found : RecognizedCondition) : Prop :=
  ∃ target list constraint message,
    action.edit =
      TextEdit.minimized source span ((Expr.invocation target list none).render source) ∧
    list.arguments.map (·.expression) = found.actual :: constraint :: message ∧
    constraint = FixedCall.constraintCall found.constraint.chain [found.expected] ∧
    constraint.render source =
      found.constraint.text ++ "(" ++ found.expected.render source ++ ")"

/-- The actions are those that the diagnostic promises for the call it was reported about. -/
def Diagnostic.IsAnsweredBy (diagnostic : Diagnostic) (shape : CallShape)
    (model : SemanticModel Id) (source : String) (settings : FixSettings)
    (actions : List CodeAction) : Prop :=
  match diagnostic.observation with
  | .nullConstraint => actions = []
  | .sameAsOnValueType rename replacement => actions = [CodeAction.useEquality rename replacement]
  | .condition rule constraint swapOperands =>
    ∃ condition found action, Id.run (Condition.ofCall? shape model) = some condition ∧
      Id.run (condition.recognize? model) = some found ∧ found.rule = rule ∧
      found.constraint = constraint ∧ found.swapOperands = swapOperands ∧
      diagnostic.Shows constraint ∧ actions = [action] ∧
      action.equivalenceKey = rule.equivalenceKey ∧ action.Writes source diagnostic.span found
  | .formatString =>
    actions.map (·.equivalenceKey) =
        (if shape.hasNullMessage then [] else ["ConvertToInterpolatableString"]) ∧
      ∀ action ∈ actions, action.ReplacesAt source diagnostic.span
  | .classic rule _ =>
    actions.map (·.equivalenceKey) =
        (if rule.expectedIsGiven shape then ["TransformToConstraintModel"] else []) ++
        (if rule.isCondensable && settings.offerCondensed then
          ["TransformToConstraintModelCondensed"] else []) ∧
      ∀ action ∈ actions, action.ReplacesAt source diagnostic.span

theorem Descriptor.formatMessage_condition (rule : ConditionRule) (argument : String) :
    ∃ compared, rule.descriptor.formatMessage [argument] =
      "Use " ++ argument ++ " constraint instead of direct " ++ compared := by
  have filled (compared : String) (isKnown : compared = "comparison" ∨ compared = "method") :
      substitute ("Use \x7b0\x7d constraint instead of direct " ++ compared) 0 [argument] =
        "Use " ++ argument ++ " constraint instead of direct " ++ compared := by
    apply String.toList_injective
    rcases isKnown with rfl | rfl <;>
      simp [substitute, Text.replaceAll, Text.replaceAfter]
  cases rule with
  | equalConstraint | comparison => exact ⟨"comparison", filled "comparison" (.inl rfl)⟩
  | stringContains | stringStartsWith | stringEndsWith | collectionContains =>
    exact ⟨"method", filled "method" (.inr rfl)⟩

namespace CodeAction

variable {model : SemanticModel Id} {shape : CallShape}

theorem map_equivalenceKey_ofFixedCall? (source title key : String) (span : Span)
    (fixed : Option Expr) :
    (ofFixedCall? source span title key fixed).toList.map (·.equivalenceKey) =
      if fixed.isSome then [key] else [] := by
  cases fixed <;> rfl

theorem equivalenceKeys_of_classic {rule : ClassicRule} {hasTolerance : Bool}
    (passesActual : (shape.firstBinding? rule.replacement.actualParameters).isSome = true)
    (tolerated : hasTolerance = true → (shape.binding? "delta").isSome = true) (source : String)
    (settings : FixSettings) :
    (Id.run (ofCall shape (.classic rule hasTolerance) model source settings)).map
        (·.equivalenceKey) =
      (if rule.expectedIsGiven shape then ["TransformToConstraintModel"] else []) ++
      (if rule.isCondensable && settings.offerCondensed then
        ["TransformToConstraintModelCondensed"] else []) := by
  have full := FixedCall.isSome_classic? model passesActual tolerated
  have condensed := FixedCall.isSome_condensed? shape model
  simp only [Id.run] at full condensed
  simp only [ofCall, bind, pure, Id.run]
  split
  · rename_i offersCondensed
    have bound : (shape.binding? "condition").isSome = true := by
      rw [Bool.and_eq_true] at offersCondensed
      cases rule <;> simp_all [ClassicRule.isCondensable, ClassicRule.replacement,
        Replacement.actualParameters, CallShape.firstBinding?]
    rw [bound] at condensed
    simp only [List.map_append, map_equivalenceKey_ofFixedCall?, full, condensed, if_true]
  · simp only [map_equivalenceKey_ofFixedCall?, full, List.append_nil]

theorem ofCall_condition (rule : ConditionRule) (swapOperands : Bool)
    {found : RecognizedCondition} {condition : Condition}
    (read : Id.run (Condition.ofCall? shape model) = some condition)
    (recognized : Id.run (condition.recognize? model) = some found) (source : String)
    (settings : FixSettings) :
    ∃ action, Id.run (ofCall shape (.condition rule found.constraint swapOperands) model source
        settings) = [action] ∧
      action.equivalenceKey = rule.equivalenceKey ∧ action.Writes source shape.span found := by
  have fixed := FixedCall.condition?_eq_of_recognize? read recognized
  rcases FixedCall.exists_assemble shape found.actual
    (some (FixedCall.constraintCall found.constraint.chain [found.expected])) model with
    ⟨arguments, assembled, expressions, -⟩
  rw [assembled] at fixed
  simp only [Id.run] at fixed
  simp only [ofCall, bind, pure, Id.run, fixed]
  refine ⟨_, rfl, rfl, _, ⟨arguments, none⟩, _, _, rfl, expressions, rfl, ?_⟩
  exact FixedCall.render_constraintCall found.constraint found.expected source

theorem equivalenceKeys_of_formatString (message : shape.message?.isSome = true)
    (overflow : shape.overflow ≠ []) (source : String) (settings : FixSettings) :
    (Id.run (ofCall shape .formatString model source settings)).map (·.equivalenceKey) =
      if shape.hasNullMessage then [] else ["ConvertToInterpolatableString"] := by
  have fixed := FixedCall.isSome_formatString? model message overflow
  simp only [Id.run] at fixed
  simp only [ofCall, bind, pure, Id.run, map_equivalenceKey_ofFixedCall?, fixed]
  cases shape.hasNullMessage <;> rfl

end CodeAction

namespace Configuration

variable {configuration : Configuration} {tree : SyntaxTree} {model : SemanticModel Id}
  {diagnostic : Diagnostic} {shape : CallShape}

/-- The call of a diagnostic that is reported at the call itself is read again as it was. -/
theorem actionsFor_eq_ofCall (wellSpanned : tree.IsWellSpanned)
    (reported : configuration.IsReported tree model diagnostic shape) {observation : Observation}
    (same : (⟨diagnostic.span, diagnostic.observation⟩ : Finding) = ⟨shape.span, observation⟩)
    (notNull : observation ≠ .nullConstraint)
    (notSameAs : ∀ rename replacement, observation ≠ .sameAsOnValueType rename replacement) :
    diagnostic.span = shape.span ∧ diagnostic.observation = observation ∧
      Id.run (configuration.actionsFor tree model diagnostic) =
        Id.run (CodeAction.ofCall shape observation model tree.source configuration.fixes) := by
  rcases reported.call with ⟨call, root, isCall, classified⟩
  have found := wellSpanned.findInvocation?_eq isCall (CallShape.span_of_classify? classified)
  simp only [Id.run] at classified
  simp only [Finding.mk.injEq] at same
  rcases same with ⟨atCall, observed⟩
  refine ⟨atCall, observed, ?_⟩
  unfold actionsFor
  split
  · rename_i isNull
    exact absurd (observed.symm.trans isNull) notNull
  · rename_i rename replacement isSameAs
    exact absurd (observed.symm.trans isSameAs) (notSameAs rename replacement)
  · simp only [atCall, observed, found, bind, classified]

/-- For a diagnostic that was just reported, the actions are those that it promises. -/
theorem isAnsweredBy_actionsFor (wellSpanned : tree.IsWellSpanned)
    (reported : configuration.IsReported tree model diagnostic shape) :
    diagnostic.IsAnsweredBy shape model tree.source configuration.fixes
      (Id.run (configuration.actionsFor tree model diagnostic)) := by
  rcases Finding.mem_ofCall.mp reported.finding with classic | condition | null | sameAs | format
  · rcases Finding.classic?_eq_some_iff.mp classic with ⟨rule, named, passesActual, same⟩
    rcases actionsFor_eq_ofCall wellSpanned reported same (by simp) (by simp) with
      ⟨atCall, observed, read⟩
    have tolerated : (rule == .areEqual && (shape.argument? "delta").isSome) = true →
        (shape.binding? "delta").isSome = true := by
      simp [CallShape.argument?]
    simp only [Diagnostic.IsAnsweredBy, observed, read, atCall]
    exact ⟨CodeAction.equivalenceKeys_of_classic passesActual tolerated tree.source
      configuration.fixes, fun action offered => CodeAction.replacesAt_of_mem_ofCall offered⟩
  · rcases Finding.condition?_eq_some_iff.mp condition with
      ⟨condition, found, conditionRead, recognized, same⟩
    rcases actionsFor_eq_ofCall wellSpanned reported same (by simp) (by simp) with
      ⟨atCall, observed, read⟩
    rcases CodeAction.ofCall_condition found.rule found.swapOperands conditionRead recognized
      tree.source configuration.fixes with ⟨action, offered, sameKey, writes⟩
    have shows : diagnostic.Shows found.constraint := by
      rcases Descriptor.formatMessage_condition found.rule found.constraint.text with
        ⟨compared, message⟩
      refine ⟨compared, ?_⟩
      rw [reported.message, observed]
      exact message
    simp only [Diagnostic.IsAnsweredBy, observed, read, atCall]
    exact ⟨condition, found, action, conditionRead, recognized, rfl, rfl, rfl, shows, offered,
      sameKey, writes⟩
  · have observed := Finding.observation_of_mem_nullConstraints null
    simp only at observed
    simp only [Diagnostic.IsAnsweredBy, actionsFor, observed]
    rfl
  · rcases Finding.observation_of_mem_sameAs sameAs with ⟨rename, replacement, observed⟩
    simp only at observed
    simp only [Diagnostic.IsAnsweredBy, actionsFor, observed]
    rfl
  · rcases Finding.formatString?_eq_some_iff.mp format with ⟨-, -, message, overflow, same⟩
    rcases actionsFor_eq_ofCall wellSpanned reported same (by simp) (by simp) with
      ⟨atCall, observed, read⟩
    simp only [Diagnostic.IsAnsweredBy, observed, read, atCall]
    exact ⟨CodeAction.equivalenceKeys_of_formatString message overflow tree.source
      configuration.fixes, fun action offered => CodeAction.replacesAt_of_mem_ofCall offered⟩

/-- Every call of the document is found again by its span, and for every diagnostic that analysis
reports exactly the actions are offered that it promises, whatever a model that answers consistently
has been asked before. -/
theorem codeActions_answer_analyze (configuration : Configuration)
    (wellSpanned : tree.IsWellSpanned) {σ : Type} {remembering : SemanticModel (StateM σ)}
    {invariant : σ → Prop} (answers : remembering.Answers model invariant) :
    (∀ call root, (call, root) ∈ tree.invocations →
      ∃ span, call.span = some span ∧ tree.findInvocation? span = some (call, root)) ∧
    ∀ token start diagnostics, invariant start →
      ((configuration.analyze tree remembering token).run start).1 = .ok diagnostics →
      ∀ diagnostic ∈ diagnostics, ∃ shape,
        configuration.IsReported tree model diagnostic shape ∧
        ∀ later : CancellationToken, later.isCancelled = false →
          ∀ state, invariant state → ∃ actions,
            ((configuration.codeActions tree remembering diagnostic later).run state).1 =
              .ok actions ∧
            diagnostic.IsAnsweredBy shape model tree.source configuration.fixes actions := by
  refine ⟨?_, ?_⟩
  · intro call root isCall
    rcases SyntaxTree.mem_invocations.mp isCall with ⟨rootMem, inside, -⟩
    rcases wellSpanned.encloses call (SyntaxTree.mem_expressions.mpr ⟨root, rootMem, inside⟩) with
      ⟨span, spanIs, -⟩
    exact ⟨span, spanIs, wellSpanned.findInvocation?_eq isCall spanIs⟩
  · intro token start diagnostics startInside analyzed diagnostic member
    rw [(answers.analyze configuration tree token).eq_run startInside] at analyzed
    rcases (mem_analyze analyzed).mp member with ⟨shape, reported⟩
    refine ⟨shape, reported, ?_⟩
    intro later uncancelled state stateInside
    refine ⟨_, ?_, isAnsweredBy_actionsFor wellSpanned reported⟩
    rw [(answers.codeActions configuration tree later diagnostic).eq_run stateInside]
    simp only [codeActions, CancellationToken.check, uncancelled]
    rfl

theorem exists_isReported_innerCall : ∃ diagnostic shape,
    Configuration.IsReported {} .nestedCalls .ofMemberNames diagnostic shape ∧
      diagnostic.span = ⟨20, 43⟩ ∧ diagnostic.observation = .classic .isFalse false := by
  rcases SyntaxTree.mem_invocations_innerCall with ⟨root, -, isCall, inMethodBody, hasErrors⟩
  have classified : ∃ shape,
      Id.run (CallShape.classify? SyntaxTree.innerCall root .ofMemberNames) = some shape ∧
        Finding.classic? shape = some ⟨⟨20, 43⟩, .classic .isFalse false⟩ := by
    simp only [CallShape.classify?, inMethodBody, hasErrors]
    exact ⟨_, rfl, rfl⟩
  rcases classified with ⟨shape, classified, isFinding⟩
  exact ⟨⟨⟨20, 43⟩, .classic .isFalse false, _, .info⟩, shape,
    ⟨⟨SyntaxTree.innerCall, root, isCall, classified⟩, Finding.mem_ofCall.mpr (.inl isFinding), rfl,
      by decide⟩, rfl, rfl⟩

/-- The inner call of `SyntaxTree.nestedCalls` is reported and answered, although the model has been
asked other questions in between. -/
theorem codeActions_answer_innerCall :
    SyntaxTree.nestedCalls.IsWellSpanned ∧
    SemanticModel.ofMemberNames.counting.Answers .ofMemberNames (fun _ => True) ∧
    (∃ root ∈ SyntaxTree.nestedCalls.roots,
      SyntaxTree.nestedCalls.findInvocation? ⟨20, 43⟩ = some (SyntaxTree.innerCall, root)) ∧
    ∃ diagnostics diagnostic shape actions,
      ((Configuration.analyze {} .nestedCalls SemanticModel.ofMemberNames.counting {}).run 0).1 =
        .ok diagnostics ∧
      diagnostic ∈ diagnostics ∧ diagnostic.span = ⟨20, 43⟩ ∧
      diagnostic.observation = .classic .isFalse false ∧
      ((Configuration.codeActions {} .nestedCalls SemanticModel.ofMemberNames.counting diagnostic
        {}).run 7).1 = .ok actions ∧
      diagnostic.IsAnsweredBy shape .ofMemberNames SyntaxTree.nestedCalls.source {} actions := by
  have answers := SemanticModel.answers_counting .ofMemberNames
  have agree := codeActions_answer_analyze {} SyntaxTree.isWellSpanned_nestedCalls answers
  rcases SyntaxTree.mem_invocations_innerCall with ⟨root, rootMem, isCall, -⟩
  rcases agree.1 _ root isCall with ⟨span, spanIs, found⟩
  cases spanIs
  rcases exists_analyze {} .nestedCalls .ofMemberNames {} rfl with ⟨diagnostics, analyzed⟩
  have counted : ((Configuration.analyze {} .nestedCalls SemanticModel.ofMemberNames.counting
      {}).run 0).1 = .ok diagnostics :=
    ((answers.analyze {} .nestedCalls {} 0 trivial).1).trans analyzed
  rcases exists_isReported_innerCall with ⟨diagnostic, shape, reported, spanIs, observed⟩
  have member := (mem_analyze analyzed).mpr ⟨shape, reported⟩
  rcases agree.2 {} 0 diagnostics trivial counted diagnostic member with ⟨shape, -, answered⟩
  rcases answered {} rfl 7 trivial with ⟨actions, offered, isAnswered⟩
  exact ⟨SyntaxTree.isWellSpanned_nestedCalls, answers, ⟨root, rootMem, found⟩, diagnostics,
    diagnostic, shape, actions, counted, member, spanIs, observed, offered, isAnswered⟩

end Configuration

end AssertionLint
