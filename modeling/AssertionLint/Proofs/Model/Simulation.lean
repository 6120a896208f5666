import AssertionLint.Assertions.Analysis
import AssertionLint.Proofs.Model.Outcome

/-!
# Analysis over a model that remembers

If a model answers like a reference without memory, then everything that is computed from its
answers is what the reference gives: conditions, constraints, findings, fixed calls, diagnostics,
actions and the result of fixing all. Each lemma follows the text of one definition. The last ones,
`Answers.analyze`, `Answers.codeActions` and `Answers.fixAll`, are for the entry points; through
them a statement about models without memory holds for the model of a document.
-/

namespace AssertionLint

namespace SemanticModel.Answers

variable {σ : Type} {model : SemanticModel (StateM σ)} {reference : SemanticModel Id}
  {invariant : σ → Prop} (answers : model.Answers reference invariant)

include answers

theorem isConstantField (expr : Expr) :
    Yields invariant (model.isConstantField expr) (reference.isConstantField expr) := by
  unfold SemanticModel.isConstantField
  refine (answers.symbolInfo expr).bind ?_
  intro symbol
  split <;> exact .pure _

theorem isConstant (expr : Expr) :
    Yields invariant (model.isConstant expr) (reference.isConstant expr) := by
  fun_induction SemanticModel.isConstant model expr with
  | case1 inner span ih => exact ih
  | case2 => exact .pure _
  | case3 operand span ih | case4 operand span ih | case5 operand span ih => exact ih
  | case6 | case9 =>
    rw [SemanticModel.isConstant]
    · exact .pure _
    all_goals assumption
  | case7 | case8 => exact answers.isConstantField _

theorem booleanConstraint? (expr : Expr) :
    Yields invariant (Condition.booleanConstraint? model expr)
      (Condition.booleanConstraint? reference expr) := by
  unfold Condition.booleanConstraint?
  dsimp only
  split
  · exact .pure _
  · refine (answers.symbolInfo _).bind ?_
    intro symbol
    split
    · exact .ite (.pure _) (.pure _)
    · exact .pure _

theorem conditionOfCall? (shape : CallShape) :
    Yields invariant (Condition.ofCall? shape model) (Condition.ofCall? shape reference) := by
  unfold Condition.ofCall?
  refine .ite ?_ (.pure _)
  split
  · exact .pure _
  · split
    · exact .pure _
    · refine (answers.booleanConstraint? _).bind ?_
      rintro (_ | holds)
      · exact .pure _
      · exact .pure _

theorem isRefLike (expr : Expr) :
    Yields invariant (Condition.isRefLike model expr) (Condition.isRefLike reference expr) :=
  (answers.typeOf expr).bind fun _ => .pure _

theorem isRefLikePair (left right : Expr) :
    Yields invariant (Condition.isRefLikePair model left right)
      (Condition.isRefLikePair reference left right) := by
  refine (answers.isRefLike left).bind ?_
  intro refLike
  exact .ite (.pure _) (answers.isRefLike right)

theorem equalityOperands? (expr : Expr) :
    Yields invariant (Condition.equalityOperands? model expr)
      (Condition.equalityOperands? reference expr) := by
  unfold Condition.equalityOperands?
  split
  · exact .pure _
  · exact .pure _
  · refine (answers.resolveMethod _).bind ?_
    rintro (_ | method) <;> exact .pure _
  · exact .pure _

theorem asEquality? (condition : Condition) :
    Yields invariant (Condition.asEquality? model condition)
      (Condition.asEquality? reference condition) := by
  refine (answers.equalityOperands? condition.expr).bind ?_
  rintro (_ | ⟨actual, expected, isInverted⟩)
  · exact .pure _
  · refine (answers.isRefLikePair actual expected).bind ?_
    intro refLike
    exact .ite (.pure _) (.pure _)

theorem hasConstantLeft (left right : Expr) :
    Yields invariant (Condition.hasConstantLeft model left right)
      (Condition.hasConstantLeft reference left right) := by
  refine (answers.isConstant left).bind ?_
  intro constant
  exact .ite ((answers.isConstant right).bind fun _ => .pure _) (.pure _)

theorem asComparison? (condition : Condition) :
    Yields invariant (Condition.asComparison? model condition)
      (Condition.asComparison? reference condition) := by
  unfold Condition.asComparison?
  split
  · split
    · exact .pure _
    · refine (answers.isRefLikePair _ _).bind ?_
      intro refLike
      exact .ite (.pure _) ((answers.hasConstantLeft _ _).bind fun _ => .pure _)
  · exact .pure _

theorem asStringPredicate? (condition : Condition) :
    Yields invariant (Condition.asStringPredicate? model condition)
      (Condition.asStringPredicate? reference condition) := by
  unfold Condition.asStringPredicate?
  split
  · refine (answers.resolveMethod _).bind ?_
    rintro (_ | method)
    · exact .pure _
    · refine .ite (.pure _) ?_
      split <;> exact .pure _
  · exact .pure _

theorem isCollectionMember (method : MethodSymbol) :
    Yields invariant (Condition.isCollectionMember model method)
      (Condition.isCollectionMember reference method) := by
  refine .ite ?_ (.pure _)
  refine (answers.isDerivedFrom _ _).bind ?_
  intro derived
  exact .ite (.pure _) (answers.isDerivedFrom _ _)

theorem membershipOperands? (method : MethodSymbol) (target : Expr) (arguments : List Argument) :
    Yields invariant (Condition.membershipOperands? model method target arguments)
      (Condition.membershipOperands? reference method target arguments) := by
  unfold Condition.membershipOperands?
  dsimp only
  split
  · refine .ite (.pure _) ((answers.isCollectionMember method).bind ?_)
    intro member
    exact .ite (.pure _) (.pure _)
  · exact .ite (.pure _) (.pure _)
  · exact .pure _

theorem asMembership? (condition : Condition) :
    Yields invariant (Condition.asMembership? model condition)
      (Condition.asMembership? reference condition) := by
  unfold Condition.asMembership?
  split
  · refine (answers.resolveMethod _).bind ?_
    rintro (_ | method)
    · exact .pure _
    · refine .ite (.pure _) ((answers.membershipOperands? method _ _).bind ?_)
      rintro (_ | ⟨actual, expected⟩) <;> exact .pure _
  · exact .pure _

theorem recognize? (condition : Condition) :
    Yields invariant (condition.recognize? model) (condition.recognize? reference) := by
  refine (answers.asEquality? condition).bind ?_
  rintro (_ | found)
  · refine (answers.asComparison? condition).bind ?_
    rintro (_ | found)
    · refine (answers.asStringPredicate? condition).bind ?_
      rintro (_ | found)
      · exact answers.asMembership? condition
      · exact .pure _
    · exact .pure _
  · exact .pure _

theorem isHelper (segment : Expr) :
    Yields invariant (ConstraintExpr.isHelper model segment)
      (ConstraintExpr.isHelper reference segment) := by
  unfold ConstraintExpr.isHelper
  split
  · refine .ite ?_ (.pure _)
    refine (answers.symbolInfo segment).bind ?_
    intro symbol
    split <;> exact .pure _
  · exact .pure _

theorem isConstraint (segment : Expr) :
    Yields invariant (ConstraintExpr.isConstraint model segment)
      (ConstraintExpr.isConstraint reference segment) := by
  refine (answers.typeOf segment).bind ?_
  rintro (_ | type)
  · exact .pure _
  · exact answers.isDerivedFrom type _

theorem spanConstraint (segments : List Expr) :
    Yields invariant (ConstraintExpr.spanConstraint model segments)
      (ConstraintExpr.spanConstraint reference segments) := by
  induction segments with
  | nil => exact .pure _
  | cons segment rest ih =>
    refine (answers.isConstraint segment).bind ?_
    intro isRoot
    exact .ite (.pure _) (ih.bind fun _ => .pure _)

theorem readPart (segments : List Expr) :
    Yields invariant (ConstraintExpr.readPart model segments)
      (ConstraintExpr.readPart reference segments) := by
  unfold ConstraintExpr.readPart
  dsimp only
  split
  rotate_left
  refine (answers.isHelper _).bind fun helper => .ite ?_ ?_
  -- after each start the rest is read in the same way
  all_goals
    refine (Yields.pure _).bind ?_
    rintro ⟨helper, rest⟩
    refine (answers.spanConstraint rest).bind ?_
    rintro ⟨prefixes, _ | ⟨root, suffixes⟩⟩ <;> exact .pure _

theorem readParts (chains : List (List Expr)) :
    Yields invariant (ConstraintExpr.readParts model chains)
      (ConstraintExpr.readParts reference chains) := by
  induction chains with
  | nil => exact .pure _
  | cons chain rest ih => exact (answers.readPart chain).bind fun _ => ih.bind fun _ => .pure _

theorem read (expr : Expr) :
    Yields invariant (ConstraintExpr.read model expr) (ConstraintExpr.read reference expr) :=
  (answers.readParts _).bind fun _ => .pure _

theorem findingOfCondition? (shape : CallShape) :
    Yields invariant (Finding.condition? shape model) (Finding.condition? shape reference) := by
  refine (answers.conditionOfCall? shape).bind ?_
  rintro (_ | condition)
  · exact .pure _
  · refine (answers.recognize? condition).bind ?_
    rintro (_ | found) <;> exact .pure _

theorem nullConstraints (shape : CallShape) :
    Yields invariant (Finding.nullConstraints shape model)
      (Finding.nullConstraints shape reference) := by
  unfold Finding.nullConstraints
  refine .ite ?_ (.pure _)
  split
  · exact .pure _
  · refine (answers.read _).bind ?_
    intro constraint
    refine .ite (.pure _) ((answers.typeOf _).bind ?_)
    intro type
    exact .ite (.pure _) (.pure _)

theorem isValueTyped (expr : Expr) :
    Yields invariant (Finding.isValueTyped model expr) (Finding.isValueTyped reference expr) :=
  (answers.typeOf expr).bind fun _ => .pure _

theorem comparesValues (actualIsValue : Bool) (part : ConstraintPart) :
    Yields invariant (Finding.comparesValues model actualIsValue part)
      (Finding.comparesValues reference actualIsValue part) := by
  refine .ite (.pure _) ?_
  split
  · exact answers.isValueTyped _
  · exact .pure _

theorem sameAsParts (actualIsValue : Bool) (parts : List ConstraintPart) :
    Yields invariant (Finding.sameAsParts model actualIsValue parts)
      (Finding.sameAsParts reference actualIsValue parts) := by
  induction parts with
  | nil => exact .pure _
  | cons part rest ih =>
    unfold Finding.sameAsParts
    dsimp only
    split
    · refine (answers.comparesValues actualIsValue part).bind ?_
      intro compares
      exact .ite ((Yields.pure _).bind fun _ => ih.bind fun _ => .pure _)
        ((Yields.pure _).bind fun _ => ih.bind fun _ => .pure _)
    · exact (Yields.pure _).bind fun _ => ih.bind fun _ => .pure _

theorem sameAsCall? (shape : CallShape) (replacement : String) :
    Yields invariant (Finding.sameAsCall? shape model replacement)
      (Finding.sameAsCall? shape reference replacement) := by
  unfold Finding.sameAsCall?
  dsimp only
  split
  · refine (answers.isValueTyped _).bind ?_
    intro compares
    exact .ite ((Yields.pure _).bind fun _ => .ite (.pure _) (.pure _))
      ((answers.isValueTyped _).bind fun _ => .ite (.pure _) (.pure _))
  · exact .pure _

theorem sameAs (shape : CallShape) :
    Yields invariant (Finding.sameAs shape model) (Finding.sameAs shape reference) := by
  unfold Finding.sameAs
  split
  · split
    · exact .pure _
    · refine (answers.isValueTyped _).bind ?_
      intro actualIsValue
      exact (answers.read _).bind fun _ => answers.sameAsParts _ _
  · exact (answers.sameAsCall? shape _).bind fun _ => .pure _
  · exact (answers.sameAsCall? shape _).bind fun _ => .pure _
  · exact .pure _

theorem findingsOfCall (shape : CallShape) :
    Yields invariant (Finding.ofCall shape model) (Finding.ofCall shape reference) := by
  refine (answers.findingOfCondition? shape).bind ?_
  intro condition
  refine (answers.nullConstraints shape).bind ?_
  intro nulls
  exact (answers.sameAs shape).bind fun _ => .pure _

theorem passesArray (shape : CallShape) (expr : Expr) :
    Yields invariant (FixedCall.passesArray shape expr model)
      (FixedCall.passesArray shape expr reference) := by
  unfold FixedCall.passesArray
  split
  · exact .pure _
  · refine (answers.typeOf expr).bind ?_
    rintro (_ | type)
    · exact .pure _
    · exact .ite ((answers.classifyConversion expr _).bind fun _ => .pure _) (.pure _)

theorem messageArgument? (shape : CallShape) :
    Yields invariant (FixedCall.messageArgument? shape model)
      (FixedCall.messageArgument? shape reference) := by
  unfold FixedCall.messageArgument?
  split
  · exact .pure _
  · refine .ite (.pure _) ?_
    split
    · exact .pure _
    · refine (answers.passesArray shape _).bind ?_
      intro passes
      refine .ite ?_ (.pure _)
      split <;> exact .pure _
    · exact .pure _

theorem converted? (shape : CallShape) (parameter : String) :
    Yields invariant (FixedCall.converted? shape parameter model)
      (FixedCall.converted? shape parameter reference) := by
  unfold FixedCall.converted?
  split
  · exact .pure _
  · exact (answers.classifyConversion _ _).bind fun _ => .pure _

theorem assemble (shape : CallShape) (actual : Expr) (constraint : Option Expr) :
    Yields invariant (FixedCall.assemble shape actual constraint model)
      (FixedCall.assemble shape actual constraint reference) :=
  (answers.messageArgument? shape).bind fun _ => .pure _

theorem typeCheck? (shape : CallShape) (chain : List String) :
    Yields invariant (FixedCall.typeCheck? shape chain model)
      (FixedCall.typeCheck? shape chain reference) := by
  unfold FixedCall.typeCheck?
  split
  · exact .pure _
  · exact (answers.converted? shape _).bind fun _ => .pure _

theorem classicConstraint? (shape : CallShape) (replacement : Replacement) (hasTolerance : Bool) :
    Yields invariant (FixedCall.classicConstraint? shape replacement hasTolerance model)
      (FixedCall.classicConstraint? shape replacement hasTolerance reference) := by
  unfold FixedCall.classicConstraint?
  split
  · exact .pure _
  · refine (answers.converted? shape _).bind ?_
    rintro (_ | expected)
    · exact .pure _
    · exact .ite ((answers.converted? shape _).bind fun _ => .pure _) (.pure _)
  · exact answers.typeCheck? shape _

theorem classic? (shape : CallShape) (rule : ClassicRule) (hasTolerance : Bool) :
    Yields invariant (FixedCall.classic? shape rule hasTolerance model)
      (FixedCall.classic? shape rule hasTolerance reference) := by
  unfold FixedCall.classic?
  dsimp only
  split
  · exact .pure _
  · refine (answers.converted? shape _).bind ?_
    rintro (_ | actual)
    · exact .pure _
    · refine (answers.classicConstraint? shape _ _).bind ?_
      rintro (_ | constraint)
      · exact .pure _
      · exact (answers.assemble shape _ _).bind fun _ => .pure _

theorem condensed? (shape : CallShape) :
    Yields invariant (FixedCall.condensed? shape model) (FixedCall.condensed? shape reference) := by
  refine (answers.converted? shape _).bind ?_
  rintro (_ | actual)
  · exact .pure _
  · exact (answers.assemble shape _ _).bind fun _ => .pure _

theorem fixedCondition? (shape : CallShape) :
    Yields invariant (FixedCall.condition? shape model) (FixedCall.condition? shape reference) := by
  refine (answers.conditionOfCall? shape).bind ?_
  rintro (_ | condition)
  · exact .pure _
  · refine (answers.recognize? condition).bind ?_
    rintro (_ | found)
    · exact .pure _
    · exact (answers.assemble shape _ _).bind fun _ => .pure _

theorem fixedFormatString? (shape : CallShape) :
    Yields invariant (FixedCall.formatString? shape model)
      (FixedCall.formatString? shape reference) := by
  unfold FixedCall.formatString?
  split
  · refine (answers.messageArgument? shape).bind ?_
    rintro (_ | message) <;> exact .pure _
  · exact .pure _

theorem classify? (invocation : Expr) (root : RootExpression) :
    Yields invariant (CallShape.classify? invocation root model)
      (CallShape.classify? invocation root reference) := by
  unfold CallShape.classify?
  split
  · exact .pure _
  · refine .ite (.pure _) ((answers.resolveMethod _).bind ?_)
    rintro (_ | method)
    · exact .pure _
    · exact .ite (.pure _) (.pure _)

theorem actionsOfCall (shape : CallShape) (observation : Observation) (source : String)
    (settings : FixSettings) :
    Yields invariant (CodeAction.ofCall shape observation model source settings)
      (CodeAction.ofCall shape observation reference source settings) := by
  unfold CodeAction.ofCall
  dsimp only
  split
  · refine (answers.classic? shape _ _).bind ?_
    intro full
    exact .ite ((answers.condensed? shape).bind fun _ => .pure _) (.pure _)
  · exact (answers.fixedCondition? shape).bind fun _ => .pure _
  · exact (answers.fixedFormatString? shape).bind fun _ => .pure _
  · exact .pure _
  · exact .pure _

variable (configuration : Configuration) (tree : SyntaxTree) (token : CancellationToken)

theorem diagnoseCall (call : Expr × RootExpression) :
    Yields invariant (configuration.diagnoseCall model call)
      (configuration.diagnoseCall reference call) := by
  refine (answers.classify? call.1 call.2).bind ?_
  rintro (_ | shape)
  · exact .pure _
  · exact (answers.findingsOfCall shape).bind fun _ => .pure _

theorem diagnoseCalls (calls : List (Expr × RootExpression)) :
    Yields invariant (configuration.diagnoseCalls model token calls)
      (configuration.diagnoseCalls reference token calls) := by
  induction calls with
  | nil => exact .pure _
  | cons call rest ih =>
    unfold Configuration.diagnoseCalls
    split
    · exact .pure _
    · exact (answers.diagnoseCall configuration call).bind fun _ => ih.bind fun _ => .pure _

theorem analyze :
    Yields invariant (configuration.analyze tree model token)
      (configuration.analyze tree reference token) :=
  (answers.diagnoseCalls configuration token _).bind fun _ => .pure _

theorem actionsFor (diagnostic : Diagnostic) :
    Yields invariant (configuration.actionsFor tree model diagnostic)
      (configuration.actionsFor tree reference diagnostic) := by
  unfold Configuration.actionsFor
  split
  · exact .pure _
  · exact .pure _
  · split
    · exact .pure _
    · refine (answers.classify? _ _).bind ?_
      rintro (_ | shape)
      · exact .pure _
      · exact answers.actionsOfCall shape _ _ _

theorem codeActions (diagnostic : Diagnostic) :
    Yields invariant (configuration.codeActions tree model diagnostic token)
      (configuration.codeActions tree reference diagnostic token) := by
  unfold Configuration.codeActions
  split
  · exact .pure _
  · exact (answers.actionsFor configuration tree diagnostic).bind fun _ => .pure _

theorem offeredEdits (equivalenceKey : String) (diagnostics : List Diagnostic) :
    Yields invariant (configuration.offeredEdits tree model equivalenceKey token diagnostics)
      (configuration.offeredEdits tree reference equivalenceKey token diagnostics) := by
  induction diagnostics with
  | nil => exact .pure _
  | cons diagnostic rest ih =>
    unfold Configuration.offeredEdits
    split
    · exact .pure _
    · exact (answers.actionsFor configuration tree diagnostic).bind fun _ =>
        ih.bind fun _ => .pure _

theorem fixAll (diagnostics : List Diagnostic) (equivalenceKey : String) :
    Yields invariant (configuration.fixAll tree model diagnostics equivalenceKey token)
      (configuration.fixAll tree reference diagnostics equivalenceKey token) :=
  (answers.offeredEdits configuration tree token equivalenceKey diagnostics).bind fun _ => .pure _

end SemanticModel.Answers

end AssertionLint
