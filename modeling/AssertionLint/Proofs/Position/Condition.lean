import AssertionLint.Assertions.Condition
import AssertionLint.Proofs.Position.Binding

/-!
# Calls and conditions behind a text

An assertion call is recognized behind a text as it is without the text, with the same parameters
for its arguments, and its condition is read in the same way (`SemanticModel.MovesTo.recognize?`).
-/

namespace AssertionLint

variable (front : String)

/-- The same argument of a call once a text stands in front of the source. -/
def BoundArgument.behind (entry : BoundArgument) : BoundArgument :=
  ⟨entry.parameter, entry.argument.behind front⟩

@[simp]
theorem BoundArgument.behind_parameter (entry : BoundArgument) :
    (entry.behind front).parameter = entry.parameter := rfl

@[simp]
theorem BoundArgument.behind_argument (entry : BoundArgument) :
    (entry.behind front).argument = entry.argument.behind front := rfl

/-- The same call once a text stands in front of the source. -/
@[simps]
def CallShape.behind (shape : CallShape) : CallShape where
  span := shape.span.behind front
  target := shape.target.behind front
  method := shape.method
  assigned := shape.assigned.map (BoundArgument.behind front)

namespace CallShape

theorem assign?_behind (method : MethodSymbol) (position : Nat) (arguments : List Argument) :
    assign? method position (arguments.map (Argument.behind front)) =
      (assign? method position arguments).map (List.map (BoundArgument.behind front)) := by
  induction arguments generalizing position with
  | nil => rfl
  | cons argument rest ih =>
    have same : parameterFor? method position (argument.behind front) =
        parameterFor? method position argument := by
      simp [parameterFor?]
    simp only [List.map_cons, assign?, same, ih]
    cases parameterFor? method position argument with
    | none => rfl
    | some parameter => cases assign? method (position + 1) rest <;> rfl

@[simp]
theorem bind?_behind (invocation : Expr) (method : MethodSymbol) :
    bind? (invocation.behind front) method = (bind? invocation method).map (behind front) := by
  simp only [bind?, Expr.span_behind, Expr.asInvocation?_behind]
  cases invocation.span with
  | none => rfl
  | some span =>
    cases invocation.asInvocation? with
    | none => rfl
    | some call =>
      have assigned := assign?_behind front method 0 call.2.arguments
      simp only [Option.map_some, Option.bind_eq_bind, Option.bind_some,
        ArgumentList.arguments_behind, assigned]
      cases assign? method 0 call.2.arguments <;> rfl

variable (shape : CallShape)

@[simp]
theorem arguments_behind :
    (shape.behind front).arguments = shape.arguments.map (Argument.behind front) := by
  simp [arguments, Function.comp_def]

@[simp]
theorem bound_behind :
    (shape.behind front).bound = shape.bound.map (BoundArgument.behind front) := by
  simp [bound, List.filter_map, Function.comp_def]

@[simp]
theorem overflow_behind :
    (shape.behind front).overflow = shape.overflow.map (Argument.behind front) := by
  simp [overflow, List.filter_map, Function.comp_def]

@[simp]
theorem binding?_behind (parameter : String) :
    (shape.behind front).binding? parameter =
      (shape.binding? parameter).map (BoundArgument.behind front) := by
  simp [binding?, Function.comp_def]

@[simp]
theorem argument?_behind (parameter : String) :
    (shape.behind front).argument? parameter =
      (shape.argument? parameter).map (Argument.behind front) := by
  simp [argument?, Function.comp_def]

@[simp]
theorem firstBinding?_behind (parameters : List String) :
    (shape.behind front).firstBinding? parameters =
      (shape.firstBinding? parameters).map (BoundArgument.behind front) := by
  simp [firstBinding?, List.map_findSome?, Function.comp_def, funext (binding?_behind front shape)]

@[simp]
theorem message?_behind :
    (shape.behind front).message? = shape.message?.map (Argument.behind front) :=
  argument?_behind front shape "message"

@[simp]
theorem catchAll?_behind : (shape.behind front).catchAll? = shape.catchAll? := rfl

@[simp]
theorem memberName?_behind :
    (shape.behind front).memberName? = shape.memberName?.map (SimpleName.behind front) :=
  Expr.trailingName?_behind front shape.target

@[simp]
theorem openingTrivia_behind : (shape.behind front).openingTrivia = shape.openingTrivia := by
  simp [openingTrivia, Function.comp_def]

@[simp]
theorem closingTrivia_behind : (shape.behind front).closingTrivia = shape.closingTrivia := by
  simp [closingTrivia, Function.comp_def]

end CallShape

/-- The same condition once a text stands in front of the source. -/
@[simps]
def Condition.behind (condition : Condition) : Condition where
  expr := condition.expr.behind front
  isNegated := condition.isNegated

/-- The same recognized condition once a text stands in front of the source. -/
@[simps]
def RecognizedCondition.behind (found : RecognizedCondition) : RecognizedCondition where
  rule := found.rule
  actual := found.actual.behind front
  expected := found.expected.behind front
  constraint := found.constraint
  swapOperands := found.swapOperands

/-- Both operands once a text stands in front of the source. -/
def Expr.behindBoth : Expr × Expr → Expr × Expr := Prod.map (Expr.behind front) (Expr.behind front)

namespace Condition

@[simp]
theorem peel_behind (isNegated : Bool) (expr : Expr) :
    peel isNegated (expr.behind front) = (peel isNegated expr).behind front := by
  induction expr using Expr.inductionOnChildren generalizing isNegated with
  | step expr ih =>
    cases expr with
    | parenthesized inner span => exact ih inner (by simp [Expr.children]) isNegated
    | unary operator operand span =>
      cases operator with
      | logicalNot => exact ih operand (by simp [Expr.children]) (!isNegated)
      | _ => rfl
    | _ => rfl

theorem receiverAnd_behind (target : Expr) (item : Argument) :
    (target.behind front).asMemberAccess?.map (fun access =>
        (access.1, (item.behind front).expression)) =
      (target.asMemberAccess?.map fun access => (access.1, item.expression)).map
        (Expr.behindBoth front) := by
  rw [Expr.asMemberAccess?_behind]
  cases target.asMemberAccess? <;> simp [Expr.behindBoth]

theorem equalsCall?_behind (method : MethodSymbol) (target : Expr) (list : ArgumentList) :
    equalsCall? method (target.behind front) (list.behind front) =
      (equalsCall? method target list).map (Expr.behindBoth front) := by
  unfold equalsCall?
  rw [ArgumentList.arguments_behind]
  split
  · rcases method.isStatic with _ | _
    · rcases list.arguments with _ | ⟨item, _ | _⟩
      · rfl
      · simp only [List.map_cons, List.map_nil, receiverAnd_behind]
        split <;> rfl
      · rfl
    · rcases list.arguments with _ | ⟨first, _ | ⟨second, _ | _⟩⟩
      · rfl
      · rfl
      · simp only [List.map_cons, List.map_nil, Argument.expression_behind]
        split <;> rfl
      · rfl
  · rfl

end Condition

namespace SemanticModel.MovesTo

variable {front} {one other : SemanticModel (StateM Bindings)} (moves : MovesTo front one other)

include moves

theorem classify? (invocation : Expr) (root : RootExpression) :
    Moves front (Option.map (CallShape.behind front)) (CallShape.classify? invocation root one)
      (CallShape.classify? (invocation.behind front) (root.behind front) other) := by
  unfold CallShape.classify?
  rw [Expr.span_behind]
  cases invocation.span with
  | none => exact .pure rfl
  | some span =>
    refine .ite (.pure rfl) ((moves.resolveMethod invocation).bind fun method => ?_)
    cases method with
    | none => exact .pure rfl
    | some method => exact .ite (.pure (CallShape.bind?_behind front invocation method)) (.pure rfl)

theorem isConstantField (expr : Expr) :
    Moves front id (one.isConstantField expr) (other.isConstantField (expr.behind front)) := by
  refine (moves.symbolInfo expr).bind fun symbol => ?_
  dsimp only [id]
  split <;> exact .pure rfl

theorem isConstant (expr : Expr) :
    Moves front id (one.isConstant expr) (other.isConstant (expr.behind front)) := by
  induction expr using Expr.inductionOnChildren with
  | step expr ih =>
    cases expr with
    | parenthesized inner span => exact ih inner (by simp [Expr.children])
    | unary operator operand span =>
      have same := ih operand (by simp [Expr.children])
      cases operator with
      | negate | plus | bitwiseNot => exact same
      | _ => exact .pure rfl
    | name simple span => exact moves.isConstantField (.name simple span)
    | memberAccess target member span =>
      exact moves.isConstantField (.memberAccess target member span)
    | _ => exact .pure rfl

theorem booleanConstraint? (expr : Expr) :
    Moves front id (Condition.booleanConstraint? one expr)
      (Condition.booleanConstraint? other (expr.behind front)) := by
  unfold Condition.booleanConstraint?
  simp only [Expr.unparenthesized_behind, Expr.asMemberAccess?_behind]
  cases expr.unparenthesized.asMemberAccess? with
  | none => exact .pure rfl
  | some access =>
    refine (moves.symbolInfo _).bind fun symbol => ?_
    dsimp only [id]
    split
    · exact .ite (.pure rfl) (.pure rfl)
    · exact .pure rfl

theorem conditionOfCall? (shape : CallShape) :
    Moves front (Option.map (Condition.behind front)) (Condition.ofCall? shape one)
      (Condition.ofCall? (shape.behind front) other) := by
  unfold Condition.ofCall?
  simp only [CallShape.behind_method, CallShape.firstBinding?_behind, CallShape.argument?_behind]
  refine .ite ?_ (.pure rfl)
  cases shape.firstBinding? ["condition", "actual"] with
  | none => exact .pure rfl
  | some subject =>
    cases shape.argument? "expression" with
    | none => exact .pure (by simp)
    | some constraint =>
      simp only [Option.map_some, Argument.expression_behind]
      refine (moves.booleanConstraint? constraint.expression).bind fun holds => ?_
      cases holds with
      | none => exact .pure rfl
      | some holds => exact .pure (by simp)

theorem isRefLike (expr : Expr) :
    Moves front id (Condition.isRefLike one expr) (Condition.isRefLike other (expr.behind front)) :=
  (moves.typeOf expr).bind fun _ => .pure rfl

theorem isRefLikePair (left right : Expr) :
    Moves front id (Condition.isRefLikePair one left right)
      (Condition.isRefLikePair other (left.behind front) (right.behind front)) :=
  (moves.isRefLike left).bind fun _ => .ite (.pure rfl) (moves.isRefLike right)

theorem equalityOperands? (expr : Expr) :
    Moves front (Option.map fun (actual, expected, isInverted) =>
        (actual.behind front, expected.behind front, isInverted))
      (Condition.equalityOperands? one expr)
      (Condition.equalityOperands? other (expr.behind front)) := by
  cases expr with
  | binary operator left right span => cases operator <;> exact .pure rfl
  | invocation target list span =>
    refine (moves.resolveMethod _).bind fun method => ?_
    cases method with
    | none => exact .pure rfl
    | some method =>
      refine .pure ?_
      simp only [Condition.equalsCall?_behind, Option.map_map]
      rfl
  | _ => exact .pure rfl

theorem asEquality? (condition : Condition) :
    Moves front (Option.map (RecognizedCondition.behind front))
      (Condition.asEquality? one condition)
      (Condition.asEquality? other (condition.behind front)) := by
  refine (moves.equalityOperands? condition.expr).bind fun operands => ?_
  rcases operands with _ | ⟨actual, expected, isInverted⟩
  · exact .pure rfl
  · exact (moves.isRefLikePair actual expected).bind fun _ => .ite (.pure rfl) (.pure rfl)

theorem hasConstantLeft (left right : Expr) :
    Moves front id (Condition.hasConstantLeft one left right)
      (Condition.hasConstantLeft other (left.behind front) (right.behind front)) :=
  (moves.isConstant left).bind fun _ =>
    .ite ((moves.isConstant right).bind fun _ => .pure rfl) (.pure rfl)

theorem asComparison? (condition : Condition) :
    Moves front (Option.map (RecognizedCondition.behind front))
      (Condition.asComparison? one condition)
      (Condition.asComparison? other (condition.behind front)) := by
  unfold Condition.asComparison?
  rw [Condition.behind_expr, Condition.behind_isNegated]
  cases condition.expr with
  | binary operator left right span =>
    simp only [Expr.behind]
    cases Relation.ofOperator? operator with
    | none => exact .pure rfl
    | some relation =>
      refine (moves.isRefLikePair left right).bind fun _ => .ite (.pure rfl) ?_
      refine (moves.hasConstantLeft left right).bind fun swap => .pure ?_
      cases swap <;> rfl
  | _ => exact .pure rfl

theorem asStringPredicate? (condition : Condition) :
    Moves front (Option.map (RecognizedCondition.behind front))
      (Condition.asStringPredicate? one condition)
      (Condition.asStringPredicate? other (condition.behind front)) := by
  rcases condition with ⟨expr, isNegated⟩
  unfold Condition.asStringPredicate?
  cases expr with
  | invocation target list span =>
    cases target with
    | memberAccess receiver member place =>
      refine (moves.resolveMethod _).bind fun method => ?_
      cases method with
      | none => exact .pure rfl
      | some method =>
        refine .ite (.pure rfl) ?_
        simp only [Condition.behind_isNegated, ArgumentList.arguments_behind]
        cases Condition.stringPredicate? method.name isNegated with
        | none => exact .pure rfl
        | some predicate =>
          rcases list.arguments with _ | ⟨argument, _ | _⟩
          · exact .pure rfl
          · exact .pure (by simp [RecognizedCondition.behind])
          · exact .pure rfl
    | _ => exact .pure rfl
  | _ => exact .pure rfl

theorem isCollectionMember (method : MethodSymbol) :
    Moves front id (Condition.isCollectionMember one method)
      (Condition.isCollectionMember other method) :=
  .ite ((moves.isDerivedFrom _ _).bind fun _ => .ite (.pure rfl) (moves.isDerivedFrom _ _))
    (.pure rfl)

theorem membershipOperands? (method : MethodSymbol) (target : Expr) (arguments : List Argument) :
    Moves front (Option.map (Expr.behindBoth front))
      (Condition.membershipOperands? one method target arguments)
      (Condition.membershipOperands? other method (target.behind front)
        (arguments.map (Argument.behind front))) := by
  unfold Condition.membershipOperands?
  rcases arguments with _ | ⟨first, _ | ⟨second, _ | _⟩⟩
  · exact .pure rfl
  · simp only [List.map_cons, List.map_nil, Condition.receiverAnd_behind]
    refine .ite (.pure rfl) ?_
    exact (moves.isCollectionMember method).bind fun _ => .ite (.pure rfl) (.pure rfl)
  · simp only [List.map_cons, List.map_nil, Argument.expression_behind]
    exact .ite (.pure rfl) (.pure rfl)
  · exact .pure rfl

theorem asMembership? (condition : Condition) :
    Moves front (Option.map (RecognizedCondition.behind front))
      (Condition.asMembership? one condition)
      (Condition.asMembership? other (condition.behind front)) := by
  rcases condition with ⟨expr, isNegated⟩
  unfold Condition.asMembership?
  cases expr with
  | invocation target list span =>
    refine (moves.resolveMethod _).bind fun method => ?_
    cases method with
    | none => exact .pure rfl
    | some method =>
      simp only [id, ArgumentList.arguments_behind, List.any_map, Function.comp_def,
        Argument.name_behind]
      refine .ite (.pure rfl) ?_
      refine (moves.membershipOperands? method target list.arguments).bind fun operands => ?_
      rcases operands with _ | ⟨actual, expected⟩ <;> exact .pure rfl
  | _ => exact .pure rfl

/-- A condition is recognized in the same way wherever it is written. -/
theorem recognize? (condition : Condition) :
    Moves front (Option.map (RecognizedCondition.behind front)) (condition.recognize? one)
      ((condition.behind front).recognize? other) := by
  refine (moves.asEquality? condition).bind fun equality => ?_
  cases equality with
  | some found => exact .pure rfl
  | none =>
    refine (moves.asComparison? condition).bind fun comparison => ?_
    cases comparison with
    | some found => exact .pure rfl
    | none =>
      refine (moves.asStringPredicate? condition).bind fun predicate => ?_
      cases predicate with
      | some found => exact .pure rfl
      | none => exact moves.asMembership? condition

end SemanticModel.MovesTo

end AssertionLint
