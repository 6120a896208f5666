import AssertionLint.Assertions.FixedCall
import AssertionLint.Proofs.Position.Finding

/-!
# Fixed calls behind a text

A call behind a text is replaced by the same call as without the text, with the expressions that it
keeps moved (`SemanticModel.MovesTo.classic?`, `condensed?`, `fixedCondition?` and
`fixedFormatString?`).
-/

namespace AssertionLint

variable (front : String)

namespace InterpolationPart

@[simp]
theorem holeExpr_behind (value : Expr) :
    holeExpr (value.behind front) = (holeExpr value).behind front := by
  unfold holeExpr
  rw [Expr.unparenthesized_behind]
  cases value.unparenthesized <;> rfl

theorem ofPiece?_behind (values : List Expr) (piece : FormatPiece) :
    ofPiece? (values.map (Expr.behind front)) piece =
      (ofPiece? values piece).map (behind front) := by
  cases piece with
  | text written => rfl
  | item body =>
    simp only [ofPiece?]
    cases FormatItem.ofBody? body with
    | none => rfl
    | some item =>
      simp only [Option.bind_eq_bind, Option.bind_some, List.getElem?_map]
      cases values[item.index]? with
      | none => rfl
      | some value => simp [behind]

theorem mapM_ofPiece?_behind (values : List Expr) (pieces : List FormatPiece) :
    pieces.mapM (ofPiece? (values.map (Expr.behind front))) =
      (pieces.mapM (ofPiece? values)).map (List.map (behind front)) := by
  induction pieces with
  | nil => rfl
  | cons piece rest ih =>
    simp only [List.mapM_cons, ofPiece?_behind, ih]
    cases ofPiece? values piece with
    | none => rfl
    | some part => cases rest.mapM (ofPiece? values) <;> rfl

@[simp]
theorem ofFormat?_behind (values : List Expr) (format : List Char) :
    ofFormat? (values.map (Expr.behind front)) format =
      (ofFormat? values format).map (List.map (behind front)) := by
  simp only [ofFormat?]
  cases FormatPiece.split? format with
  | none => rfl
  | some pieces => exact mapM_ofPiece?_behind front values pieces

end InterpolationPart

@[simp]
theorem Expr.interpolate?_behind (format : Expr) (values : List Expr) :
    (format.behind front).interpolate? (values.map (behind front)) =
      (format.interpolate? values).map (behind front) := by
  unfold interpolate?
  rw [unparenthesized_behind]
  cases format.unparenthesized with
  | literal written span =>
    simp only [behind]
    cases written.stringBody? with
    | none => rfl
    | some body =>
      simp only [Option.bind_eq_bind, Option.bind_some, InterpolationPart.ofFormat?_behind]
      cases InterpolationPart.ofFormat? values body.2 with
      | none => rfl
      | some parts => simp [behind]
  | _ => rfl

theorem Argument.behind_withLeading (argument : Argument) (text : String) :
    ({ argument with leading := text } : Argument).behind front =
      { argument.behind front with leading := text } := by
  cases argument
  rfl

theorem Argument.behind_withTrailing (argument : Argument) (text : String) :
    ({ argument with trailing := text } : Argument).behind front =
      { argument.behind front with trailing := text } := by
  cases argument
  rfl

namespace FixedCall

theorem map_ofExpr_behind (values : List Expr) :
    (values.map (Expr.behind front)).map Argument.ofExpr =
      (values.map Argument.ofExpr).map (Argument.behind front) := by
  simp [Function.comp_def, Argument.behind_ofExpr]

@[simp]
theorem stringFormat_behind (format : Expr) (values : List Expr) :
    stringFormat (format.behind front) (values.map (Expr.behind front)) =
      (stringFormat format values).behind front := by
  simp only [stringFormat, Expr.behind_call, List.map_cons, map_ofExpr_behind]
  rfl

@[simp]
theorem isArrayCreation_behind (expr : Expr) :
    isArrayCreation (expr.behind front) = isArrayCreation expr := by
  cases expr <;> rfl

@[simp]
theorem withValues_behind (message : Argument) (values : List Expr) :
    withValues (message.behind front) (values.map (Expr.behind front)) =
      (withValues message values).behind front := by
  simp only [withValues, Argument.expression_behind, Expr.interpolate?_behind, stringFormat_behind,
    ← Argument.behind_withExpression]
  cases message.expression.interpolate? values <;> rfl

@[simp]
theorem thatTarget_behind (target : Expr) :
    thatTarget (target.behind front) = (thatTarget target).behind front := by
  unfold thatTarget
  rw [Expr.asMemberAccess?_behind]
  cases target.asMemberAccess? with
  | none => simp
  | some access =>
    simp only [Option.map_some, Expr.trailingName?_behind, Option.any_map,
      SimpleName.identifier_behind]
    split <;> simp

@[simp]
theorem constraintCall_behind (chain : List String) (arguments : List Expr) :
    constraintCall chain (arguments.map (Expr.behind front)) =
      (constraintCall chain arguments).behind front := by
  simp only [constraintCall, map_ofExpr_behind, Expr.behind_call, Expr.behind_dotted]

theorem closeWith_behind (closing : String) (arguments : List Argument) :
    closeWith closing (arguments.map (Argument.behind front)) =
      (closeWith closing arguments).map (Argument.behind front) := by
  induction arguments with
  | nil => rfl
  | cons argument rest ih =>
    cases rest with
    | nil => simp [closeWith, Argument.behind_withTrailing]
    | cons next rest =>
      simp only [List.map_cons] at ih ⊢
      simp only [closeWith, ih, List.map_cons, Argument.behind_withTrailing]

theorem setClosing_behind (closing : String) (arguments : List Argument) :
    setClosing closing (arguments.map (Argument.behind front)) =
      (setClosing closing arguments).map (Argument.behind front) := by
  induction arguments with
  | nil => rfl
  | cons argument rest ih =>
    cases rest with
    | nil => simp [setClosing, Argument.behind_withTrailing]
    | cons next rest =>
      simp only [List.map_cons] at ih ⊢
      simp only [setClosing, ih, List.map_cons]

theorem replaceMessage_behind (message : Argument) (isReplaced : Bool)
    (assigned : List BoundArgument) :
    replaceMessage (message.behind front) isReplaced (assigned.map (BoundArgument.behind front)) =
      (replaceMessage message isReplaced assigned).map (Argument.behind front) := by
  induction assigned generalizing isReplaced with
  | nil => rfl
  | cons entry rest ih =>
    simp only [List.map_cons, replaceMessage, BoundArgument.behind_parameter,
      BoundArgument.behind_argument, ih]
    split
    · rfl
    · split <;> rfl

end FixedCall

namespace SemanticModel.MovesTo

variable {front} {one other : SemanticModel (StateM Bindings)} (moves : MovesTo front one other)

include moves

theorem passesArray (shape : CallShape) (expr : Expr) :
    Moves front id (FixedCall.passesArray shape expr one)
      (FixedCall.passesArray (shape.behind front) (expr.behind front) other) := by
  unfold FixedCall.passesArray
  rw [CallShape.catchAll?_behind]
  cases shape.catchAll? with
  | none => exact .pure rfl
  | some parameter =>
    refine (moves.typeOf expr).bind fun type => ?_
    cases type with
    | none => exact .pure (by simp)
    | some type =>
      exact .ite ((moves.classifyConversion expr parameter.type).bind fun _ => .pure rfl)
        (.pure rfl)

theorem messageArgument? (shape : CallShape) :
    Moves front (Option.map (Argument.behind front)) (FixedCall.messageArgument? shape one)
      (FixedCall.messageArgument? (shape.behind front) other) := by
  unfold FixedCall.messageArgument?
  rw [CallShape.message?_behind, CallShape.overflow_behind]
  cases shape.message? with
  | none => exact .pure rfl
  | some message =>
    simp only [Option.map_some, Argument.expression_behind, Expr.unparenthesized_behind,
      Expr.isLiteral_behind]
    refine .ite (.pure rfl) ?_
    rcases shape.overflow with _ | ⟨single, _ | ⟨second, rest⟩⟩
    · exact .pure rfl
    · simp only [List.map_cons, List.map_nil, Argument.expression_behind]
      have alone := FixedCall.withValues_behind front message [single.expression]
      refine (moves.passesArray shape single.expression).bind fun passes =>
        .ite ?_ (.pure (congrArg some alone))
      have formatted (value : Expr) :
          (message.behind front).withExpression
              (FixedCall.stringFormat (message.expression.behind front) [value.behind front]) =
            (message.withExpression (FixedCall.stringFormat message.expression [value])).behind
              front := by
        rw [← Argument.behind_withExpression, ← FixedCall.stringFormat_behind]
        rfl
      cases single.expression with
      | arrayCreation type elements span =>
        refine .pure ?_
        rw [Expr.behindAll_eq_map, FixedCall.withValues_behind]
        rfl
      | _ => exact .pure (congrArg some (formatted _))
    · refine .pure ?_
      have several := FixedCall.withValues_behind front message
        ((single :: second :: rest).map (·.expression))
      simpa [Function.comp_def] using several

theorem converted? (shape : CallShape) (parameter : String) :
    Moves front (Option.map (Expr.behind front)) (FixedCall.converted? shape parameter one)
      (FixedCall.converted? (shape.behind front) parameter other) := by
  unfold FixedCall.converted?
  rw [CallShape.binding?_behind]
  cases shape.binding? parameter with
  | none => exact .pure rfl
  | some entry =>
    simp only [Option.map_some, BoundArgument.behind_argument, BoundArgument.behind_parameter,
      Argument.expression_behind]
    refine (moves.classifyConversion entry.argument.expression _).bind fun conversion => .pure ?_
    simp only [id, Option.map_some]
    split
    · rw [Expr.behind_castTo]
      rfl
    · rfl

theorem assemble (shape : CallShape) (actual : Expr) (constraint : Option Expr) :
    Moves front (Expr.behind front) (FixedCall.assemble shape actual constraint one)
      (FixedCall.assemble (shape.behind front) (actual.behind front)
        (constraint.map (Expr.behind front)) other) := by
  have first : ({ Argument.ofExpr (actual.behind front) with
        leading := (shape.behind front).openingTrivia } : Argument) =
      ({ Argument.ofExpr actual with leading := shape.openingTrivia } : Argument).behind front := by
    rw [CallShape.openingTrivia_behind]
    rfl
  have second : (constraint.map (Expr.behind front)).toList.map (fun expr =>
        ({ Argument.ofExpr expr with leading := " " } : Argument)) =
      (constraint.toList.map fun expr =>
        ({ Argument.ofExpr expr with leading := " " } : Argument)).map (Argument.behind front) := by
    cases constraint <;> rfl
  have third (message : Option Argument) :
      (message.map (Argument.behind front)).toList.map (fun argument =>
          if argument.withoutName.leading.isEmpty then
            ({ argument.withoutName with leading := " " } : Argument)
          else argument.withoutName) =
        (message.toList.map fun argument =>
          if argument.withoutName.leading.isEmpty then
            ({ argument.withoutName with leading := " " } : Argument)
          else argument.withoutName).map (Argument.behind front) := by
    cases message with
    | none => rfl
    | some argument =>
      simp only [Option.map_some, Option.toList_some, List.map_cons, List.map_nil,
        Argument.behind_withoutName, Argument.leading_behind, apply_ite (Argument.behind front),
        Argument.behind_withLeading]
  refine (moves.messageArgument? shape).bind fun message => .pure ?_
  simp only [first, second, third, CallShape.behind_target, FixedCall.thatTarget_behind,
    CallShape.closingTrivia_behind, ← List.map_append, ← List.map_cons,
    FixedCall.closeWith_behind]
  simp [Expr.behind, ArgumentList.behind]

theorem typeCheck? (shape : CallShape) (chain : List String) :
    Moves front (Option.map (Expr.behind front)) (FixedCall.typeCheck? shape chain one)
      (FixedCall.typeCheck? (shape.behind front) chain other) := by
  unfold FixedCall.typeCheck?
  have written : (shape.behind front).memberName?.bind (·.typeArguments) =
      (shape.memberName?.bind (·.typeArguments)).map (List.map (TypeExpr.behind front)) := by
    rw [CallShape.memberName?_behind]
    cases shape.memberName? <;> simp
  rw [written]
  cases shape.memberName?.bind (·.typeArguments) with
  | none =>
    refine (moves.converted? shape "expected").bind fun expected => .pure ?_
    cases expected with
    | none => rfl
    | some expected => exact congrArg some (FixedCall.constraintCall_behind front chain [expected])
  | some typeArguments =>
    refine .pure ?_
    cases chain.getLast? <;> simp

theorem classicConstraint? (shape : CallShape) (replacement : Replacement) (hasTolerance : Bool) :
    Moves front (Option.map (Expr.behind front))
      (FixedCall.classicConstraint? shape replacement hasTolerance one)
      (FixedCall.classicConstraint? (shape.behind front) replacement hasTolerance other) := by
  cases replacement with
  | property actual chain => exact .pure (by simp)
  | call actual expected chain =>
    refine (moves.converted? shape expected).bind fun expected => ?_
    cases expected with
    | none => exact .pure rfl
    | some expected =>
      have constraint := FixedCall.constraintCall_behind front chain [expected]
      refine .ite ?_ (.pure (congrArg some constraint))
      refine (moves.converted? shape "delta").bind fun delta => .pure ?_
      cases delta with
      | none => rfl
      | some delta =>
        simp only [Option.map_some, Expr.behind_call, Expr.behind_member, ← constraint,
          List.map_cons, List.map_nil, Argument.behind_ofExpr]
  | typeCheck chain => exact moves.typeCheck? shape chain

theorem classic? (shape : CallShape) (rule : ClassicRule) (hasTolerance : Bool) :
    Moves front (Option.map (Expr.behind front)) (FixedCall.classic? shape rule hasTolerance one)
      (FixedCall.classic? (shape.behind front) rule hasTolerance other) := by
  unfold FixedCall.classic?
  simp only [CallShape.binding?_behind, Option.isSome_map]
  cases rule.replacement.actualParameters.find? fun name => (shape.binding? name).isSome with
  | none => exact .pure rfl
  | some parameter =>
    refine (moves.converted? shape parameter).bind fun actual => ?_
    cases actual with
    | none => exact .pure rfl
    | some actual =>
      apply (moves.classicConstraint? shape rule.replacement hasTolerance).bind
      intro constraint
      cases constraint with
      | none => exact .pure rfl
      | some constraint =>
        exact (moves.assemble shape actual (some constraint)).bind fun _ => .pure rfl

theorem condensed? (shape : CallShape) :
    Moves front (Option.map (Expr.behind front)) (FixedCall.condensed? shape one)
      (FixedCall.condensed? (shape.behind front) other) := by
  refine (moves.converted? shape "condition").bind fun actual => ?_
  cases actual with
  | none => exact .pure rfl
  | some actual => exact (moves.assemble shape actual none).bind fun _ => .pure rfl

theorem fixedCondition? (shape : CallShape) :
    Moves front (Option.map (Expr.behind front)) (FixedCall.condition? shape one)
      (FixedCall.condition? (shape.behind front) other) := by
  refine (moves.conditionOfCall? shape).bind fun condition => ?_
  cases condition with
  | none => exact .pure rfl
  | some condition =>
    refine (moves.recognize? condition).bind fun found => ?_
    cases found with
    | none => exact .pure rfl
    | some found =>
      have constraint := FixedCall.constraintCall_behind front found.constraint.chain
        [found.expected]
      have assembled := moves.assemble shape found.actual
        (some (FixedCall.constraintCall found.constraint.chain [found.expected]))
      rw [Option.map_some, ← constraint] at assembled
      exact assembled.bind fun _ => .pure rfl

theorem fixedFormatString? (shape : CallShape) :
    Moves front (Option.map (Expr.behind front)) (FixedCall.formatString? shape one)
      (FixedCall.formatString? (shape.behind front) other) := by
  unfold FixedCall.formatString?
  rw [CallShape.message?_behind, CallShape.overflow_behind]
  cases shape.message? with
  | none => exact .pure rfl
  | some written =>
    cases shape.overflow with
    | nil => exact .pure rfl
    | cons first rest =>
      refine (moves.messageArgument? shape).bind fun message => ?_
      cases message with
      | none => exact .pure rfl
      | some message =>
        refine .pure ?_
        simp only [CallShape.behind_assigned, FixedCall.replaceMessage_behind,
          CallShape.closingTrivia_behind, FixedCall.setClosing_behind, Option.map_some]
        simp [Expr.behind, ArgumentList.behind]

end SemanticModel.MovesTo

end AssertionLint
