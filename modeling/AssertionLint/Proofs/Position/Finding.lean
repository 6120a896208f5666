import AssertionLint.Assertions.Finding
import AssertionLint.Proofs.Position.Condition
import AssertionLint.Proofs.Position.Constraint

/-!
# Findings behind a text

The rules report the same about a call behind a text; what they report moves with the call
(`SemanticModel.MovesTo.findingsOfCall`).
-/

namespace AssertionLint

variable (front : String)

/-- The same observation once a text stands in front of the source. -/
def Observation.behind : Observation → Observation
  | .sameAsOnValueType rename replacement => .sameAsOnValueType (rename.behind front) replacement
  | observation => observation

@[simp]
theorem Observation.descriptor_behind (observation : Observation) :
    (observation.behind front).descriptor = observation.descriptor := by
  cases observation <;> rfl

@[simp]
theorem Observation.message_behind (observation : Observation) :
    (observation.behind front).message = observation.message := by
  cases observation <;> rfl

/-- The same finding once a text stands in front of the source. -/
@[simps]
def Finding.behind (finding : Finding) : Finding where
  span := finding.span.behind front
  observation := finding.observation.behind front

namespace Finding

variable (shape : CallShape)

@[simp]
theorem classic?_behind : classic? (shape.behind front) = (classic? shape).map (behind front) := by
  simp only [classic?, CallShape.behind_method, CallShape.firstBinding?_behind]
  cases ClassicRule.ofMethodName? shape.method.name with
  | none => rfl
  | some rule =>
    simp only [Option.bind_eq_bind, Option.bind_some, CallShape.argument?_behind, Option.isSome_map]
    cases shape.firstBinding? rule.replacement.actualParameters <;> rfl

@[simp]
theorem constraintCall?_behind :
    constraintCall? (shape.behind front) = (constraintCall? shape).map (Expr.behindBoth front) := by
  simp only [constraintCall?, CallShape.argument?_behind]
  cases shape.argument? "actual" with
  | none => rfl
  | some actual =>
    cases shape.argument? "expression" with
    | none => rfl
    | some constraint => simp [Expr.behindBoth]

@[simp]
theorem ofSameAsPart?_behind (part : ConstraintPart) :
    ofSameAsPart? (part.behind front) = (ofSameAsPart? part).map (behind front) := by
  simp only [ofSameAsPart?, ConstraintPart.behind_root]
  cases part.root with
  | none => rfl
  | some root =>
    simp only [Option.map_some, Option.bind_eq_bind, Option.bind_some, Expr.trailingName?_behind,
      Expr.span_behind]
    cases root.trailingName? with
    | none => rfl
    | some name =>
      simp only [Option.map_some, Option.bind_some, SimpleName.span_behind]
      cases name.span <;> cases root.span <;> rfl

@[simp]
theorem formatString?_behind :
    formatString? (shape.behind front) = (formatString? shape).map (behind front) := by
  simp only [formatString?, CallShape.behind_method, CallShape.message?_behind, Option.isSome_map,
    CallShape.overflow_behind, List.isEmpty_map]
  split <;> rfl

end Finding

namespace SemanticModel.MovesTo

variable {front} {one other : SemanticModel (StateM Bindings)} (moves : MovesTo front one other)

include moves

theorem findingOfCondition? (shape : CallShape) :
    Moves front (Option.map (Finding.behind front)) (Finding.condition? shape one)
      (Finding.condition? (shape.behind front) other) := by
  refine (moves.conditionOfCall? shape).bind fun condition => ?_
  cases condition with
  | none => exact .pure rfl
  | some condition =>
    refine (moves.recognize? condition).bind fun found => ?_
    cases found <;> exact .pure rfl

theorem nullConstraints (shape : CallShape) :
    Moves front (List.map (Finding.behind front)) (Finding.nullConstraints shape one)
      (Finding.nullConstraints (shape.behind front) other) := by
  unfold Finding.nullConstraints
  simp only [CallShape.behind_method, Finding.constraintCall?_behind]
  refine .ite ?_ (.pure rfl)
  cases Finding.constraintCall? shape with
  | none => exact .pure rfl
  | some call =>
    refine (moves.readConstraint call.2).bind fun constraint => ?_
    rw [ConstraintExpr.isUnknown_behind]
    refine .ite (.pure rfl) ?_
    refine (moves.typeOf call.1).bind fun type => .ite (.pure ?_) (.pure rfl)
    simp only [ConstraintExpr.behind_parts, List.filterMap_map, List.map_filterMap,
      Function.comp_def, ConstraintPart.rootName?_behind, ConstraintPart.appliesToActual_behind]
    apply List.filterMap_congr
    intro part _
    have rootSpan : (part.behind front).root.bind (·.span) =
        (part.root.bind (·.span)).map (Span.behind front) := by
      rw [ConstraintPart.behind_root]
      cases part.root <;> simp
    rw [rootSpan]
    split
    · cases part.root.bind (·.span) <;> rfl
    · rfl

theorem isValueTyped (expr : Expr) :
    Moves front id (Finding.isValueTyped one expr)
      (Finding.isValueTyped other (expr.behind front)) :=
  (moves.typeOf expr).bind fun _ => .pure rfl

theorem comparesValues (actualIsValue : Bool) (part : ConstraintPart) :
    Moves front id (Finding.comparesValues one actualIsValue part)
      (Finding.comparesValues other actualIsValue (part.behind front)) := by
  unfold Finding.comparesValues
  rw [ConstraintPart.appliesToActual_behind, ConstraintPart.expectedArgument?_behind]
  refine .ite (.pure rfl) ?_
  cases part.expectedArgument? with
  | none => exact .pure rfl
  | some expected => exact moves.isValueTyped expected

theorem sameAsParts (actualIsValue : Bool) (parts : List ConstraintPart) :
    Moves front (List.map (Finding.behind front)) (Finding.sameAsParts one actualIsValue parts)
      (Finding.sameAsParts other actualIsValue (parts.map (ConstraintPart.behind front))) := by
  induction parts with
  | nil => exact .pure rfl
  | cons part rest ih =>
    rw [List.map_cons]
    unfold Finding.sameAsParts
    dsimp only
    rw [ConstraintPart.rootName?_behind]
    split
    · refine (moves.comparesValues actualIsValue part).bind fun compares => ?_
      have found : (Finding.ofSameAsPart? (part.behind front)).toList =
          (Finding.ofSameAsPart? part).toList.map (Finding.behind front) := by
        rw [Finding.ofSameAsPart?_behind]
        cases Finding.ofSameAsPart? part <;> rfl
      exact .ite ((Moves.pure found).bind fun _ => ih.bind fun _ => .pure (by simp))
        (ih.bind fun _ => .pure rfl)
    · exact ih.bind fun _ => .pure rfl

theorem sameAsCall? (shape : CallShape) (replacement : String) :
    Moves front (Option.map (Finding.behind front)) (Finding.sameAsCall? shape one replacement)
      (Finding.sameAsCall? (shape.behind front) other replacement) := by
  unfold Finding.sameAsCall?
  simp only [CallShape.argument?_behind]
  cases shape.argument? "expected" with
  | none => exact .pure rfl
  | some expected =>
    cases shape.argument? "actual" with
    | none => exact .pure rfl
    | some actual =>
      have reported : Moves front (Option.map (Finding.behind front))
          (pure ((shape.memberName?.bind (·.span)).map fun rename =>
            ⟨shape.span, .sameAsOnValueType rename replacement⟩))
          (pure (((shape.behind front).memberName?.bind (·.span)).map fun rename =>
            ⟨(shape.behind front).span, .sameAsOnValueType rename replacement⟩)) := by
        refine .pure ?_
        rw [CallShape.memberName?_behind]
        cases shape.memberName? with
        | none => rfl
        | some name =>
          simp only [Option.map_some, Option.bind_some, SimpleName.span_behind]
          cases name.span <;> rfl
      simp only [Option.map_some, Argument.expression_behind]
      refine (moves.isValueTyped expected.expression).bind fun isValue => ?_
      refine .ite reported ?_
      exact (moves.isValueTyped actual.expression).bind fun _ => .ite reported (.pure rfl)

theorem sameAs (shape : CallShape) :
    Moves front (List.map (Finding.behind front)) (Finding.sameAs shape one)
      (Finding.sameAs (shape.behind front) other) := by
  have ofCall (replacement : String) :
      Moves front (List.map (Finding.behind front))
        (do pure (← Finding.sameAsCall? shape one replacement).toList)
        (do pure (← Finding.sameAsCall? (shape.behind front) other replacement).toList) :=
    (moves.sameAsCall? shape replacement).bind fun found => .pure (by cases found <;> rfl)
  unfold Finding.sameAs
  rw [CallShape.behind_method, Finding.constraintCall?_behind]
  split
  · cases Finding.constraintCall? shape with
    | none => exact .pure rfl
    | some call =>
      refine (moves.isValueTyped call.1).bind fun actualIsValue => ?_
      exact (moves.readConstraint call.2).bind fun constraint => moves.sameAsParts _ _
  · exact ofCall "AreEqual"
  · exact ofCall "AreNotEqual"
  · exact .pure rfl

/-- The rules report the same about a call wherever it is written. -/
theorem findingsOfCall (shape : CallShape) :
    Moves front (List.map (Finding.behind front)) (Finding.ofCall shape one)
      (Finding.ofCall (shape.behind front) other) := by
  have listed (found : Option Finding) :
      (found.map (Finding.behind front)).toList = found.toList.map (Finding.behind front) := by
    cases found <;> rfl
  refine (moves.findingOfCondition? shape).bind fun condition => ?_
  refine (moves.nullConstraints shape).bind fun nulls => ?_
  refine (moves.sameAs shape).bind fun references => .pure ?_
  simp only [Finding.classic?_behind, Finding.formatString?_behind, listed, List.map_append]

end SemanticModel.MovesTo

end AssertionLint
