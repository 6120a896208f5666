import AssertionLint.Assertions.ConstraintExpr
import AssertionLint.Proofs.Position.Binding

/-!
# Constraints behind a text

A constraint falls into the same parts behind a text as without it
(`SemanticModel.MovesTo.readConstraint`).
-/

namespace AssertionLint

variable (front : String)

/-- The same part of a constraint once a text stands in front of the source. -/
@[simps]
def ConstraintPart.behind (part : ConstraintPart) : ConstraintPart where
  helper := part.helper.map (Expr.behind front)
  prefixes := part.prefixes.map (Expr.behind front)
  root := part.root.map (Expr.behind front)
  suffixes := part.suffixes.map (Expr.behind front)
  isUnknown := part.isUnknown

/-- The same constraint once a text stands in front of the source. -/
@[simps]
def ConstraintExpr.behind (constraint : ConstraintExpr) : ConstraintExpr where
  parts := constraint.parts.map (ConstraintPart.behind front)

namespace ConstraintPart

@[simp]
theorem segmentName?_behind (segment : Expr) :
    segmentName? (segment.behind front) = segmentName? segment := by
  have trailing (expr : Expr) : (expr.behind front).trailingName?.map (·.identifier) =
      expr.trailingName?.map (·.identifier) := by
    simp [Function.comp_def]
  cases segment with
  | objectCreation type arguments span => cases type <;> rfl
  | invocation => exact trailing _
  | _ => rfl

variable (part : ConstraintPart)

@[simp]
theorem rootName?_behind : (part.behind front).rootName? = part.rootName? := by
  simp only [rootName?, behind_root, Option.bind_map, Function.comp_def, segmentName?_behind]

@[simp]
theorem appliesToActual_behind : (part.behind front).appliesToActual = part.appliesToActual := by
  simp [appliesToActual, Function.comp_def]

@[simp]
theorem expectedArgument?_behind :
    (part.behind front).expectedArgument? = part.expectedArgument?.map (Expr.behind front) := by
  have first (list : ArgumentList) :
      (list.behind front).arguments.head?.map (·.expression) =
        (list.arguments.head?.map (·.expression)).map (Expr.behind front) := by
    simp [Function.comp_def]
  unfold expectedArgument?
  rw [behind_root]
  cases part.root with
  | none => rfl
  | some root =>
    cases root with
    | invocation target list span => exact first list
    | objectCreation type arguments span =>
      cases arguments with
      | none => rfl
      | some list => exact first list
    | _ => rfl

end ConstraintPart

namespace ConstraintExpr

theorem operands_behind (expr : Expr) :
    operands (expr.behind front) = (operands expr).map (Expr.behind front) := by
  induction expr using Expr.inductionOnChildren with
  | step expr ih =>
    cases expr with
    | parenthesized inner span => exact ih inner (by simp [Expr.children])
    | binary operator left right span =>
      have onLeft := ih left (by simp [Expr.children])
      have onRight := ih right (by simp [Expr.children])
      cases operator <;> simp [Expr.behind, operands, onLeft, onRight]
    | _ => rfl

theorem qualifier?_behind (expr : Expr) :
    qualifier? (expr.behind front) = (qualifier? expr).map (Expr.behind front) := by
  cases expr with
  | invocation target list span => cases target <;> rfl
  | _ => rfl

theorem segments_behind (expr : Expr) :
    segments (expr.behind front) = (segments expr).map (Expr.behind front) := by
  fun_induction segments expr with
  | case1 expr inner found ih =>
    have moved : qualifier? (expr.behind front) = some (inner.behind front) := by
      rw [qualifier?_behind, found, Option.map_some]
    rw [segments.eq_def]
    split
    · rename_i other isOther
      cases moved.symm.trans isOther
      simp [ih]
    · rename_i isNone
      cases moved.symm.trans isNone
  | case2 expr found =>
    have moved : qualifier? (expr.behind front) = none := by
      rw [qualifier?_behind, found, Option.map_none]
    rw [segments.eq_def]
    split
    · rename_i isOther
      cases moved.symm.trans isOther
    · rfl

@[simp]
theorem isCombinator_behind (segment : Expr) :
    isCombinator (segment.behind front) = isCombinator segment := by
  cases segment <;> rfl

theorem splitCombinators_behind (segments : List Expr) :
    splitCombinators (segments.map (Expr.behind front)) =
      (splitCombinators segments).map (List.map (Expr.behind front)) := by
  induction segments with
  | nil => rfl
  | cons segment rest ih =>
    cases rest with
    | nil => rfl
    | cons next rest =>
      simp only [List.map_cons] at ih ⊢
      simp only [splitCombinators, isCombinator_behind, ih]
      split
      · simp only [List.map_cons, List.map_nil]
      · cases splitCombinators (next :: rest) <;> rfl

@[simp]
theorem chains_behind (expr : Expr) :
    chains (expr.behind front) = (chains expr).map (List.map (Expr.behind front)) := by
  simp [chains, operands_behind, segments_behind, splitCombinators_behind, List.flatMap_map,
    List.map_flatMap]

@[simp]
theorem isKnownStart_behind (segment : Expr) :
    isKnownStart (segment.behind front) = isKnownStart segment := by
  cases segment <;> rfl

@[simp]
theorem isUnknown_behind (constraint : ConstraintExpr) :
    (constraint.behind front).isUnknown = constraint.isUnknown := by
  simp [isUnknown, Function.comp_def]

end ConstraintExpr

namespace SemanticModel.MovesTo

variable {front} {one other : SemanticModel (StateM Bindings)} (moves : MovesTo front one other)

include moves

theorem isHelper (segment : Expr) :
    Moves front id (ConstraintExpr.isHelper one segment)
      (ConstraintExpr.isHelper other (segment.behind front)) := by
  unfold ConstraintExpr.isHelper
  rw [Expr.asName?_behind]
  cases segment.asName? with
  | none => exact .pure rfl
  | some name =>
    refine .ite ((moves.symbolInfo segment).bind fun symbol => ?_) (.pure rfl)
    dsimp only [id]
    split <;> exact .pure rfl

theorem isConstraint (segment : Expr) :
    Moves front id (ConstraintExpr.isConstraint one segment)
      (ConstraintExpr.isConstraint other (segment.behind front)) := by
  refine (moves.typeOf segment).bind fun type => ?_
  cases type with
  | none => exact .pure rfl
  | some type => exact moves.isDerivedFrom type Names.constraintBase

theorem spanConstraint (segments : List Expr) :
    Moves front (Prod.map (List.map (Expr.behind front)) (List.map (Expr.behind front)))
      (ConstraintExpr.spanConstraint one segments)
      (ConstraintExpr.spanConstraint other (segments.map (Expr.behind front))) := by
  induction segments with
  | nil => exact .pure rfl
  | cons segment rest ih =>
    exact (moves.isConstraint segment).bind fun _ => .ite (.pure rfl) (ih.bind fun _ => .pure rfl)

theorem readPart (segments : List Expr) :
    Moves front (ConstraintPart.behind front) (ConstraintExpr.readPart one segments)
      (ConstraintExpr.readPart other (segments.map (Expr.behind front))) := by
  have known : (segments.map (Expr.behind front)).head?.any ConstraintExpr.isKnownStart =
      segments.head?.any ConstraintExpr.isKnownStart := by
    cases segments <;> simp
  unfold ConstraintExpr.readPart
  rw [known]
  rcases segments with _ | ⟨first, others⟩
  all_goals simp only [List.map_nil, List.map_cons, pure_bind]
  on_goal 1 => refine (moves.spanConstraint []).bind ?_
  on_goal 2 =>
    refine (moves.isHelper first).bind fun _ => .ite ((moves.spanConstraint others).bind ?_)
      ((moves.spanConstraint (first :: others)).bind ?_)
  -- whatever the part starts with, the rest is read in the same way
  all_goals
    rintro ⟨prefixes, _ | ⟨root, suffixes⟩⟩
    · exact .pure rfl
    · exact .pure (by simp [ConstraintPart.behind])

theorem readParts (chains : List (List Expr)) :
    Moves front (List.map (ConstraintPart.behind front)) (ConstraintExpr.readParts one chains)
      (ConstraintExpr.readParts other (chains.map (List.map (Expr.behind front)))) := by
  induction chains with
  | nil => exact .pure rfl
  | cons chain rest ih =>
    exact (moves.readPart chain).bind fun _ => ih.bind fun _ => .pure rfl

/-- A constraint is read in the same way wherever it is written. -/
theorem readConstraint (expr : Expr) :
    Moves front (ConstraintExpr.behind front) (ConstraintExpr.read one expr)
      (ConstraintExpr.read other (expr.behind front)) := by
  unfold ConstraintExpr.read
  rw [ConstraintExpr.chains_behind]
  exact (moves.readParts (ConstraintExpr.chains expr)).bind fun _ => .pure rfl

end SemanticModel.MovesTo

end AssertionLint
