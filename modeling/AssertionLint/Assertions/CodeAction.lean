import AssertionLint.Assertions.FixedCall
import AssertionLint.Configuration.Basic
import AssertionLint.CSharp.Expr.Render
import AssertionLint.Text.Edit

/-!
# Code actions

The fixes that are offered for an observation, each with the smallest edit that turns the old call
into the new one.
-/

namespace AssertionLint

/-- A fix that a host can offer. -/
structure CodeAction where
  title : String
  /-- Actions with one key can be applied together. -/
  equivalenceKey : String
  edit : TextEdit
  deriving DecidableEq, Repr, Inhabited

def ConditionRule.equivalenceKey : ConditionRule → String
  | .equalConstraint => "UseEqualConstraint"
  | .stringContains => "UseStringContainsConstraint"
  | .stringStartsWith => "UseStringStartsWithConstraint"
  | .stringEndsWith => "UseStringEndsWithConstraint"
  | .collectionContains => "UseCollectionContainsConstraint"
  | .comparison => "UseComparisonConstraint"

namespace CodeAction

variable {m : Type → Type} [Monad m]

/-- The action that puts a new call in the place of a call. -/
def ofFixedCall? (source : String) (span : Span) (title key : String) (fixed : Option Expr) :
    Option CodeAction :=
  fixed.map fun expr => ⟨title, key, TextEdit.minimized source span (expr.render source)⟩

/-- The action that renames a comparison of references to one of values. -/
def useEquality (rename : Span) (replacement : String) : CodeAction where
  title := if replacement == "EqualTo" then "Use Is." ++ replacement else "Use " ++ replacement
  equivalenceKey := "UseIsEqualTo"
  edit := ⟨rename, replacement⟩

/-- The actions for an observation that a new call answers. -/
def ofCall (shape : CallShape) (observation : Observation) (model : SemanticModel m)
    (source : String) (settings : FixSettings) : m (List CodeAction) :=
  let offer := ofFixedCall? source shape.span
  match observation with
  | .classic rule hasTolerance => do
    let full := offer "Transform to constraint model" "TransformToConstraintModel"
      (← FixedCall.classic? shape rule hasTolerance model)
    if rule.isCondensable && settings.offerCondensed then
      let condensed := offer "Transform to constraint model (condensed)"
        "TransformToConstraintModelCondensed" (← FixedCall.condensed? shape model)
      pure (full.toList ++ condensed.toList)
    else
      pure full.toList
  | .condition rule constraint _ => do
    pure (offer ("Use " ++ constraint.text ++ " constraint") rule.equivalenceKey
      (← FixedCall.condition? shape model)).toList
  | .formatString => do
    pure (offer "Convert to interpolatable string" "ConvertToInterpolatableString"
      (← FixedCall.formatString? shape model)).toList
  | .nullConstraint | .sameAsOnValueType _ _ => pure []

end CodeAction

end AssertionLint
