import AssertionLint.Assertions.Catalog
import AssertionLint.Assertions.Condition
import AssertionLint.Assertions.ConstraintExpr

/-!
# Findings

What the rules report about a call of an assertion method: classic calls, conditions that have a
constraint, comparisons of a value type with `null` or by reference, and messages with a format.
-/

namespace AssertionLint

def ConditionRule.descriptor : ConditionRule → Descriptor
  | .equalConstraint => .equalConstraintUsage
  | .stringContains => .stringContainsConstraintUsage
  | .stringStartsWith => .stringStartsWithConstraintUsage
  | .stringEndsWith => .stringEndsWithConstraintUsage
  | .collectionContains => .collectionContainsConstraintUsage
  | .comparison => .comparisonConstraintUsage

/-- What a rule found, with what its fixes need to know. -/
inductive Observation
  /-- A classic call, and whether it passes a tolerance. -/
  | classic (rule : ClassicRule) (hasTolerance : Bool)
  /-- A condition that has a constraint. -/
  | condition (rule : ConditionRule) (constraint : ConditionConstraint) (swapOperands : Bool)
  /-- A value type compared with `null`. -/
  | nullConstraint
  /-- A value type compared by reference; the name at `rename` should be `replacement`. -/
  | sameAsOnValueType (rename : Span) (replacement : String)
  /-- A message with a format and its arguments. -/
  | formatString
  deriving DecidableEq, Repr, Inhabited

namespace Observation

def descriptor : Observation → Descriptor
  | classic rule _ => rule.descriptor
  | condition rule _ _ => rule.descriptor
  | nullConstraint => .nullConstraintUsage
  | sameAsOnValueType _ _ => .sameAsOnValueTypes
  | formatString => .formatStringUsage

def message (observation : Observation) : String :=
  observation.descriptor.formatMessage
    (match observation with
      | condition _ constraint _ => [constraint.text]
      | _ => [])

end Observation

/-- What a rule found and where it is reported. -/
structure Finding where
  span : Span
  observation : Observation
  deriving DecidableEq, Repr, Inhabited

namespace Finding

variable {m : Type → Type} [Monad m]

/-- Reports a classic call that passes an actual value. -/
def classic? (shape : CallShape) : Option Finding := do
  let rule ← ClassicRule.ofMethodName? shape.method.name
  let _ ← shape.firstBinding? rule.replacement.actualParameters
  pure ⟨shape.span, .classic rule (rule == .areEqual && (shape.argument? "delta").isSome)⟩

def condition? (shape : CallShape) (model : SemanticModel m) : m (Option Finding) := do
  match ← Condition.ofCall? shape model with
  | none => pure none
  | some condition =>
    match ← condition.recognize? model with
    | none => pure none
    | some found =>
      pure (some ⟨shape.span, .condition found.rule found.constraint found.swapOperands⟩)

/-- The actual value and the constraint of `Assert.That(actual, constraint)`. -/
def constraintCall? (shape : CallShape) : Option (Expr × Expr) := do
  let actual ← shape.argument? "actual"
  let constraint ← shape.argument? "expression"
  pure (actual.expression, constraint.expression)

/-- Reports each `Null` that is applied to an actual value that is never `null`. -/
def nullConstraints (shape : CallShape) (model : SemanticModel m) : m (List Finding) :=
  if shape.method.name == "That" then
    match constraintCall? shape with
    | none => pure []
    | some (actual, expr) => do
      let constraint ← ConstraintExpr.read model expr
      if constraint.isUnknown then
        pure []
      else if (← model.typeOf actual).any (·.isNonNullableValueType) then
        pure (constraint.parts.filterMap fun part =>
          if part.rootName? == some "Null" && part.appliesToActual then
            (part.root.bind (·.span)).map fun span => ⟨span, .nullConstraint⟩
          else
            none)
      else
        pure []
  else
    pure []

def isValueTyped (model : SemanticModel m) (expr : Expr) : m Bool := do
  pure ((← model.typeOf expr).any (·.isValueType))

/-- The part compares references of values: the actual value or the expected one. -/
def comparesValues (model : SemanticModel m) (actualIsValue : Bool) (part : ConstraintPart) :
    m Bool :=
  if actualIsValue && part.appliesToActual then
    pure true
  else
    match part.expectedArgument? with
    | some expected => isValueTyped model expected
    | none => pure false

/-- The finding for a part whose root compares references. -/
def ofSameAsPart? (part : ConstraintPart) : Option Finding := do
  let root ← part.root
  let name ← root.trailingName?
  let rename ← name.span
  let span ← root.span
  pure ⟨span, .sameAsOnValueType rename "EqualTo"⟩

/-- Reports the parts that compare references of values. -/
def sameAsParts (model : SemanticModel m) (actualIsValue : Bool) :
    List ConstraintPart → m (List Finding)
  | [] => pure []
  | part :: rest => do
    let found ←
      if part.rootName? == some "SameAs" then do
        if ← comparesValues model actualIsValue part then
          pure (ofSameAsPart? part).toList
        else
          pure []
      else
        pure []
    let others ← sameAsParts model actualIsValue rest
    pure (found ++ others)

/-- Reports a classic comparison of references with a value among the operands. -/
def sameAsCall? (shape : CallShape) (model : SemanticModel m) (replacement : String) :
    m (Option Finding) :=
  match shape.argument? "expected", shape.argument? "actual" with
  | some expected, some actual => do
    let comparesValue ←
      if ← isValueTyped model expected.expression then
        pure true
      else
        isValueTyped model actual.expression
    if comparesValue then
      pure ((shape.memberName?.bind (·.span)).map fun rename =>
        ⟨shape.span, .sameAsOnValueType rename replacement⟩)
    else
      pure none
  | _, _ => pure none

/-- Reports comparisons of value types by reference, which never succeed. -/
def sameAs (shape : CallShape) (model : SemanticModel m) : m (List Finding) :=
  match shape.method.name with
  | "That" =>
    match constraintCall? shape with
    | none => pure []
    | some (actual, expr) => do
      let actualIsValue ← isValueTyped model actual
      let constraint ← ConstraintExpr.read model expr
      sameAsParts model actualIsValue constraint.parts
  | "AreSame" => do pure (← sameAsCall? shape model "AreEqual").toList
  | "AreNotSame" => do pure (← sameAsCall? shape model "AreNotEqual").toList
  | _ => pure []

/-- Reports a constraint-model call whose message has arguments. -/
def formatString? (shape : CallShape) : Option Finding :=
  if shape.method.containingType.fullName == Names.assertHolder &&
      (ClassicRule.ofMethodName? shape.method.name).isNone &&
      shape.message?.isSome && !shape.overflow.isEmpty then
    some ⟨shape.span, .formatString⟩
  else
    none

/-- Everything that the rules report about a call. -/
def ofCall (shape : CallShape) (model : SemanticModel m) : m (List Finding) := do
  let condition ← condition? shape model
  let nulls ← nullConstraints shape model
  let references ← sameAs shape model
  pure ((classic? shape).toList ++ condition.toList ++ nulls ++ references ++
    (formatString? shape).toList)

end Finding

end AssertionLint
