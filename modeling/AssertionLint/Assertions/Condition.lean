import AssertionLint.Assertions.CallShape
import AssertionLint.Assertions.Relation

/-!
# Conditions under test

An assertion of a single truth value, such as `Assert.That(condition)` or `IsFalse(condition)`, is
read as a condition that should or should not hold: negations in front of it are counted, and a
comparison, an equality, a string predicate or a membership test below them is matched with the
constraint that asserts the same.
-/

namespace AssertionLint

/-- A condition below its parentheses and negations. -/
structure Condition where
  expr : Expr
  /-- The assertion passes when the expression does not hold. -/
  isNegated : Bool
  deriving Inhabited

/-- The constraints that can stand for a condition. -/
inductive ConditionConstraint
  | equalTo (isNegated : Bool)
  | ordered (relation : Relation)
  | contain (isNegated : Bool)
  | startWith (isNegated : Bool)
  | endWith (isNegated : Bool)
  deriving DecidableEq, Repr, Inhabited

namespace ConditionConstraint

/-- A dotted name with an optional `Not` in front of its last part. -/
def chainOf (helper member : String) (isNegated : Bool) : List String :=
  if isNegated then [helper, "Not", member] else [helper, member]

def chain : ConditionConstraint → List String
  | equalTo isNegated => chainOf "Is" "EqualTo" isNegated
  | ordered relation => chainOf "Is" relation.name false
  | contain isNegated => chainOf "Does" "Contain" isNegated
  | startWith isNegated => chainOf "Does" "StartWith" isNegated
  | endWith isNegated => chainOf "Does" "EndWith" isNegated

/-- The constraint as it is shown in messages. -/
def text (constraint : ConditionConstraint) : String := ".".intercalate constraint.chain

end ConditionConstraint

/-- The kinds of conditions that have a constraint. -/
inductive ConditionRule
  | equalConstraint
  | stringContains
  | stringStartsWith
  | stringEndsWith
  | collectionContains
  | comparison
  deriving DecidableEq, Repr, Inhabited

def ConditionRule.name : ConditionRule → String
  | .equalConstraint => "EqualConstraint"
  | .stringContains => "StringContains"
  | .stringStartsWith => "StringStartsWith"
  | .stringEndsWith => "StringEndsWith"
  | .collectionContains => "CollectionContains"
  | .comparison => "Comparison"

/-- A condition that has a constraint. -/
structure RecognizedCondition where
  rule : ConditionRule
  actual : Expr
  expected : Expr
  constraint : ConditionConstraint
  /-- The actual value stands on the right of the condition. -/
  swapOperands : Bool
  deriving Inhabited

namespace Condition

variable {m : Type → Type} [Monad m]

/-- Strips parentheses and negations from an expression and counts the negations. -/
def peel (isNegated : Bool) : Expr → Condition
  | .parenthesized inner _ => peel isNegated inner
  | .unary .logicalNot operand _ => peel (!isNegated) operand
  | expr => ⟨expr, isNegated⟩

/-- The truth value that `Is.True` or `Is.False` stands for. -/
def booleanConstraint? (model : SemanticModel m) (expr : Expr) : m (Option Bool) :=
  let inner := expr.unparenthesized
  match inner.asMemberAccess? with
  | none => pure none
  | some (_, member) => do
    match ← model.symbolInfo inner with
    | some (.property property) =>
      if property.containingType.fullName == Names.frameworkNamespace ++ ".Is" then
        pure (match member.identifier with
          | "True" => some true
          | "False" => some false
          | _ => none)
      else
        pure none
    | _ => pure none

/-- The condition that a call asserts, if the call asserts a single truth value. -/
def ofCall? (shape : CallShape) (model : SemanticModel m) : m (Option Condition) :=
  if Names.conditionMethods.contains shape.method.name then
    let isNegated := Names.negativeConditionMethods.contains shape.method.name
    match shape.firstBinding? ["condition", "actual"] with
    | none => pure none
    | some subject =>
      match shape.argument? "expression" with
      | none => pure (some (peel isNegated subject.argument.expression))
      | some constraint => do
        match ← booleanConstraint? model constraint.expression with
        | none => pure none
        | some holds =>
          -- `Is.False` behind a condition is one more negation
          pure (some (peel (isNegated != !holds) subject.argument.expression))
  else
    pure none

/-- Values of the expression never leave the stack, so no constraint can take them. -/
def isRefLike (model : SemanticModel m) (expr : Expr) : m Bool := do
  pure ((← model.typeOf expr).any (·.isRefLike))

/-- One of the operands is never to leave the stack. -/
def isRefLikePair (model : SemanticModel m) (left right : Expr) : m Bool := do
  if ← isRefLike model left then pure true else isRefLike model right

/-- The operands of a call of an `Equals` method: of an instance with one argument, or of the static
method of `object` or `string` with two. -/
def equalsCall? (method : MethodSymbol) (target : Expr) (list : ArgumentList) :
    Option (Expr × Expr) :=
  if method.name == "Equals" then
    match method.isStatic, list.arguments with
    | false, [argument] =>
      if method.parameters.length == 1 then
        target.asMemberAccess?.map fun access => (access.1, argument.expression)
      else
        none
    | true, [first, second] =>
      let holder := method.containingType.fullName
      if method.parameters.length == 2 && (holder == "System.Object" || holder == "System.String")
      then
        some (first.expression, second.expression)
      else
        none
    | _, _ => none
  else
    none

/-- The operands of an equality and whether it is an inequality. -/
def equalityOperands? (model : SemanticModel m) (expr : Expr) :
    m (Option (Expr × Expr × Bool)) :=
  match expr with
  | .binary .equals left right _ => pure (some (left, right, false))
  | .binary .notEquals left right _ => pure (some (left, right, true))
  | .invocation target list _ => do
    match ← model.resolveMethod expr with
    | none => pure none
    | some method =>
      pure ((equalsCall? method target list).map fun (actual, expected) =>
        (actual, expected, false))
  | _ => pure none

/-- Matches `==`, `!=` and calls of `Equals`. -/
def asEquality? (model : SemanticModel m) (condition : Condition) :
    m (Option RecognizedCondition) := do
  match ← equalityOperands? model condition.expr with
  | none => pure none
  | some (actual, expected, isInverted) =>
    if ← isRefLikePair model actual expected then
      pure none
    else
      pure (some
        { rule := .equalConstraint
          actual := actual
          expected := expected
          -- an inequality under a negation is an equality again
          constraint := .equalTo (condition.isNegated != isInverted)
          swapOperands := false })

/-- The left operand is a constant and the right one is not. -/
def hasConstantLeft (model : SemanticModel m) (left right : Expr) : m Bool := do
  if ← model.isConstant left then pure !(← model.isConstant right) else pure false

/-- Matches `<`, `<=`, `>` and `>=`; a constant on the left changes sides with the other operand. -/
def asComparison? (model : SemanticModel m) (condition : Condition) :
    m (Option RecognizedCondition) :=
  match condition.expr with
  | .binary operator left right _ =>
    match Relation.ofOperator? operator with
    | none => pure none
    | some relation => do
      if ← isRefLikePair model left right then
        pure none
      else
        let swap ← hasConstantLeft model left right
        -- the operands change sides first; the relation is negated as it then reads
        let oriented := if swap then relation.swapped else relation
        let asserted := if condition.isNegated then oriented.negated else oriented
        pure (some
          { rule := .comparison
            actual := if swap then right else left
            expected := if swap then left else right
            constraint := .ordered asserted
            swapOperands := swap })
  | _ => pure none

/-- The rule and the constraint for a string predicate. -/
def stringPredicate? (method : String) (isNegated : Bool) :
    Option (ConditionRule × ConditionConstraint) :=
  match method with
  | "Contains" => some (.stringContains, .contain isNegated)
  | "StartsWith" => some (.stringStartsWith, .startWith isNegated)
  | "EndsWith" => some (.stringEndsWith, .endWith isNegated)
  | _ => none

/-- Matches `Contains`, `StartsWith` and `EndsWith` of a string with one argument. -/
def asStringPredicate? (model : SemanticModel m) (condition : Condition) :
    m (Option RecognizedCondition) :=
  match condition.expr with
  | .invocation (.memberAccess receiver _ _) list _ => do
    match ← model.resolveMethod condition.expr with
    | none => pure none
    | some method =>
      if method.isStatic || method.containingType.special != .string ||
          method.parameters.length != 1 then
        pure none
      else
        match stringPredicate? method.name condition.isNegated, list.arguments with
        | some (rule, constraint), [argument] =>
          pure (some
            { rule := rule
              actual := receiver
              expected := argument.expression
              constraint := constraint
              swapOperands := false })
        | _, _ => pure none
  | _ => pure none

/-- The method is the `Contains` extension method for sequences. -/
def isSequenceContains (method : MethodSymbol) : Bool :=
  method.isExtension && method.containingType.fullName == "System.Linq.Enumerable"

/-- The method belongs to a collection or a list, but not to a string. -/
def isCollectionMember (model : SemanticModel m) (method : MethodSymbol) : m Bool :=
  if !method.isStatic && method.parameters.length == 1 &&
      method.containingType.special != .string then do
    if ← model.isDerivedFrom method.containingType "System.Collections.Generic.ICollection" then
      pure true
    else
      model.isDerivedFrom method.containingType "System.Collections.IList"
  else
    pure false

/-- The collection and the item of a call of `Contains`. -/
def membershipOperands? (model : SemanticModel m) (method : MethodSymbol) (target : Expr)
    (arguments : List Argument) : m (Option (Expr × Expr)) :=
  let ofReceiver (item : Argument) : Option (Expr × Expr) :=
    target.asMemberAccess?.map fun access => (access.1, item.expression)
  match arguments with
  | [item] =>
    if isSequenceContains method && method.isReducedExtension then
      pure (ofReceiver item)
    else do
      if ← isCollectionMember model method then pure (ofReceiver item) else pure none
  | [collection, item] =>
    if isSequenceContains method && !method.isReducedExtension then
      pure (some (collection.expression, item.expression))
    else
      pure none
  | _ => pure none

/-- Matches `Contains` of a collection, a list or a sequence, without labels. -/
def asMembership? (model : SemanticModel m) (condition : Condition) :
    m (Option RecognizedCondition) :=
  match condition.expr with
  | .invocation target list _ => do
    match ← model.resolveMethod condition.expr with
    | none => pure none
    | some method =>
      if method.name != "Contains" || list.arguments.any (·.name.isSome) then
        pure none
      else
        match ← membershipOperands? model method target list.arguments with
        | none => pure none
        | some (actual, expected) =>
          pure (some
            { rule := .collectionContains
              actual := actual
              expected := expected
              constraint := .contain condition.isNegated
              swapOperands := false })
  | _ => pure none

def recognize? (model : SemanticModel m) (condition : Condition) :
    m (Option RecognizedCondition) := do
  match ← asEquality? model condition with
  | some found => pure (some found)
  | none =>
    match ← asComparison? model condition with
    | some found => pure (some found)
    | none =>
      -- strings come before other collections, since they are sequences as well
      match ← asStringPredicate? model condition with
      | some found => pure (some found)
      | none => asMembership? model condition

end Condition

end AssertionLint
