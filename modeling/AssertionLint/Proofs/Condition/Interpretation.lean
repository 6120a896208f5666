import AssertionLint.Assertions.Condition
import Mathlib.Order.Lattice

/-!
# The meaning of conditions

An interpretation gives every expression a value in a linear order, reads all forms of equality as
one symmetric relation, and reads the predicates `Contains`, `StartsWith` and `EndsWith` as
arbitrary relations. It decides whether a condition holds, whatever parentheses and negations
stand around it, and which relation the dotted name of a constraint stands for.

`CallShape.Asserts` says which expression an assertion of a truth value is about and which truth
value it demands. It is read off the call alone and counts no negations. `Condition.IsMet` is the
meaning of a condition below its negations. The two are tied together by `isMet_peel`: stripping
parentheses and negations and counting the latter changes nothing.
-/

namespace AssertionLint

universe u

/-- Values for expressions, and relations for the predicates that conditions can use. -/
structure Interpretation (Value : Type u) where
  value : Expr → Value
  /-- The one relation behind `==`, `!=` and all `Equals` methods. -/
  equal : Value → Value → Prop
  equal_symm : ∀ {left right}, equal left right → equal right left
  contains : Value → Value → Prop
  startsWith : Value → Value → Prop
  endsWith : Value → Value → Prop
  /-- The truth of an expression that is no negation, comparison or call of a predicate. -/
  other : Expr → Prop

namespace MethodSymbol

/-- Two arguments in the order of their parameters; the label of the second parameter in front of
the first argument makes them change places. -/
def inParameterOrder (method : MethodSymbol) (first second : Argument) : Expr × Expr :=
  match first.name, method.parameters[1]? with
  | some label, some parameter =>
    if label = parameter.name then (second.expression, first.expression)
    else (first.expression, second.expression)
  | _, _ => (first.expression, second.expression)

/-- The operands of a call of a predicate: the receiver and the only argument, or both arguments. -/
def operands? (method : MethodSymbol) (target : Expr) (list : ArgumentList) :
    Option (Expr × Expr) :=
  match list.arguments with
  | [argument] => target.asMemberAccess?.map fun access => (access.1, argument.expression)
  | [first, second] => some (method.inParameterOrder first second)
  | _ => none

end MethodSymbol

namespace Interpretation

variable {Value : Type u} [LinearOrder Value]

/-- The relation that a method stands for. A static `Equals` compares its arguments only if it
belongs to `object` or `string`. -/
def predicate? (interpretation : Interpretation Value) (method : MethodSymbol) :
    Option (Value → Value → Prop) :=
  match method.name with
  | "Equals" =>
    if method.isStatic = true → method.containingType.fullName ∈ ["System.Object", "System.String"]
    then some interpretation.equal
    else none
  | "Contains" => some interpretation.contains
  | "StartsWith" => some interpretation.startsWith
  | "EndsWith" => some interpretation.endsWith
  | _ => none

/-- A call of a known predicate says that its relation holds between the operands. -/
def ofCall? (interpretation : Interpretation Value) (method : MethodSymbol) (target : Expr)
    (list : ArgumentList) : Option Prop :=
  match interpretation.predicate? method, method.operands? target list with
  | some predicate, some (left, right) =>
    some (predicate (interpretation.value left) (interpretation.value right))
  | _, _ => none

/-- The relation that a binary operator stands for. -/
def operator? (interpretation : Interpretation Value) :
    BinaryOperator → Option (Value → Value → Prop)
  | .equals => some interpretation.equal
  | .notEquals => some fun left right => ¬interpretation.equal left right
  | .lessThan => some (· < ·)
  | .lessThanOrEqual => some (· ≤ ·)
  | .greaterThan => some (· > ·)
  | .greaterThanOrEqual => some (· ≥ ·)
  | _ => none

/-- An expression of a truth value holds. -/
def Holds (interpretation : Interpretation Value) (model : SemanticModel Id) : Expr → Prop
  | .parenthesized inner _ => interpretation.Holds model inner
  | .unary .logicalNot operand _ => ¬interpretation.Holds model operand
  | .binary operator left right span =>
    match interpretation.operator? operator with
    | some relation => relation (interpretation.value left) (interpretation.value right)
    | none => interpretation.other (.binary operator left right span)
  | .invocation target list span =>
    let call := Expr.invocation target list span
    match Id.run (model.resolveMethod call) with
    | some method => (interpretation.ofCall? method target list).getD (interpretation.other call)
    | none => interpretation.other call
  | expr => interpretation.other expr

/-- The relation between the actual and the expected value that a constraint demands, by the dotted
name of the constraint. -/
def constraint? (interpretation : Interpretation Value) :
    List String → Option (Value → Value → Prop)
  | ["Is", "EqualTo"] => some interpretation.equal
  | ["Is", "Not", "EqualTo"] => some fun actual expected => ¬interpretation.equal actual expected
  | ["Is", "GreaterThan"] => some fun actual expected => actual > expected
  | ["Is", "GreaterThanOrEqualTo"] => some fun actual expected => actual ≥ expected
  | ["Is", "LessThan"] => some fun actual expected => actual < expected
  | ["Is", "LessThanOrEqualTo"] => some fun actual expected => actual ≤ expected
  | ["Does", "Contain"] => some interpretation.contains
  | ["Does", "Not", "Contain"] =>
    some fun actual expected => ¬interpretation.contains actual expected
  | ["Does", "StartWith"] => some interpretation.startsWith
  | ["Does", "Not", "StartWith"] =>
    some fun actual expected => ¬interpretation.startsWith actual expected
  | ["Does", "EndWith"] => some interpretation.endsWith
  | ["Does", "Not", "EndWith"] =>
    some fun actual expected => ¬interpretation.endsWith actual expected
  | _ => none

end Interpretation

/-- The expression is `Is.True` or `Is.False`, in any parentheses, and stands for this truth
value. -/
inductive IsTruthConstraint (model : SemanticModel Id) : Expr → Bool → Prop
  | parenthesized {inner : Expr} {demanded : Bool} (span : Option Span)
      (constraint : IsTruthConstraint model inner demanded) :
      IsTruthConstraint model (.parenthesized inner span) demanded
  | property {target : Expr} {member : SimpleName} {span : Option Span} (demanded : Bool)
      {property : PropertySymbol}
      (resolved : model.symbolInfo (.memberAccess target member span) = some (.property property))
      (holder : property.containingType.fullName = "NUnit.Framework.Is")
      (named : member.identifier = if demanded then "True" else "False") :
      IsTruthConstraint model (.memberAccess target member span) demanded

namespace CallShape

/-- The truth value that a method demands of its condition if no constraint follows it. -/
def demandedTruth? : String → Option Bool
  | "That" | "IsTrue" | "True" => some true
  | "IsFalse" | "False" => some false
  | _ => none

/-- The call passes exactly when the expression has the truth value. A constraint `Is.False` behind
the condition turns around what the method demands. -/
inductive Asserts (model : SemanticModel Id) (shape : CallShape) : Expr → Bool → Prop
  | alone {demanded : Bool} {subject : BoundArgument}
      (method : demandedTruth? shape.method.name = some demanded)
      (condition : shape.firstBinding? ["condition", "actual"] = some subject)
      (unconstrained : shape.argument? "expression" = none) :
      Asserts model shape subject.argument.expression demanded
  | constrained {demanded required : Bool} {subject : BoundArgument} {constraint : Argument}
      (method : demandedTruth? shape.method.name = some demanded)
      (condition : shape.firstBinding? ["condition", "actual"] = some subject)
      (passed : shape.argument? "expression" = some constraint)
      (truth : IsTruthConstraint model constraint.expression required) :
      Asserts model shape subject.argument.expression (demanded == required)

end CallShape

namespace Condition

variable {Value : Type u} [LinearOrder Value]

/-- The condition below its negations has the truth value that the assertion demands. -/
def IsMet (interpretation : Interpretation Value) (model : SemanticModel Id)
    (condition : Condition) : Prop :=
  interpretation.Holds model condition.expr ↔ condition.isNegated = false

/-- Stripping parentheses and counting negations keeps the meaning of a condition. -/
theorem isMet_peel (interpretation : Interpretation Value) (model : SemanticModel Id)
    (isNegated : Bool) (expr : Expr) :
    (peel isNegated expr).IsMet interpretation model ↔
      (interpretation.Holds model expr ↔ isNegated = false) := by
  fun_induction peel isNegated expr with
  | case1 isNegated inner span ih => simpa only [Interpretation.Holds] using ih
  | case2 isNegated operand span ih =>
    rw [ih]
    simp only [Interpretation.Holds]
    cases isNegated <;> simp
  | case3 isNegated expr => rfl

end Condition

end AssertionLint
