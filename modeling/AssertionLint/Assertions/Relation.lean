import AssertionLint.CSharp.Operator

/-!
# Order relations

The four order relations that the constraint model can name, how they change when the condition is
negated and when the operands change sides.
-/

namespace AssertionLint

/-- An order relation between an actual and an expected value. -/
inductive Relation
  | greaterThan
  | greaterThanOrEqualTo
  | lessThan
  | lessThanOrEqualTo
  deriving DecidableEq, Repr, Inhabited

namespace Relation

def ofOperator? : BinaryOperator → Option Relation
  | .greaterThan => some greaterThan
  | .greaterThanOrEqual => some greaterThanOrEqualTo
  | .lessThan => some lessThan
  | .lessThanOrEqual => some lessThanOrEqualTo
  | _ => none

/-- The relation that holds exactly when the given one does not. -/
def negated : Relation → Relation
  | greaterThan => lessThanOrEqualTo
  | greaterThanOrEqualTo => lessThan
  | lessThan => greaterThanOrEqualTo
  | lessThanOrEqualTo => greaterThan

/-- The relation between the operands in the other order. -/
def swapped : Relation → Relation
  | greaterThan => lessThan
  | greaterThanOrEqualTo => lessThanOrEqualTo
  | lessThan => greaterThan
  | lessThanOrEqualTo => greaterThanOrEqualTo

def name : Relation → String
  | greaterThan => "GreaterThan"
  | greaterThanOrEqualTo => "GreaterThanOrEqualTo"
  | lessThan => "LessThan"
  | lessThanOrEqualTo => "LessThanOrEqualTo"

/-- The constraint that asserts a relation. -/
def constraint (relation : Relation) : String := "Is." ++ relation.name

end Relation

end AssertionLint
