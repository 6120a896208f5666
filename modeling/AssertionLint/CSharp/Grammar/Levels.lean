/-!
# Levels of operators

How strongly the operators of an expression bind. Each has a level, and an operand with a floor
takes only operators at or above it. Operators that group to the left read their right side one
level higher.
-/

namespace AssertionLint

namespace Grammar

/-- How operators group. -/
inductive Grouping
  | left
  | right
  deriving DecidableEq, Repr

def assignmentLevel : Nat := 2

/-- The level of conditional expressions and of the access behind a question mark. -/
def conditionalLevel : Nat := 3

/-- The lowest level of the binary operators. -/
def binaryFloor : Nat := 4

/-- The level of `is` and `as`. -/
def testLevel : Nat := 11

/-- The level of copies with other members. -/
def withLevel : Nat := 15

/-- The level of choices by patterns. -/
def switchLevel : Nat := 16

def rangeLevel : Nat := 17

/-- The level of casts and of operators in front of an operand. -/
def unaryLevel : Nat := 18

/-- The level and the grouping of a binary operator. -/
def binaryLevel? (text : String) : Option (Nat × Grouping) :=
  match text with
  | "??" => some (4, .right)
  | "||" => some (5, .left)
  | "&&" => some (6, .left)
  | "|" => some (7, .left)
  | "^" => some (8, .left)
  | "&" => some (9, .left)
  | "==" | "!=" => some (10, .left)
  | "<" | "<=" | ">" | ">=" => some (11, .left)
  | "<<" | ">>" | ">>>" => some (12, .left)
  | "+" | "-" => some (13, .left)
  | "*" | "/" | "%" => some (14, .left)
  | _ => none

end Grammar

end AssertionLint
