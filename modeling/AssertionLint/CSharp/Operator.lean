/-!
# Operators of C#

The binary and unary operators that the library tells apart, and their tokens. A token names at
most one binary and at most one unary operator.
-/

namespace AssertionLint

/-- A binary operator. -/
inductive BinaryOperator
  | equals
  | notEquals
  | lessThan
  | lessThanOrEqual
  | greaterThan
  | greaterThanOrEqual
  | logicalAnd
  | logicalOr
  | bitwiseAnd
  | bitwiseOr
  | exclusiveOr
  | add
  | subtract
  | multiply
  | divide
  | modulo
  | leftShift
  | rightShift
  | coalesce
  deriving DecidableEq, Repr, Inhabited

namespace BinaryOperator

def all : List BinaryOperator :=
  [equals, notEquals, lessThan, lessThanOrEqual, greaterThan, greaterThanOrEqual, logicalAnd,
    logicalOr, bitwiseAnd, bitwiseOr, exclusiveOr, add, subtract, multiply, divide, modulo,
    leftShift, rightShift, coalesce]

def name : BinaryOperator → String
  | equals => "Equals"
  | notEquals => "NotEquals"
  | lessThan => "LessThan"
  | lessThanOrEqual => "LessThanOrEqual"
  | greaterThan => "GreaterThan"
  | greaterThanOrEqual => "GreaterThanOrEqual"
  | logicalAnd => "LogicalAnd"
  | logicalOr => "LogicalOr"
  | bitwiseAnd => "BitwiseAnd"
  | bitwiseOr => "BitwiseOr"
  | exclusiveOr => "ExclusiveOr"
  | add => "Add"
  | subtract => "Subtract"
  | multiply => "Multiply"
  | divide => "Divide"
  | modulo => "Modulo"
  | leftShift => "LeftShift"
  | rightShift => "RightShift"
  | coalesce => "Coalesce"

def token : BinaryOperator → String
  | equals => "=="
  | notEquals => "!="
  | lessThan => "<"
  | lessThanOrEqual => "<="
  | greaterThan => ">"
  | greaterThanOrEqual => ">="
  | logicalAnd => "&&"
  | logicalOr => "||"
  | bitwiseAnd => "&"
  | bitwiseOr => "|"
  | exclusiveOr => "^"
  | add => "+"
  | subtract => "-"
  | multiply => "*"
  | divide => "/"
  | modulo => "%"
  | leftShift => "<<"
  | rightShift => ">>"
  | coalesce => "??"

def ofToken? (text : String) : Option BinaryOperator :=
  all.find? fun operator => operator.token == text

/-- Relational and equality operators, which always produce a truth value. -/
def isComparison : BinaryOperator → Bool
  | equals | notEquals | lessThan | lessThanOrEqual | greaterThan | greaterThanOrEqual => true
  | _ => false

end BinaryOperator

/-- A unary operator written in front of its operand. -/
inductive UnaryOperator
  | logicalNot
  | negate
  | plus
  | bitwiseNot
  | preIncrement
  | preDecrement
  deriving DecidableEq, Repr, Inhabited

namespace UnaryOperator

def all : List UnaryOperator :=
  [logicalNot, negate, plus, bitwiseNot, preIncrement, preDecrement]

def name : UnaryOperator → String
  | logicalNot => "LogicalNot"
  | negate => "Negate"
  | plus => "Plus"
  | bitwiseNot => "BitwiseNot"
  | preIncrement => "PreIncrement"
  | preDecrement => "PreDecrement"

def token : UnaryOperator → String
  | logicalNot => "!"
  | negate => "-"
  | plus => "+"
  | bitwiseNot => "~"
  | preIncrement => "++"
  | preDecrement => "--"

def ofToken? (text : String) : Option UnaryOperator :=
  all.find? fun operator => operator.token == text

end UnaryOperator

end AssertionLint
