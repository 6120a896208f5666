import AssertionLint.CSharp.Operator
import AssertionLint.TypeTable.Conversion

/-!
# Results of operators

The types that the operators of the language give, where no type declares an operator of its own.
Numbers are promoted to a common type; an operand that may be `null` makes the result so.
-/

namespace AssertionLint

namespace SpecialType

/-- The types that arithmetic knows. -/
def isArithmetic (special : SpecialType) : Bool := special.isNumeric || special == char

/-- The type that two arithmetic operands are promoted to. -/
def promote? (left right : SpecialType) : Option SpecialType :=
  let either (special : SpecialType) : Bool := left == special || right == special
  let signed := left.isSigned || right.isSigned
  if !left.isArithmetic || !right.isArithmetic then Option.none
  else if either decimal then
    if either single || either double then Option.none else some decimal
  else if either double then some double
  else if either single then some single
  -- no integer type holds the values of both
  else if either uint64 then if signed then Option.none else some uint64
  else if either int64 then some int64
  else if either uint32 then if signed then some int64 else some uint32
  else some int32

end SpecialType

namespace TypeTable

/-- A nullable value type with its type argument. -/
def isLifted (type : TypeSymbol) : Bool := type.underlying?.isSome

/-- The type is a truth value, perhaps with `null`. -/
def isBoolean (type : TypeSymbol) : Bool := type.underlying.special == .boolean

/-- The type that two operands are promoted to. -/
def promote? (table : TypeTable) (left right : TypeSymbol) : Option TypeSymbol :=
  (left.underlying.special.promote? right.underlying.special).map fun special =>
    let type := table.special special
    if isLifted left || isLifted right then table.nullableOf type else type

def unaryType? (table : TypeTable) (operator : UnaryOperator) (operand : TypeSymbol) :
    Option TypeSymbol :=
  match operator with
  | .logicalNot => if isBoolean operand then some operand else none
  | .preIncrement | .preDecrement => some operand
  | .negate =>
    if operand.underlying.special = .uint32 then some (table.special .int64)
    else table.promote? operand operand
  | .plus | .bitwiseNot => table.promote? operand operand

/-- The type of a choice of the left operand, unless it is `null`, or else the right one. -/
def coalescedType? (left right : Option TypeSymbol) : Option TypeSymbol :=
  match left.filter fun type => type.kind != .null && !type.isUnknown with
  | some type => some type.underlying
  | none => right

/-- The type of an operation on two values. -/
def arithmeticType? (table : TypeTable) (operator : BinaryOperator) (left right : TypeSymbol) :
    Option TypeSymbol :=
  match operator with
  | .bitwiseAnd | .bitwiseOr | .exclusiveOr =>
    if isBoolean left && isBoolean right then some (table.special .boolean)
    else table.promote? left right
  | .add =>
    if left.special = .string || right.special = .string then some (table.special .string)
    else table.promote? left right
  -- the type of the distance does not matter
  | .leftShift | .rightShift => table.promote? left left
  | _ => table.promote? left right

/-- The type of a binary operation; an operand has no type if nothing is known about it. -/
def binaryType? (table : TypeTable) (operator : BinaryOperator) (left right : Option TypeSymbol) :
    Option TypeSymbol :=
  if operator.isComparison || operator = .logicalAnd || operator = .logicalOr then
    some (table.special .boolean)
  else if operator = .coalesce then coalescedType? left right
  else
    match left, right with
    | some left, some right => table.arithmeticType? operator left right
    | _, _ => none

/-- The type of a choice between two values: the one that the other value's type converts to. -/
def conditionalType? (table : TypeTable) (whenTrue whenFalse : Option TypeSymbol) :
    Option TypeSymbol :=
  let isOpen (type : TypeSymbol) : Bool := type.kind == .null || type.isUnknown
  match whenTrue, whenFalse with
  | some first, some second =>
    if isOpen first then some second
    else if isOpen second || (table.conversion second first).exists then some first
    else if (table.conversion first second).exists then some second
    else some first
  | some only, none | none, some only => some only
  | none, none => none

end TypeTable

end AssertionLint
