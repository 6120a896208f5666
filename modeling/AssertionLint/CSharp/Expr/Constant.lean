import AssertionLint.CSharp.Expr
import AssertionLint.Symbols.SpecialType
import AssertionLint.Text.Basic

/-!
# Literals and integer constants

The type and the value of literals, and the integer types whose range holds a value.
-/

namespace AssertionLint

namespace SpecialType

/-- The smallest and the largest value of the integer types that constants convert to. -/
def constantRange? : SpecialType → Option (Int × Int)
  | sbyte => some (-0x80, 0x7f)
  | byte => some (0, 0xff)
  | int16 => some (-0x8000, 0x7fff)
  | uint16 => some (0, 0xffff)
  | uint32 => some (0, 0xffffffff)
  | uint64 => some (0, 0xffffffffffffffff)
  | _ => Option.none

/-- An integer constant of one type converts to another type because its value fits. -/
def constantFits (source destination : SpecialType) (value : Int) : Bool :=
  match destination.constantRange? with
  | Option.none => false
  | some (least, greatest) =>
    match source with
    | int32 => least ≤ value && value ≤ greatest
    | int64 => destination == uint64 && 0 ≤ value
    | _ => false

end SpecialType

namespace Literal

/-- The characters of the suffixes of integer literals. -/
def isIntegerSuffix (c : Char) : Bool := c == 'u' || c == 'U' || c == 'l' || c == 'L'

/-- Integer literals are read up to, but without, this number. -/
def readBound : Nat := 0x80000000000000000000000000000000

/-- The value of an integer literal such as `42`, `0x2A` or `1_000UL`. -/
def integerValue? (text : String) : Option Int :=
  let digits := ((text.toList.reverse.dropWhile isIntegerSuffix).reverse).filter (· != '_')
  match digits with
  | '0' :: 'x' :: rest | '0' :: 'X' :: rest => Text.integer? 16 readBound rest
  | '0' :: 'b' :: rest | '0' :: 'B' :: rest => Text.integer? 2 readBound rest
  | _ => Text.integer? 10 readBound digits

/-- A lower-case ending of a literal in any case. -/
def endsWith (text ending : String) : Bool :=
  ending.toList.isSuffixOf (text.toList.map Char.toLower)

/-- The type of an integer literal: a suffix names the type, otherwise the value needs it. -/
def integerType (text : String) : SpecialType :=
  if endsWith text "ul" || endsWith text "lu" then .uint64
  else if endsWith text "u" then .uint32
  else if endsWith text "l" then .int64
  else
    match integerValue? text with
    | none => .uint64
    | some value =>
      if value < 0x80000000 then .int32
      else if value < 0x100000000 then .uint32
      else if value < 0x8000000000000000 then .int64
      else .uint64

/-- The type of a literal with a fractional part, an exponent or a suffix that says so. -/
def realType (text : String) : SpecialType :=
  if endsWith text "f" then .single else if endsWith text "m" then .decimal else .double

/-- The type of a literal, unless it is `null` or `default`. -/
def specialType? (literal : Literal) : Option SpecialType :=
  match literal.kind with
  | .integer => some (integerType literal.text)
  | .real => some (realType literal.text)
  | .string | .verbatimString | .rawString | .interpolatedString => some .string
  | .character => some .char
  | .boolean => some .boolean
  | .null | .default => none

end Literal

namespace Expr

/-- The value of an integer literal with signs and parentheses around it. -/
def integerConstant? : Expr → Option Int
  | parenthesized inner _ => inner.integerConstant?
  | literal written _ =>
    if written.kind = .integer then Literal.integerValue? written.text else none
  | unary .negate operand _ => operand.integerConstant?.map fun value => -value
  | unary .plus operand _ => operand.integerConstant?
  | _ => none

end Expr

end AssertionLint
