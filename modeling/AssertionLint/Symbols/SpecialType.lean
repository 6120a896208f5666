/-!
# Special types

The base types of C# that conversions and rules know by meaning, with their full names and their
keywords.
-/

namespace AssertionLint

/-- A type that the language itself gives a meaning; `none` for all others. -/
inductive SpecialType
  | none
  | object
  | void
  | boolean
  | char
  | sbyte
  | byte
  | int16
  | uint16
  | int32
  | uint32
  | int64
  | uint64
  | decimal
  | single
  | double
  | string
  | valueType
  | array
  | nullable
  deriving DecidableEq, Repr, Inhabited

namespace SpecialType

/-- Every special type with its full name and its keyword. -/
def table : List (SpecialType × String × Option String) :=
  [(object, "System.Object", some "object"),
    (void, "System.Void", some "void"),
    (boolean, "System.Boolean", some "bool"),
    (char, "System.Char", some "char"),
    (sbyte, "System.SByte", some "sbyte"),
    (byte, "System.Byte", some "byte"),
    (int16, "System.Int16", some "short"),
    (uint16, "System.UInt16", some "ushort"),
    (int32, "System.Int32", some "int"),
    (uint32, "System.UInt32", some "uint"),
    (int64, "System.Int64", some "long"),
    (uint64, "System.UInt64", some "ulong"),
    (decimal, "System.Decimal", some "decimal"),
    (single, "System.Single", some "float"),
    (double, "System.Double", some "double"),
    (string, "System.String", some "string"),
    (valueType, "System.ValueType", Option.none),
    (array, "System.Array", Option.none),
    (nullable, "System.Nullable", Option.none)]

def name (special : SpecialType) : String :=
  match special with
  | none => "None"
  | object => "Object"
  | void => "Void"
  | boolean => "Boolean"
  | char => "Char"
  | sbyte => "SByte"
  | byte => "Byte"
  | int16 => "Int16"
  | uint16 => "UInt16"
  | int32 => "Int32"
  | uint32 => "UInt32"
  | int64 => "Int64"
  | uint64 => "UInt64"
  | decimal => "Decimal"
  | single => "Single"
  | double => "Double"
  | string => "String"
  | valueType => "ValueType"
  | array => "Array"
  | nullable => "Nullable"

/-- The special type with a given full name. -/
def ofFullName (fullName : String) : SpecialType :=
  ((table.find? fun entry => entry.2.1 == fullName).map (·.1)).getD none

def ofKeyword? (keyword : String) : Option SpecialType :=
  (table.find? fun entry => entry.2.2 == some keyword).map (·.1)

def fullName? (special : SpecialType) : Option String :=
  (table.find? fun entry => entry.1 == special).map (·.2.1)

def keyword? (special : SpecialType) : Option String :=
  (table.find? fun entry => entry.1 == special).bind (·.2.2)

/-- The integer, floating-point and decimal types. -/
def isNumeric : SpecialType → Bool
  | sbyte | byte | int16 | uint16 | int32 | uint32 | int64 | uint64 | decimal | single | double =>
    true
  | _ => false

end SpecialType

end AssertionLint
