import AssertionLint.Reference.Stub

/-!
# Words for stubs

Short names for the types and parameters that stubs are written with.
-/

namespace AssertionLint.Reference

/-- A type by its keyword. -/
def keyword (text : String) : TypeExpr := .predefined text none

/-- A type by its name. -/
def named (name : String) : TypeExpr := .named none name [] none

/-- A type by its name, with type arguments. -/
def generic (name : String) (typeArguments : List TypeExpr) : TypeExpr :=
  .named none name typeArguments none

/-- An array type. -/
def arrayOf (element : TypeExpr) : TypeExpr := .array element 1 none

/-- A type with `null` added to it. -/
def nullable (inner : TypeExpr) : TypeExpr := .nullable inner none

def object : TypeExpr := keyword "object"

def void : TypeExpr := keyword "void"

def bool : TypeExpr := keyword "bool"

def char : TypeExpr := keyword "char"

def sbyte : TypeExpr := keyword "sbyte"

def byte : TypeExpr := keyword "byte"

def short : TypeExpr := keyword "short"

def ushort : TypeExpr := keyword "ushort"

def int : TypeExpr := keyword "int"

def uint : TypeExpr := keyword "uint"

def long : TypeExpr := keyword "long"

def ulong : TypeExpr := keyword "ulong"

def float : TypeExpr := keyword "float"

def double : TypeExpr := keyword "double"

def decimal : TypeExpr := keyword "decimal"

def string : TypeExpr := keyword "string"

/-- An ordinary parameter. -/
def param (type : TypeExpr) (name : String) : ParameterDecl :=
  ⟨name, some type, false, false, false⟩

/-- A parameter that takes all remaining arguments. -/
def rest (type : TypeExpr) (name : String) : ParameterDecl :=
  ⟨name, some type, true, false, false⟩

/-- A parameter that receives the object in front of the dot. -/
def receiver (type : TypeExpr) (name : String) : ParameterDecl :=
  ⟨name, some type, false, true, false⟩

end AssertionLint.Reference
