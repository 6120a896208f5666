import AssertionLint.CSharp.Expr.Constant
import AssertionLint.TypeTable.Conversion

/-!
# Conversions of expressions

Which implicit conversion leads from an expression of a known type to another type. Beyond the
conversions between types, an integer constant converts to any integer type that holds its value.
-/

namespace AssertionLint.TypeTable

/-- The conversion of an integer constant of the given type, if its value fits. -/
def constantConversion? (source destination : TypeSymbol) (expr : Expr) : Option Conversion :=
  expr.integerConstant?.bind fun value =>
    if source.special.constantFits destination.special value then some .implicitConstant
    else
      match destination.underlying? with
      | some target =>
        if source.special.constantFits target.special value then some .implicitNullable else none
      | none => none

/-- The conversion of an expression of the given type. -/
def exprConversion (table : TypeTable) (expr : Expr) (source destination : TypeSymbol) :
    Conversion :=
  let standard := table.standardConversion source destination
  if standard.exists then standard
  else
    match constantConversion? source destination expr with
    | some conversion => conversion
    | none =>
      if table.hasUserDefinedConversion source destination then .userDefined else .none

def literalType? (table : TypeTable) (literal : Literal) : Option TypeSymbol :=
  if literal.kind = .null then some .nullLiteral
  else literal.specialType?.map table.special

/-- The type of the elements of an array without a written type: the first type of an element that
every element converts to. Elements without a known type convert to any type. -/
def commonType? (table : TypeTable) (elements : List (Expr × Option TypeSymbol)) :
    Option TypeSymbol :=
  ((elements.filterMap (·.2)).filter (·.kind != .null)).find? fun candidate =>
    elements.all fun (element, type) =>
      match type with
      | none => true
      | some type => (table.exprConversion element type candidate).exists

end AssertionLint.TypeTable
