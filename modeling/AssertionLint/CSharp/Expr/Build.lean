import AssertionLint.CSharp.Expr

/-!
# Made-up expressions

Constructors for the expressions that fixes write. None of them has a span.
-/

namespace AssertionLint

namespace Expr

/-- A plain identifier. -/
def identifier (text : String) : Expr := .name (.ofIdentifier text) none

/-- A member of a target. -/
def member (target : Expr) (text : String) : Expr :=
  .memberAccess target (.ofIdentifier text) none

/-- A member of a target with explicit type arguments. -/
def genericMember (target : Expr) (text : String) (typeArguments : List TypeExpr) : Expr :=
  .memberAccess target ⟨text, some typeArguments, none⟩ none

/-- The dotted name `A.B.C` of the names `A`, `B` and `C`; no name at all gives an empty one. -/
def dotted : List String → Expr
  | [] => identifier ""
  | first :: rest => rest.foldl member (identifier first)

end Expr

/-- An argument list whose arguments are separated by a comma and a blank. -/
def ArgumentList.ofArguments : List Argument → ArgumentList
  | [] => ⟨[], none⟩
  | first :: rest =>
    ⟨first :: rest.map fun argument =>
      if argument.leading.isEmpty then { argument with leading := " " } else argument, none⟩

namespace Expr

def call (target : Expr) (arguments : List Argument) : Expr :=
  .invocation target (.ofArguments arguments) none

def inParentheses (inner : Expr) : Expr := .parenthesized inner none

/-- A conversion to a type; an operand that is not primary is put in parentheses. -/
def castTo (type : TypeExpr) (operand : Expr) : Expr :=
  .cast type (if operand.isPrimary then operand else inParentheses operand) none

/-- A string literal with the given text, quotes included. -/
def stringLiteral (text : String) : Expr := .literal ⟨.string, text⟩ none

end Expr

end AssertionLint
