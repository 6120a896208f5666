import AssertionLint.CSharp.Expr
import AssertionLint.Symbols.Symbol

/-!
# Semantic models

What analysis asks about the expressions of a document. A model answers inside a monad, so that a
model may remember what it has found out; a model that answers each question on its own lives in
`Id`.
-/

namespace AssertionLint

/-- How a value gets to another type. -/
inductive Conversion
  | identity
  | implicitNumeric
  | implicitConstant
  | implicitReference
  | boxing
  | implicitNullable
  | nullLiteral
  | userDefined
  | none
  deriving DecidableEq, Repr, Inhabited

namespace Conversion

def all : List Conversion :=
  [identity, implicitNumeric, implicitConstant, implicitReference, boxing, implicitNullable,
    nullLiteral, userDefined, none]

def name : Conversion → String
  | identity => "Identity"
  | implicitNumeric => "ImplicitNumeric"
  | implicitConstant => "ImplicitConstant"
  | implicitReference => "ImplicitReference"
  | boxing => "Boxing"
  | implicitNullable => "ImplicitNullable"
  | nullLiteral => "NullLiteral"
  | userDefined => "UserDefined"
  | none => "None"

def ofName? (text : String) : Option Conversion :=
  all.find? fun conversion => conversion.name == text

/-- There is a conversion at all. -/
def «exists» (conversion : Conversion) : Bool := conversion != .none

/-- The conversion calls an operator that a type declares. -/
def isUserDefined (conversion : Conversion) : Bool := conversion == .userDefined

/-- The conversion changes nothing. -/
def isIdentity (conversion : Conversion) : Bool := conversion == .identity

end Conversion

/-- The answers about the expressions of one document. -/
structure SemanticModel (m : Type → Type) where
  /-- The method that a call resolves to. -/
  resolveMethod : Expr → m (Option MethodSymbol)
  /-- What an expression refers to. -/
  symbolInfo : Expr → m (Option Symbol)
  /-- The type of an expression. -/
  typeOf : Expr → m (Option TypeSymbol)
  /-- How an expression converts to a type. -/
  classifyConversion : Expr → TypeSymbol → m Conversion
  /-- The type is, or derives from, the type with the given full name. -/
  isDerivedFrom : TypeSymbol → String → m Bool

namespace SemanticModel

variable {m : Type → Type} [Monad m]

/-- The symbol of a name is a constant field. -/
def isConstantField (model : SemanticModel m) (expr : Expr) : m Bool := do
  match ← model.symbolInfo expr with
  | some (.field field) => pure field.isConst
  | _ => pure false

/-- The expression is a literal, a signed constant or the name of a constant field. -/
def isConstant (model : SemanticModel m) : Expr → m Bool
  | .parenthesized inner _ => model.isConstant inner
  | .literal written _ => pure written.kind.isConstant
  | .unary operator operand _ =>
    match operator with
    | .negate | .plus | .bitwiseNot => model.isConstant operand
    | _ => pure false
  | .name simple span => model.isConstantField (.name simple span)
  | .memberAccess target member span => model.isConstantField (.memberAccess target member span)
  | _ => pure false

end SemanticModel

end AssertionLint
