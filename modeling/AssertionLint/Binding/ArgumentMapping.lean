import AssertionLint.CSharp.Declarations
import AssertionLint.TypeTable.Basic

/-!
# Arguments and parameters

Which parameter each argument of a call goes to. In normal form every argument has a parameter of
its own. In expanded form the arguments from the place of the parameter that takes any number on
all go to this parameter.
-/

namespace AssertionLint

/-- An argument as resolution sees it. -/
structure ArgumentSlot where
  /-- The label in front of a named argument. -/
  label : Option String
  /-- The receiver of an extension method has no expression. -/
  expr : Option Expr
  /-- The type, if it is known. -/
  type : Option TypeSymbol
  deriving Inhabited

namespace MethodDecl

/-- The place of the parameter for an argument. -/
def parameterIndex? (parameters : List ParameterDecl) (expanded : Option Nat) (position : Nat)
    (label : Option String) : Option Nat :=
  match label with
  | some name => parameters.findIdx? (·.name == name)
  | none =>
    -- from its own place on, the expanded parameter takes every argument without a label
    match expanded.filter (· ≤ position) with
    | some index => some index
    | none => if position < parameters.length then some position else none

/-- The places of the parameters for arguments from a position on; only the expanded parameter
takes more than one argument. -/
def assignFrom? (parameters : List ParameterDecl) (expanded : Option Nat) (position : Nat)
    (taken : List Nat) : List (Option String) → Option (List Nat)
  | [] => some []
  | label :: rest => do
    let index ← parameterIndex? parameters expanded position label
    if expanded ≠ some index && taken.contains index then none
    else
      let others ← assignFrom? parameters expanded (position + 1) (index :: taken) rest
      pure (index :: others)

/-- The parameters that no argument goes to, apart from the expanded one. -/
def unassigned (parameters : List ParameterDecl) (expanded : Option Nat) (assigned : List Nat) :
    List ParameterDecl :=
  (parameters.zipIdx.filter fun (_, index) =>
    !assigned.contains index && expanded != some index).map (·.1)

/-- The place of the parameter for each argument; a parameter without an argument is optional. -/
def assign? (parameters : List ParameterDecl) (expanded : Option Nat)
    (labels : List (Option String)) : Option (List Nat) := do
  let assigned ← assignFrom? parameters expanded 0 [] labels
  if (unassigned parameters expanded assigned).all (·.isOptional) then some assigned else none

/-- The type that an argument has to convert to: the parameter's, or that of its elements if the
parameter is expanded. -/
def targetType (types : List TypeSymbol) (expanded : Option Nat) (index : Nat) : TypeSymbol :=
  match types[index]? with
  | none => .unknown
  | some type => if expanded = some index then type.elementType.getD .unknown else type

end MethodDecl

end AssertionLint
