import AssertionLint.CSharp.SyntaxTree
import AssertionLint.SemanticModel

/-!
# Assertion calls

A call of an assertion method together with the parameter that each of its arguments goes to.
Arguments of the parameter that takes all remaining arguments are the overflow of the call, all
others are bound. Whether a method is one of assertions is read off its full name, never off how a
call is written, so a type that happens to share a simple name does not match.
-/

namespace AssertionLint

namespace Names

/-- The type that holds the assertion methods of the constraint model. -/
def assertHolder : String := "NUnit.Framework.Assert"

/-- The type that holds the assertion methods of the classic model. -/
def classicHolder : String := "NUnit.Framework.Legacy.ClassicAssert"

/-- The types that hold assertion methods. -/
def holders : List String := [assertHolder, classicHolder]

/-- The namespace of the helper classes. -/
def frameworkNamespace : String := "NUnit.Framework"

/-- The classes that a constraint starts from. -/
def helpers : List String := ["Is", "Has", "Does", "Contains", "Throws"]

/-- The class that all constraints derive from. -/
def constraintBase : String := "NUnit.Framework.Constraints.Constraint"

/-- The members without arguments that join two parts of a constraint. -/
def combinators : List String := ["And", "Or", "With"]

/-- The methods whose single truth value is the condition under test. -/
def conditionMethods : List String := ["That", "IsTrue", "True", "IsFalse", "False"]

/-- The methods that assert that their condition does not hold. -/
def negativeConditionMethods : List String := ["IsFalse", "False"]

end Names

/-- The parameter takes all remaining arguments. -/
def ParameterSymbol.isCatchAll (parameter : ParameterSymbol) : Bool :=
  parameter.isParams || parameter.name == "args"

/-- An argument and the parameter it goes to. -/
structure BoundArgument where
  parameter : ParameterSymbol
  argument : Argument
  deriving Inhabited

/-- A call with the parameters of its arguments. -/
structure CallShape where
  span : Span
  target : Expr
  method : MethodSymbol
  /-- Every argument with its parameter, in source order. -/
  assigned : List BoundArgument
  deriving Inhabited

namespace CallShape

/-- The parameter of an argument. A label names it; otherwise the position does, where all
positions from the catch-all parameter on mean this parameter. -/
def parameterFor? (method : MethodSymbol) (position : Nat) (argument : Argument) :
    Option ParameterSymbol :=
  match argument.name with
  | some label => method.parameter? label
  | none =>
    match method.parameters.findIdx? (·.isCatchAll) with
    | some catchAll => method.parameters[min position catchAll]?
    | none => method.parameters[position]?

/-- Gives each argument its parameter, the first one by the given position. -/
def assign? (method : MethodSymbol) (position : Nat) : List Argument → Option (List BoundArgument)
  | [] => some []
  | argument :: rest => do
    let parameter ← parameterFor? method position argument
    let others ← assign? method (position + 1) rest
    pure (⟨parameter, argument⟩ :: others)

/-- Reads a call of a known method; every argument must have a parameter. -/
def bind? (invocation : Expr) (method : MethodSymbol) : Option CallShape := do
  let span ← invocation.span
  let (target, list) ← invocation.asInvocation?
  let assigned ← assign? method 0 list.arguments
  pure ⟨span, target, method, assigned⟩

/-- Reads a call if it stands in a well-formed method body and calls an assertion method. -/
def classify? {m : Type → Type} [Monad m] (invocation : Expr) (root : RootExpression)
    (model : SemanticModel m) : m (Option CallShape) :=
  match invocation.span with
  | none => pure none
  | some _ =>
    if !root.inMethodBody || root.hasErrors then
      pure none
    else do
      match ← model.resolveMethod invocation with
      | none => pure none
      | some method =>
        if Names.holders.contains method.containingType.fullName then
          pure (bind? invocation method)
        else
          pure none

def arguments (shape : CallShape) : List Argument := shape.assigned.map (·.argument)

/-- The arguments that go to a parameter of their own, in source order. -/
def bound (shape : CallShape) : List BoundArgument :=
  shape.assigned.filter fun entry => !entry.parameter.isCatchAll

/-- The arguments that the catch-all parameter takes, in source order. -/
def overflow (shape : CallShape) : List Argument :=
  (shape.assigned.filter fun entry => entry.parameter.isCatchAll).map (·.argument)

/-- The first argument that goes to the parameter with the given name. -/
def binding? (shape : CallShape) (parameter : String) : Option BoundArgument :=
  shape.bound.find? fun entry => entry.parameter.name == parameter

def argument? (shape : CallShape) (parameter : String) : Option Argument :=
  (shape.binding? parameter).map (·.argument)

/-- The binding of the first of several parameter names that is bound. -/
def firstBinding? (shape : CallShape) (parameters : List String) : Option BoundArgument :=
  parameters.findSome? shape.binding?

/-- The argument that gives the failure message. -/
def message? (shape : CallShape) : Option Argument := shape.argument? "message"

/-- The parameter that takes all remaining arguments. -/
def catchAll? (shape : CallShape) : Option ParameterSymbol :=
  shape.method.parameters.find? (·.isCatchAll)

/-- The name of the method as it is written in the call. -/
def memberName? (shape : CallShape) : Option SimpleName := shape.target.trailingName?

/-- The method has type arguments, written or inferred. -/
def isGeneric (shape : CallShape) : Bool :=
  shape.method.isGeneric || shape.memberName?.any (·.typeArguments.isSome)

/-- The method belongs to the classic model's own holder. -/
def isOnClassicHolder (shape : CallShape) : Bool :=
  shape.method.containingType.fullName == Names.classicHolder

/-- The trivia behind the opening parenthesis. -/
def openingTrivia (shape : CallShape) : String := (shape.arguments.head?.map (·.leading)).getD ""

/-- The trivia in front of the closing parenthesis. -/
def closingTrivia (shape : CallShape) : String :=
  (shape.arguments.getLast?.map (·.trailing)).getD ""

end CallShape

end AssertionLint
