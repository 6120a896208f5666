import AssertionLint.Symbols.Symbol
import AssertionLint.TypeTable.Basic

/-!
# Bindings

What an expression turns out to be: a value, a type, a namespace, or the methods of one name that a
call has still to choose from.
-/

namespace AssertionLint

/-- A method that a call may resolve to. -/
structure MethodCandidate where
  /-- The type that declares the method, with its type arguments. -/
  owner : TypeSymbol
  id : TypeId
  /-- The place of the method in its type. -/
  place : Nat
  method : MethodDecl
  /-- The method is an extension called on a receiver. -/
  isReduced : Bool
  deriving Inhabited

/-- The methods of one name. -/
structure MethodGroup where
  /-- The type of the value in front of the dot. -/
  receiver : Option TypeSymbol
  /-- The written type arguments. -/
  typeArguments : List TypeSymbol
  candidates : List MethodCandidate
  /-- The extensions of this name, which count only if no candidate does. -/
  extensions : List MethodCandidate
  deriving Inhabited

/-- What an expression is bound to. -/
inductive Bound
  /-- A value, perhaps of a symbol. -/
  | value (type : TypeSymbol) (symbol : Option Symbol)
  | typeReference (type : TypeSymbol)
  | namespaceReference (path : String)
  | methods (group : MethodGroup)
  | unknown
  deriving Inhabited

namespace Bound

/-- A value that no symbol stands for. -/
def ofType (type : TypeSymbol) : Bound := value type none

/-- The result of a call. -/
def ofMethod (method : MethodSymbol) : Bound := value method.returnType (some (.method method))

/-- A value of the given type, or nothing known. -/
def ofType? : Option TypeSymbol → Bound
  | some type => ofType type
  | none => unknown

def type? : Bound → Option TypeSymbol
  | value type _ => some type
  | _ => none

/-- The type of a value, unless it could not be resolved. -/
def knownType? (bound : Bound) : Option TypeSymbol := bound.type?.filter (!·.isUnknown)

/-- The symbol that an expression stands for. -/
def symbol? : Bound → Option Symbol
  | value _ symbol => symbol
  | typeReference type => some (.typeReference type)
  | namespaceReference path => some (.namespaceReference path)
  | methods _ | unknown => none

/-- The binding, if anything is known. -/
def known? : Bound → Option Bound
  | unknown => none
  | bound => some bound

end Bound

end AssertionLint
