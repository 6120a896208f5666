import AssertionLint.Symbols.TypeSymbol

/-!
# Resolved symbols

What a name, a member access or a call can refer to.
-/

namespace AssertionLint

/-- A parameter of a resolved method. -/
structure ParameterSymbol where
  name : String
  type : TypeSymbol
  /-- The parameter takes all remaining arguments. -/
  isParams : Bool
  isOptional : Bool
  deriving DecidableEq, Inhabited

/-- The parameter with its type as it is shown. -/
def ParameterSymbol.summary (parameter : ParameterSymbol) : String :=
  (if parameter.isParams then "params " else "") ++
    (if parameter.isOptional then "optional " else "") ++ parameter.type.display ++ " " ++
    parameter.name

/-- A resolved method. -/
structure MethodSymbol where
  name : String
  containingType : TypeSymbol
  parameters : List ParameterSymbol
  returnType : TypeSymbol
  typeArguments : List TypeSymbol
  isStatic : Bool
  /-- The method is declared with a `this` parameter. -/
  isExtension : Bool
  /-- The method is called on a receiver that stands for its `this` parameter. -/
  isReducedExtension : Bool
  deriving DecidableEq, Inhabited

namespace MethodSymbol

def parameter? (method : MethodSymbol) (name : String) : Option ParameterSymbol :=
  method.parameters.find? fun parameter => parameter.name == name

def arity (method : MethodSymbol) : Nat := method.parameters.length

/-- The method has type arguments. -/
def isGeneric (method : MethodSymbol) : Bool := !method.typeArguments.isEmpty

end MethodSymbol

structure PropertySymbol where
  name : String
  containingType : TypeSymbol
  type : TypeSymbol
  isStatic : Bool
  deriving DecidableEq, Inhabited

structure FieldSymbol where
  name : String
  containingType : TypeSymbol
  type : TypeSymbol
  isStatic : Bool
  isConst : Bool
  deriving DecidableEq, Inhabited

/-- What an expression refers to. -/
inductive Symbol
  | method (method : MethodSymbol)
  | property (property : PropertySymbol)
  | field (field : FieldSymbol)
  | localVariable (name : String) (type : TypeSymbol)
  | parameter (name : String) (type : TypeSymbol)
  | typeReference (type : TypeSymbol)
  /-- A namespace with its full dotted name. -/
  | namespaceReference (fullName : String)
  deriving DecidableEq, Inhabited

namespace Symbol

/-- The part of a dotted name behind its last dot. -/
def lastPart (dotted : String) : String :=
  String.ofList (dotted.toList.reverse.takeWhile (· != '.')).reverse

def name : Symbol → String
  | method symbol => symbol.name
  | property symbol => symbol.name
  | field symbol => symbol.name
  | localVariable name _ | parameter name _ => name
  | typeReference symbol => symbol.name
  | namespaceReference fullName => lastPart fullName

/-- The type of the values that a symbol stands for. -/
def valueType? : Symbol → Option TypeSymbol
  | method symbol => some symbol.returnType
  | property symbol => some symbol.type
  | field symbol => some symbol.type
  | localVariable _ type | parameter _ type => some type
  | typeReference _ | namespaceReference _ => none

/-- The type that declares a symbol. -/
def containingType? : Symbol → Option TypeSymbol
  | method symbol => some symbol.containingType
  | property symbol => some symbol.containingType
  | field symbol => some symbol.containingType
  | _ => none

/-- The symbol is a local variable, a parameter or a field. -/
def isVariable : Symbol → Bool
  | localVariable .. | parameter .. | field _ => true
  | _ => false

end Symbol

end AssertionLint
