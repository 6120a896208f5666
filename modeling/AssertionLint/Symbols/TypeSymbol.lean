import AssertionLint.Symbols.SpecialType

/-!
# Resolved types

A resolved type is a name in a container with type arguments. Arrays carry their element type;
type parameters, the type of `null` and unknown types have kinds of their own.
-/

namespace AssertionLint

/-- The kinds of resolved types. -/
inductive TypeKind
  | «class»
  | struct
  | interface
  | enum
  | delegate
  | array
  | typeParameter
  | null
  | void
  | error
  deriving DecidableEq, Repr, Inhabited

namespace TypeKind

def all : List TypeKind :=
  [.class, struct, .interface, enum, delegate, array, typeParameter, null, void, error]

def name : TypeKind → String
  | .class => "Class"
  | struct => "Struct"
  | .interface => "Interface"
  | enum => "Enum"
  | delegate => "Delegate"
  | array => "Array"
  | typeParameter => "TypeParameter"
  | null => "Null"
  | void => "Void"
  | error => "Error"

def ofName? (text : String) : Option TypeKind := all.find? fun kind => kind.name == text

end TypeKind

/-- A resolved type. -/
structure TypeSymbol where
  name : String
  /-- The namespace and the enclosing types, joined by dots. -/
  container : String
  kind : TypeKind
  special : SpecialType
  typeArguments : List TypeSymbol
  elementType : Option TypeSymbol
  /-- Values of the type never leave the stack. -/
  isRefLike : Bool
  deriving Inhabited

namespace TypeSymbol

mutual

/-- Decides whether two types are the same in all their parts. -/
def decideEq : (left right : TypeSymbol) → Decidable (left = right)
  | ⟨name, container, kind, special, typeArguments, elementType, isRefLike⟩,
    ⟨name', container', kind', special', typeArguments', elementType', isRefLike'⟩ =>
    if same : name = name' ∧ container = container' ∧ kind = kind' ∧ special = special' ∧
        isRefLike = isRefLike' then
      match decideEqList typeArguments typeArguments' with
      | isTrue arguments =>
        match elementType, elementType' with
        | none, none => isTrue (by simp [same, arguments])
        | some element, some element' =>
          match decideEq element element' with
          | isTrue elements => isTrue (by simp [same, arguments, elements])
          | isFalse elements => isFalse (by simp [elements])
        | none, some _ => isFalse (by simp)
        | some _, none => isFalse (by simp)
      | isFalse arguments => isFalse (by simp [arguments])
    else
      isFalse (by simp only [TypeSymbol.mk.injEq]; grind)

/-- Decides whether two lists of types are the same. -/
def decideEqList : (left right : List TypeSymbol) → Decidable (left = right)
  | [], [] => isTrue rfl
  | [], _ :: _ => isFalse (by simp)
  | _ :: _, [] => isFalse (by simp)
  | first :: rest, first' :: rest' =>
    match decideEq first first' with
    | isTrue firsts =>
      match decideEqList rest rest' with
      | isTrue rests => isTrue (by simp [firsts, rests])
      | isFalse rests => isFalse (by simp [rests])
    | isFalse firsts => isFalse (by simp [firsts])

end

instance : DecidableEq TypeSymbol := decideEq

/-- A name in a container; the empty container adds no dot. -/
def qualify (container name : String) : String :=
  if container.isEmpty then name else container ++ "." ++ name

/-- A class with an empty name. -/
def empty : TypeSymbol := ⟨"", "", .class, .none, [], none, false⟩

/-- A named type, which is special if its full name is. -/
def named (container name : String) (kind : TypeKind) : TypeSymbol :=
  { empty with
    name := name
    container := container
    kind := kind
    special := .ofFullName (qualify container name) }

/-- The array type over an element type. -/
def arrayOf (element : TypeSymbol) : TypeSymbol :=
  { empty with name := "Array", container := "System", kind := .array, elementType := some element }

def typeParameter (name : String) : TypeSymbol :=
  { empty with name := name, kind := .typeParameter }

/-- The type of the literal `null`. -/
def nullLiteral : TypeSymbol := { empty with name := "<null>", kind := .null }

/-- The type of what could not be resolved. -/
def unknown : TypeSymbol := { empty with name := "?", kind := .error }

/-- Container and name. -/
def fullName (type : TypeSymbol) : String := qualify type.container type.name

/-- The number of type arguments. -/
def arity (type : TypeSymbol) : Nat := type.typeArguments.length

def isArray (type : TypeSymbol) : Bool := type.kind == .array

/-- The type is a value type that has `null` added to it. -/
def isNullableValueType (type : TypeSymbol) : Bool := type.special == .nullable

/-- The type is a structure or an enumeration. -/
def isValueType (type : TypeSymbol) : Bool := type.kind == .struct || type.kind == .enum

/-- The type is a value type without `null`. -/
def isNonNullableValueType (type : TypeSymbol) : Bool :=
  type.isValueType && !type.isNullableValueType

/-- Values of the type are references. -/
def isReferenceType (type : TypeSymbol) : Bool :=
  match type.kind with
  | .interface | .array | .delegate | .class => true
  | _ => false

/-- The type could not be resolved. -/
def isUnknown (type : TypeSymbol) : Bool := type.kind == .error

/-- Both types come from one declaration, whatever their type arguments. -/
def sameDefinition (left right : TypeSymbol) : Bool :=
  left.kind == right.kind && left.name == right.name && left.container == right.container &&
    left.arity == right.arity

mutual

/-- The type as it is shown in messages and written in casts. -/
def display : TypeSymbol → String
  | ⟨name, _, _, special, typeArguments, elementType, _⟩ =>
    match elementType with
    | some element => element.display ++ "[]"
    | none =>
      match typeArguments with
      | [] => special.keyword?.getD name
      | first :: rest =>
        if special = .nullable then
          first.display ++ "?"
        else
          match special.keyword? with
          | some keyword => keyword
          | none => name ++ "<" ++ first.display ++ displayFollowing rest ++ ">"

/-- The types with a comma in front of each. -/
def displayFollowing : List TypeSymbol → String
  | [] => ""
  | type :: rest => ", " ++ type.display ++ displayFollowing rest

end

/-- A line that says what is known about a type. -/
def summary (type : TypeSymbol) : String :=
  type.display ++ " | " ++ type.fullName ++ " | " ++ type.kind.name ++
    (if type.isRefLike then " | ref" else "")

end TypeSymbol

end AssertionLint
