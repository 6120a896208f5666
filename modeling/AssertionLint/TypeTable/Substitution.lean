import AssertionLint.TypeTable.Basic

/-!
# Substitutions

Type arguments put in the place of type parameters.
-/

namespace AssertionLint

/-- The types that stand for type parameters; of several for one name the first one counts. -/
structure Substitution where
  entries : List (String × TypeSymbol)
  deriving Inhabited

namespace Substitution

/-- Nothing stands for anything. -/
def empty : Substitution := ⟨[]⟩

/-- The type that stands for a type parameter. -/
def find? (substitution : Substitution) (name : String) : Option TypeSymbol :=
  (substitution.entries.find? fun entry => entry.1 == name).map (·.2)

/-- Lets a type stand for a type parameter. -/
def insert (substitution : Substitution) (name : String) (type : TypeSymbol) : Substitution :=
  ⟨(name, type) :: substitution.entries⟩

/-- Lets a type stand for a type parameter that nothing stands for yet. -/
def insertNew (substitution : Substitution) (name : String) (type : TypeSymbol) : Substitution :=
  if (substitution.find? name).isSome then substitution else substitution.insert name type

/-- Lets types stand for the type parameters at the same places. -/
def ofLists (names : List String) (types : List TypeSymbol) : Substitution :=
  (names.zip types).foldl (fun substitution (name, type) => substitution.insert name type) empty

end Substitution

namespace TypeSymbol

mutual

/-- Replaces type parameters in a type. -/
def substitute (substitution : Substitution) : TypeSymbol → TypeSymbol
  | ⟨name, container, kind, special, typeArguments, elementType, isRefLike⟩ =>
    if kind = .typeParameter then
      (substitution.find? name).getD
        ⟨name, container, kind, special, typeArguments, elementType, isRefLike⟩
    else
      ⟨name, container, kind, special, substituteAll substitution typeArguments,
        match elementType with
        | some element => some (element.substitute substitution)
        | none => none,
        isRefLike⟩

def substituteAll (substitution : Substitution) : List TypeSymbol → List TypeSymbol
  | [] => []
  | type :: rest => type.substitute substitution :: substituteAll substitution rest

end

end TypeSymbol

namespace TypeTable

/-- The type arguments of a type in the place of the type parameters of its declaration. -/
def substitution (table : TypeTable) (id : TypeId) (type : TypeSymbol) : Substitution :=
  .ofLists (table.memberScope id).typeParameters type.typeArguments

end TypeTable

end AssertionLint
