import AssertionLint.TypeTable.Supertypes

/-!
# Inference of type arguments

What the type parameters of a method stand for, found by comparing the types of its parameters with
the types of the arguments. The first argument that says something about a type parameter decides.
-/

namespace AssertionLint.TypeTable

mutual

/-- Compares the type of a parameter with the type of an argument. -/
def infer (table : TypeTable) (names : List String) (inferred : Substitution)
    (argument : TypeSymbol) : TypeSymbol → Substitution
  | ⟨name, container, kind, special, typeArguments, elementType, isRefLike⟩ =>
    let parameter : TypeSymbol :=
      ⟨name, container, kind, special, typeArguments, elementType, isRefLike⟩
    if argument.isUnknown || argument.kind = .null then inferred
    else if kind = .typeParameter then
      if names.contains name then inferred.insertNew name argument else inferred
    else
      match elementType, argument.elementType with
      | some element, some given => table.infer names inferred given element
      | _, _ =>
        match typeArguments with
        | [] => inferred
        | inner :: following =>
          -- `T?` is matched by a plain value as well, which then says what `T` is
          if parameter.isNullableValueType && !argument.isNullableValueType then
            table.infer names inferred argument inner
          else
            match (table.supertypes argument).find? (·.sameDefinition parameter) with
            | some supertype =>
              table.inferAll names inferred supertype.typeArguments (inner :: following)
            | none => inferred

def inferAll (table : TypeTable) (names : List String) (inferred : Substitution)
    (arguments : List TypeSymbol) : List TypeSymbol → Substitution
  | [] => inferred
  | parameter :: parameters =>
    match arguments with
    | [] => inferred
    | argument :: arguments =>
      table.inferAll names (table.infer names inferred argument parameter) arguments parameters

end

/-- Compares the target of each argument with the argument's type, where it is known. -/
def inferArguments (table : TypeTable) (names : List String) :
    Substitution → List (Option TypeSymbol × TypeSymbol) → Substitution
  | inferred, [] => inferred
  | inferred, (none, _) :: rest => table.inferArguments names inferred rest
  | inferred, (some argument, target) :: rest =>
    table.inferArguments names (table.infer names inferred argument target) rest

end AssertionLint.TypeTable
