import AssertionLint.TypeTable.Resolve
import AssertionLint.TypeTable.Substitution

/-!
# Supertypes

The classes and interfaces that a type derives from. The closure is searched round by round, the
nearest types first; declarations may be cyclic or grow without end, so the search stops at a fixed
number of types.
-/

namespace AssertionLint.TypeTable

/-- The largest number of types in a closure. -/
def maxSupertypes : Nat := 128

/-- The interfaces that an array implements over its element type. -/
def arrayInterfaces : List String :=
  ["System.Collections.Generic.IList", "System.Collections.Generic.ICollection",
    "System.Collections.Generic.IEnumerable", "System.Collections.Generic.IReadOnlyCollection"]

/-- The written bases of a declared type, as far as they can be resolved. -/
def declaredBases (table : TypeTable) (id : TypeId) (type : TypeDecl) (symbol : TypeSymbol) :
    List TypeSymbol :=
  ((table.resolveAll (table.memberScope id) type.bases).map
    (·.substitute (table.substitution id symbol))).filter (!·.isUnknown)

/-- The bases of a type: those that are written and the one that its kind implies. -/
def directSupertypes (table : TypeTable) (symbol : TypeSymbol) : List TypeSymbol :=
  match symbol.kind with
  | .array =>
    table.wellKnown "System.Array" :: arrayInterfaces.map fun name =>
      table.constructed name [symbol.elementType.getD .unknown]
  | .typeParameter => [table.object]
  | .null | .error | .void => []
  | _ =>
    match table.idOf? symbol with
    | none => []
    | some id =>
      match table.decl? id with
      | none => []
      | some type =>
        let bases := table.declaredBases id type symbol
        match type.kind with
        | .class =>
          if bases.any (·.kind == .class) || symbol.special == .object then bases
          else table.object :: bases
        | .struct => table.special .valueType :: bases
        | .enum => [table.wellKnown "System.Enum"]
        | .delegate => [table.wellKnown "System.Delegate"]
        | _ => bases

/-- Adds the types of one round to those found so far, and lists the types of the next round. -/
def visit (table : TypeTable) (seen : List TypeSymbol) :
    List TypeSymbol → List TypeSymbol × List TypeSymbol
  | [] => (seen, [])
  | type :: rest =>
    -- a type comes up again where declarations are cyclic or inherit it twice
    if maxSupertypes ≤ seen.length || seen.contains type then table.visit seen rest
    else
      let (reached, next) := table.visit (seen ++ [type]) rest
      (reached, table.directSupertypes type ++ next)

/-- The types found in at most `rounds` more rounds, starting with the given one. -/
def closure (table : TypeTable) :
    (rounds : Nat) → (seen round : List TypeSymbol) → List TypeSymbol
  | 0, seen, _ => seen
  | _ + 1, seen, [] => seen
  | rounds + 1, seen, type :: rest =>
    let (reached, next) := table.visit seen (type :: rest)
    table.closure rounds reached next

/-- A type followed by its base classes and interfaces, the nearest ones first. Each round but the
last finds a type, so there are no more rounds than types. -/
def supertypes (table : TypeTable) (symbol : TypeSymbol) : List TypeSymbol :=
  let reached := table.closure maxSupertypes [] [symbol]
  -- no interface declares it as a base, but the members of objects can be named on it
  if symbol.kind = .interface && !reached.contains table.object then reached ++ [table.object]
  else reached

/-- A type is the one with the given full name or derives from it. -/
def isDerivedFrom (table : TypeTable) (symbol : TypeSymbol) (fullName : String) : Bool :=
  (table.supertypes symbol).any fun type => type.fullName == fullName

/-- The type of the elements that a loop over a collection runs through. -/
def elementType (table : TypeTable) (collection : TypeSymbol) : TypeSymbol :=
  match collection.elementType with
  | some element => element
  | none =>
    if collection.special = .string then table.special .char
    else if collection.isUnknown then collection
    else
      (((table.supertypes collection).find? fun type =>
        type.fullName == "System.Collections.Generic.IEnumerable" && type.arity == 1).bind
          (·.typeArguments.head?)).getD table.object

end AssertionLint.TypeTable
