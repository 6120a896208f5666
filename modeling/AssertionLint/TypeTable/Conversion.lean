import AssertionLint.SemanticModel
import AssertionLint.TypeTable.Supertypes

/-!
# Conversions between types

Which implicit conversion leads from one type to another. A conversion between references follows
the supertypes of the source, element types of arrays and type arguments of a few interfaces; it
ends because the destination gets smaller with each step, however large the source becomes.
-/

namespace AssertionLint

namespace SpecialType

/-- The number types that values of a number type convert to. -/
def wider : SpecialType → List SpecialType
  | sbyte => [int16, int32, int64, single, double, decimal]
  | byte => [int16, uint16, int32, uint32, int64, uint64, single, double, decimal]
  | int16 => [int32, int64, single, double, decimal]
  | uint16 => [int32, uint32, int64, uint64, single, double, decimal]
  | int32 => [int64, single, double, decimal]
  | uint32 => [int64, uint64, single, double, decimal]
  | int64 | uint64 => [single, double, decimal]
  | char => [uint16, int32, uint32, int64, uint64, single, double, decimal]
  | single => [double]
  | _ => []

/-- Values of the first type convert to the second without losing their size. -/
def widensTo (source destination : SpecialType) : Bool := source.wider.contains destination

/-- Integers with negative values. -/
def isSigned (special : SpecialType) : Bool := [sbyte, int16, int32, int64].contains special

/-- Integers without negative values. -/
def isUnsigned (special : SpecialType) : Bool := [byte, uint16, uint32, uint64].contains special

end SpecialType

namespace TypeSymbol

/-- The value type that a nullable value type adds `null` to. -/
def underlying? (type : TypeSymbol) : Option TypeSymbol :=
  if type.isNullableValueType then type.typeArguments.head? else none

/-- The type without `null`. -/
def underlying (type : TypeSymbol) : TypeSymbol := type.underlying?.getD type

/-- A value type, perhaps with `null`, converts to a value type with `null`. -/
def convertsToNullable (source destination : TypeSymbol) : Bool :=
  match destination.underlying? with
  | some target =>
    source.underlying == target || source.underlying.special.widensTo target.special
  | none => false

/-- A type argument of the interface may be replaced by a supertype. -/
def isCovariant (type : TypeSymbol) : Bool :=
  ["System.Collections.Generic.IEnumerable",
    "System.Collections.Generic.IReadOnlyCollection"].contains type.fullName

end TypeSymbol

namespace TypeTable

/-- The conversion between two types unless it is one between references, if at all. -/
def valueConversion? (table : TypeTable) (source destination : TypeSymbol) : Option Conversion :=
  if source.isUnknown || destination.isUnknown then some .none
  else if source = destination then some .identity
  else if source.kind = .null then
    some (if destination.isReferenceType || destination.isNullableValueType then .nullLiteral
      else .none)
  else if source.special.widensTo destination.special then some .implicitNumeric
  else if source.convertsToNullable destination then some .implicitNullable
  else if source.isValueType || source.kind = .typeParameter then
    some (if (table.supertypes source).contains destination then .boxing else .none)
  else if source.isReferenceType then none
  else some .none

mutual

/-- A reference converts to another type. -/
def convertsByReference (table : TypeTable) (source : TypeSymbol) : TypeSymbol → Bool
  | ⟨name, container, kind, special, typeArguments, elementType, isRefLike⟩ =>
    let destination : TypeSymbol :=
      ⟨name, container, kind, special, typeArguments, elementType, isRefLike⟩
    (table.valueConversion? source destination).isNone &&
      match source.elementType, elementType with
      -- an array converts with its elements, but only if these are references
      | some element, some target => element = target || table.convertsByReference element target
      | _, _ =>
        (table.supertypes source).any fun supertype =>
          supertype = destination ||
            (supertype.isCovariant && supertype.sameDefinition destination &&
              table.argumentsConvert supertype.typeArguments typeArguments)

/-- Each type argument is the one at the same place or converts to it as a reference. -/
def argumentsConvert (table : TypeTable) (sources : List TypeSymbol) : List TypeSymbol → Bool
  | [] => true
  | target :: targets =>
    match sources with
    | [] => true
    | source :: sources =>
      (source = target || table.convertsByReference source target) &&
        table.argumentsConvert sources targets

end

/-- The conversion between two types without regard to operators that types declare. -/
def standardConversion (table : TypeTable) (source destination : TypeSymbol) : Conversion :=
  match table.valueConversion? source destination with
  | some conversion => conversion
  | none => if table.convertsByReference source destination then .implicitReference else .none

/-- The source and the target of each implicit conversion that a type or one of its supertypes
declares. -/
def implicitOperators (table : TypeTable) (type : TypeSymbol) : List (TypeSymbol × TypeSymbol) :=
  (table.supertypes type.underlying).flatMap fun owner =>
    match table.idOf? owner with
    | none => []
    | some id =>
      let declared := ((table.decl? id).map (·.conversions)).getD []
      let resolved (written : TypeExpr) : TypeSymbol :=
        (table.resolve (table.memberScope id) written).substitute (table.substitution id owner)
      (declared.filter (·.isImplicit)).map fun conversion =>
        (resolved conversion.source, resolved conversion.target)

/-- A declared conversion of one of the two types has standard conversions before and behind it. -/
def hasUserDefinedConversion (table : TypeTable) (source destination : TypeSymbol) : Bool :=
  !source.isUnknown && !destination.isUnknown && source.kind != .null &&
    (table.implicitOperators source ++ table.implicitOperators destination).any fun (first, last) =>
      (table.standardConversion source first).exists &&
        (table.standardConversion last destination).exists

def conversion (table : TypeTable) (source destination : TypeSymbol) : Conversion :=
  let standard := table.standardConversion source destination
  if standard.exists then standard
  else if table.hasUserDefinedConversion source destination then .userDefined
  else .none

end TypeTable

end AssertionLint
