import AssertionLint.Binding.ArgumentMapping
import AssertionLint.Binding.Bound
import AssertionLint.Binding.Inference
import AssertionLint.TypeTable.ExprConversion

/-!
# Overload resolution

Which method of a group a call resolves to. A method is applicable if each argument has a parameter
and converts to its type, in normal form or else in expanded form. Of several applicable methods
the call resolves to the one that is better than all others, if there is one.
-/

namespace AssertionLint

/-- A method with the type arguments of a call it is applicable to. -/
structure ApplicableMethod where
  parameters : List ParameterSymbol
  /-- The type that each argument converts to. -/
  targets : List TypeSymbol
  returnType : TypeSymbol
  typeArguments : List TypeSymbol
  isExpanded : Bool
  isGeneric : Bool
  /-- A parameter takes its default value. -/
  usesDefaults : Bool
  deriving Inhabited

/-- The parameters have the same types, and the same ones take any number of arguments. -/
def ApplicableMethod.sameSignature (left right : ApplicableMethod) : Bool :=
  left.parameters.map (fun parameter => (parameter.type, parameter.isParams)) ==
    right.parameters.map (fun parameter => (parameter.type, parameter.isParams))

namespace TypeTable

/-- An argument converts to a type. Arguments of unknown type do, and so does any argument where
the type is unknown; a receiver must not change its value. -/
def slotConverts (table : TypeTable) (slot : ArgumentSlot) (target : TypeSymbol) : Bool :=
  match slot.type with
  | none => true
  | some type =>
    target.isUnknown ||
      match slot.expr with
      | some expr => (table.exprConversion expr type target).exists
      | none =>
        match table.standardConversion type target with
        | .identity | .implicitReference | .boxing => true
        | _ => false

/-- The types of the parameters and of the result of a method as its owner sees them. -/
def signature (table : TypeTable) (candidate : MethodCandidate) :
    List TypeSymbol × TypeSymbol :=
  let scope := table.memberScope candidate.id
  let scope :=
    { scope with typeParameters := scope.typeParameters ++ candidate.method.typeParameters }
  let seen (type : TypeExpr) : TypeSymbol :=
    (table.resolve scope type).substitute (table.substitution candidate.id candidate.owner)
  (candidate.method.parameters.map fun parameter => (parameter.type.map seen).getD .unknown,
    seen candidate.method.returnType)

/-- The type arguments of a call: those written, or else those inferred. Where the type of an
argument is unknown, type parameters that nothing was inferred for are unknown too. -/
def callSubstitution? (table : TypeTable) (names : List String) (explicit : List TypeSymbol)
    (slots : List ArgumentSlot) (targets : List TypeSymbol) : Option Substitution :=
  let inferred :=
    if explicit.isEmpty then
      table.inferArguments names .empty ((slots.map (·.type)).zip targets)
    else
      .ofLists names explicit
  if slots.any (·.type.isNone) then
    some (names.foldl (fun inferred name => inferred.insertNew name .unknown) inferred)
  else if names.all fun name => (inferred.find? name).isSome then some inferred
  else none

/-- A method in one form, if it is applicable to a call in this form. -/
def applicableIn? (table : TypeTable) (candidate : MethodCandidate) (slots : List ArgumentSlot)
    (explicit : List TypeSymbol) (expanded : Option Nat) : Option ApplicableMethod := do
  let method := candidate.method
  let assigned ← MethodDecl.assign? method.parameters expanded (slots.map (·.label))
  let (types, returnType) := table.signature candidate
  let written := assigned.map (MethodDecl.targetType types expanded)
  let inferred ← table.callSubstitution? method.typeParameters explicit slots written
  let targets := written.map (·.substitute inferred)
  if (slots.zip targets).all fun (slot, target) => table.slotConverts slot target then
    some
      { targets
        parameters := (method.parameters.zip types).map fun (parameter, type) =>
          ⟨parameter.name, type.substitute inferred, parameter.isParams, parameter.isOptional⟩
        returnType := returnType.substitute inferred
        typeArguments := method.typeParameters.map fun name =>
          (inferred.find? name).getD .unknown
        isExpanded := expanded.isSome
        isGeneric := !method.typeParameters.isEmpty
        usesDefaults := !(MethodDecl.unassigned method.parameters expanded assigned).isEmpty }
  else
    none

/-- A method that is applicable to a call, in normal form if that is possible. -/
def applicable? (table : TypeTable) (slots : List ArgumentSlot) (explicit : List TypeSymbol)
    (candidate : MethodCandidate) : Option ApplicableMethod :=
  if !explicit.isEmpty && explicit.length != candidate.method.typeParameters.length then none
  else
    table.applicableIn? candidate slots explicit none <|>
      match candidate.method.paramsIndex? with
      | some index => table.applicableIn? candidate slots explicit (some index)
      | none => none

/-- Converting a value of the given type to the first type is better than to the second. -/
def betterTarget (table : TypeTable) (source : Option TypeSymbol) (first second : TypeSymbol) :
    Bool :=
  first != second &&
    match source with
    | none => false
    | some source =>
      source == first ||
        -- no other target is better than the argument's own type
        (source != second &&
          let forth := (table.standardConversion first second).exists
          let back := (table.standardConversion second first).exists
          if forth != back then forth
          else first.special.isSigned && second.special.isUnsigned)

/-- The first method is better for a call than the second: its targets are, or if neither has
better ones, the first of expansion, type parameters and default values that tells them apart. -/
def isBetter (table : TypeTable) (slots : List ArgumentSlot) (left right : ApplicableMethod) :
    Bool :=
  let targets := slots.zip (left.targets.zip right.targets)
  let leftBetter := targets.any fun (slot, first, second) =>
    table.betterTarget slot.type first second
  let rightBetter := targets.any fun (slot, first, second) =>
    table.betterTarget slot.type second first
  -- better for one argument and worse for another one is not better
  if leftBetter || rightBetter then leftBetter && !rightBetter
  else if left.isExpanded != right.isExpanded then !left.isExpanded
  else if left.isGeneric != right.isGeneric then !left.isGeneric
  else if left.usesDefaults != right.usesDefaults then !left.usesDefaults
  else false

/-- The applicable methods; of several with one signature the first one stays. -/
def applicableMethods (table : TypeTable) (slots : List ArgumentSlot)
    (explicit : List TypeSymbol) (candidates : List MethodCandidate) :
    List (MethodCandidate × ApplicableMethod) :=
  candidates.foldl (fun kept candidate =>
    match table.applicable? slots explicit candidate with
    | none => kept
    | some found =>
      -- what a subtype overrides comes first, and hides the same signature further up
      if kept.any fun entry => entry.2.sameSignature found then kept
      else kept ++ [(candidate, found)]) []

/-- The method that is better than all others. -/
def best? (table : TypeTable) (slots : List ArgumentSlot)
    (methods : List (MethodCandidate × ApplicableMethod)) :
    Option (MethodCandidate × ApplicableMethod) :=
  (methods.zipIdx.find? fun (entry, index) =>
    methods.zipIdx.all fun (other, position) =>
      position == index || table.isBetter slots entry.2 other.2).map (·.1)

/-- The symbol of a method as it is called; a receiver takes the place of a parameter. -/
def methodSymbol (candidate : MethodCandidate) (applicable : ApplicableMethod) : MethodSymbol :=
  { name := candidate.method.name
    containingType := candidate.owner
    parameters :=
      if candidate.isReduced then applicable.parameters.drop 1 else applicable.parameters
    returnType := applicable.returnType
    typeArguments := applicable.typeArguments
    isStatic := candidate.method.isStatic
    isExtension := candidate.method.isExtension
    isReducedExtension := candidate.isReduced }

/-- The method that a call resolves to among several. -/
def resolveAmong? (table : TypeTable) (candidates : List MethodCandidate)
    (slots : List ArgumentSlot) (explicit : List TypeSymbol) : Option MethodSymbol :=
  (table.best? slots (table.applicableMethods slots explicit candidates)).map fun
    (candidate, applicable) => methodSymbol candidate applicable

/-- The method of a group that a call resolves to; extensions take the receiver as their first
argument. -/
def resolveOverload? (table : TypeTable) (group : MethodGroup) (slots : List ArgumentSlot) :
    Option MethodSymbol :=
  table.resolveAmong? group.candidates slots group.typeArguments <|>
    match group.receiver with
    | none => none
    | some receiver =>
      table.resolveAmong? group.extensions (⟨none, none, some receiver⟩ :: slots)
        group.typeArguments

end TypeTable

end AssertionLint
