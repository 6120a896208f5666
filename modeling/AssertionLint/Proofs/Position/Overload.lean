import AssertionLint.Binding.Scope
import AssertionLint.Proofs.Position.TypeTable

/-!
# Scopes, members and calls behind a text

From a position of a document the same types, locals and parameters can be seen once a text stands
in front of it. A name stands for the same methods, and a call resolves to the same one
(`TypeTable.resolveOverload?_behind`).
-/

namespace AssertionLint

variable (front : String)

@[simp]
theorem Span.encloses_behind (span : Span) (offset : Nat) :
    (span.behind front).encloses (Text.behind front offset) = span.encloses offset := by
  simp [encloses]

namespace Declarations

variable (declarations : Declarations) (offset : Nat)

@[simp]
theorem bodiesAround_behind :
    (declarations.behind front).bodiesAround (Text.behind front offset) =
      (declarations.bodiesAround offset).map (BodyScope.behind front) := by
  simp [bodiesAround, List.filter_map, Function.comp_def]

@[simp]
theorem enclosingTypes_behind :
    (declarations.behind front).enclosingTypes (Text.behind front offset) =
      declarations.enclosingTypes offset := by
  have sorted (types : List (TypeDecl × Nat)) :
      (types.map (Prod.map (TypeDecl.behind front) id)).mergeSort
          (fun left right => right.1.span.start ≤ left.1.span.start) =
        (types.mergeSort fun left right => right.1.span.start ≤ left.1.span.start).map
          (Prod.map (TypeDecl.behind front) id) := by
    symm
    apply List.map_mergeSort
    intro left _ right _
    simp
  simp only [enclosingTypes, behind_types, List.zipIdx_map, List.filter_map, sorted, List.map_map]
  simp [Function.comp_def]

@[simp]
theorem typeScopeAt_behind :
    (declarations.behind front).typeScopeAt (Text.behind front offset) =
      declarations.typeScopeAt offset := by
  cases enclosing : (declarations.enclosingTypes offset).head? with
  | none => simp [typeScopeAt, enclosing, List.flatMap_map]
  | some index => simp [typeScopeAt, enclosing, List.flatMap_map, Function.comp_def]

theorem laterLocal_behind (first : Option LocalDecl) (second : LocalDecl) :
    laterLocal (first.map (LocalDecl.behind front)) (second.behind front) =
      (laterLocal first second).map (LocalDecl.behind front) := by
  cases first with
  | none => rfl
  | some first =>
    simp only [laterLocal, Option.map_some, LocalDecl.behind_visibleFrom, Text.behind_lt_behind]
    split <;> rfl

@[simp]
theorem visibleLocal?_behind (name : String) :
    (declarations.behind front).visibleLocal? name (Text.behind front offset) =
      (declarations.visibleLocal? name offset).map (LocalDecl.behind front) := by
  simp only [visibleLocal?, behind_locals, List.filter_map, List.foldl_map, Function.comp_def,
    LocalDecl.behind_name, LocalDecl.behind_scope, LocalDecl.behind_visibleFrom,
    Span.encloses_behind, Text.behind_le_behind]
  generalize declarations.locals.filter _ = found
  change found.foldl _ (Option.map (LocalDecl.behind front) none) = _
  apply List.foldl_hom (Option.map (LocalDecl.behind front))
  exact laterLocal_behind front

@[simp]
theorem visibleParameter?_behind (name : String) :
    (declarations.behind front).visibleParameter? name (Text.behind front offset) =
      (declarations.visibleParameter? name offset).map (ParameterDecl.behind front) := by
  have sorted (bodies : List BodyScope) :
      (bodies.map (BodyScope.behind front)).mergeSort
          (fun left right => right.span.start ≤ left.span.start) =
        (bodies.mergeSort fun left right => right.span.start ≤ left.span.start).map
          (BodyScope.behind front) := by
    symm
    apply List.map_mergeSort
    intro left _ right _
    simp
  simp [visibleParameter?, sorted, List.findSome?_map, List.map_findSome?, Function.comp_def]

end Declarations

namespace MethodDecl

variable (parameters : List ParameterDecl) (expanded : Option Nat)

@[simp]
theorem parameterIndex?_behind (position : Nat) (label : Option String) :
    parameterIndex? (parameters.map (ParameterDecl.behind front)) expanded position label =
      parameterIndex? parameters expanded position label := by
  cases label <;> simp [parameterIndex?, List.findIdx?_map, Function.comp_def]

theorem assignFrom?_behind (position : Nat) (taken : List Nat) (labels : List (Option String)) :
    assignFrom? (parameters.map (ParameterDecl.behind front)) expanded position taken labels =
      assignFrom? parameters expanded position taken labels := by
  induction labels generalizing position taken with
  | nil => rfl
  | cons label rest ih => simp only [assignFrom?, parameterIndex?_behind, ih]

@[simp]
theorem unassigned_behind (assigned : List Nat) :
    unassigned (parameters.map (ParameterDecl.behind front)) expanded assigned =
      (unassigned parameters expanded assigned).map (ParameterDecl.behind front) := by
  simp [unassigned, List.zipIdx_map, List.filter_map, Function.comp_def]

@[simp]
theorem assign?_behind (labels : List (Option String)) :
    assign? (parameters.map (ParameterDecl.behind front)) expanded labels =
      assign? parameters expanded labels := by
  simp [assign?, assignFrom?_behind, Function.comp_def]

@[simp]
theorem paramsIndex?_behind (method : MethodDecl) :
    (method.behind front).paramsIndex? = method.paramsIndex? := by
  simp [paramsIndex?, List.findIdx?_map, Function.comp_def]

end MethodDecl

/-- The same argument once a text stands in front of the source. -/
@[simps]
def ArgumentSlot.behind (slot : ArgumentSlot) : ArgumentSlot where
  label := slot.label
  expr := slot.expr.map (Expr.behind front)
  type := slot.type

/-- The same candidate once a text stands in front of the source. -/
def MethodCandidate.behind (candidate : MethodCandidate) : MethodCandidate :=
  { candidate with method := candidate.method.behind (candidate.id.origin.front front) }

section

variable (candidate : MethodCandidate)

@[simp]
theorem MethodCandidate.behind_owner : (candidate.behind front).owner = candidate.owner := rfl

@[simp]
theorem MethodCandidate.behind_id : (candidate.behind front).id = candidate.id := rfl

@[simp]
theorem MethodCandidate.behind_place : (candidate.behind front).place = candidate.place := rfl

@[simp]
theorem MethodCandidate.behind_method :
    (candidate.behind front).method =
      candidate.method.behind (candidate.id.origin.front front) := rfl

@[simp]
theorem MethodCandidate.behind_isReduced :
    (candidate.behind front).isReduced = candidate.isReduced := rfl

end

/-- The same methods once a text stands in front of the source. -/
@[simps]
def MethodGroup.behind (group : MethodGroup) : MethodGroup where
  receiver := group.receiver
  typeArguments := group.typeArguments
  candidates := group.candidates.map (MethodCandidate.behind front)
  extensions := group.extensions.map (MethodCandidate.behind front)

namespace Bound

/-- The same binding once a text stands in front of the source. -/
def behind : Bound → Bound
  | methods group => methods (group.behind front)
  | bound => bound

@[simp]
theorem behind_value (type : TypeSymbol) (symbol : Option Symbol) :
    (value type symbol).behind front = value type symbol := rfl

@[simp]
theorem behind_typeReference (type : TypeSymbol) :
    (typeReference type).behind front = typeReference type := rfl

@[simp]
theorem behind_namespaceReference (path : String) :
    (namespaceReference path).behind front = namespaceReference path := rfl

@[simp]
theorem behind_methods (group : MethodGroup) :
    (methods group).behind front = methods (group.behind front) := rfl

@[simp]
theorem behind_unknown : unknown.behind front = unknown := rfl

@[simp]
theorem behind_ofType? (type : Option TypeSymbol) : (ofType? type).behind front = ofType? type := by
  cases type <;> rfl

variable (bound : Bound)

@[simp]
theorem type?_behind : (bound.behind front).type? = bound.type? := by
  cases bound <;> rfl

@[simp]
theorem knownType?_behind : (bound.behind front).knownType? = bound.knownType? := by
  simp [knownType?]

@[simp]
theorem symbol?_behind : (bound.behind front).symbol? = bound.symbol? := by
  cases bound <;> rfl

@[simp]
theorem known?_behind : (bound.behind front).known? = bound.known?.map (behind front) := by
  cases bound <;> rfl

end Bound

namespace TypeTable

/-- The same owner once a text stands in front of the source. -/
def MemberOwner.behind (owner : MemberOwner) : MemberOwner :=
  { owner with declaration := owner.declaration.behind (owner.id.origin.front front) }

section

variable (owner : MemberOwner)

@[simp]
theorem MemberOwner.behind_symbol : (owner.behind front).symbol = owner.symbol := rfl

@[simp]
theorem MemberOwner.behind_id : (owner.behind front).id = owner.id := rfl

@[simp]
theorem MemberOwner.behind_declaration :
    (owner.behind front).declaration =
      owner.declaration.behind (owner.id.origin.front front) := rfl

end

variable (table : TypeTable)

@[simp]
theorem declaredSupertypes_behind (type : TypeSymbol) :
    (table.behind front).declaredSupertypes type =
      (table.declaredSupertypes type).map (MemberOwner.behind front) := by
  simp only [declaredSupertypes, supertypes_behind, idOf?_behind, decl?_behind, List.map_filterMap]
  apply List.filterMap_congr
  intro owner _
  cases table.idOf? owner with
  | none => rfl
  | some id => cases declared : table.decl? id <;> simp [declared, MemberOwner.behind]

@[simp]
theorem memberOwners_behind (type : TypeSymbol) :
    (table.behind front).memberOwners type =
      (table.memberOwners type).map (MemberOwner.behind front) := by
  simp [memberOwners, List.filter_map, Function.comp_def]

@[simp]
theorem memberType_behind (owner : MemberOwner) (written : TypeExpr) (other : String) :
    (table.behind front).memberType (owner.behind front) (written.behind other) =
      table.memberType owner written := by
  simp [memberType]

@[simp]
theorem memberValue?_behind (owner : MemberOwner) (name : String) :
    (table.behind front).memberValue? (owner.behind front) name =
      table.memberValue? owner name := by
  simp only [memberValue?, MemberOwner.behind_declaration, TypeDecl.behind_properties,
    TypeDecl.behind_fields, List.find?_map, Function.comp_def, PropertyDecl.behind_name,
    FieldDecl.behind_name]
  cases owner.declaration.properties.find? (·.name == name) with
  | none => simp [Function.comp_def]
  | some property => simp

/-- A property or a field is a value, so nothing in it moves. -/
theorem behind_of_memberValue? (owner : MemberOwner) (name : String) {bound : Bound}
    (found : table.memberValue? owner name = some bound) : bound.behind front = bound := by
  unfold memberValue? at found
  split at found
  · cases found
    rfl
  · rcases Option.map_eq_some_iff.mp found with ⟨field, _, rfl⟩
    rfl

theorem methodsOf_behind (owner : MemberOwner) {test : MethodDecl → Bool}
    (same : ∀ other method, test (MethodDecl.behind other method) = test method) :
    methodsOf (owner.behind front) test =
      (methodsOf owner test).map (MethodCandidate.behind front) := by
  simp [methodsOf, List.zipIdx_map, List.filter_map, Function.comp_def, same,
    MethodCandidate.behind]

@[simp]
theorem memberMethods_behind (owner : MemberOwner) (name : String) :
    memberMethods (owner.behind front) name =
      (memberMethods owner name).map (MethodCandidate.behind front) :=
  methodsOf_behind front owner fun _ _ => rfl

@[simp]
theorem declares_behind (owner : MemberOwner) (name : String) :
    declares (owner.behind front) name = declares owner name := by
  simp [declares, Function.comp_def]

@[simp]
theorem extensionMethods_behind (scope : TypeScope) (name : String) :
    (table.behind front).extensionMethods scope name =
      (table.extensionMethods scope name).map (MethodCandidate.behind front) := by
  simp only [extensionMethods, extensionHolders_behind, decl?_behind, List.map_flatMap]
  apply List.flatMap_congr
  intro id _
  cases table.decl? id with
  | none => rfl
  | some declaration =>
    let owner : MemberOwner := ⟨table.symbolOf id [], id, declaration⟩
    have owned : methodsOf (owner.behind front)
          (fun method => method.isExtension && method.name == name) =
        (methodsOf owner fun method => method.isExtension && method.name == name).map
          (MethodCandidate.behind front) := methodsOf_behind front owner (by simp)
    simp only [MemberOwner.behind, owner] at owned
    simp only [Option.map_some, symbolOf_behind, owned, List.map_map]
    rfl

@[simp]
theorem writtenArguments_behind (scope : TypeScope) (name : SimpleName) :
    (table.behind front).writtenArguments scope (name.behind front) =
      table.writtenArguments scope name := by
  cases typeArguments : name.typeArguments <;> simp [writtenArguments, typeArguments]

/-- A name on a type stands for the same wherever it is written. -/
@[simp]
theorem member_behind (scope : TypeScope) (type : TypeSymbol) (name : SimpleName)
    (receiver : Option TypeSymbol) :
    (table.behind front).member scope type (name.behind front) receiver =
      (table.member scope type name receiver).behind front := by
  have nearest : ((table.memberOwners type).map (MemberOwner.behind front)).find?
        (declares · name.identifier) =
      ((table.memberOwners type).find? (declares · name.identifier)).map
        (MemberOwner.behind front) := by
    simp only [List.find?_map, Function.comp_def, declares_behind]
  have value : (((table.memberOwners type).find? (declares · name.identifier)).map
        (MemberOwner.behind front)).bind ((table.behind front).memberValue? · name.identifier) =
      ((table.memberOwners type).find? (declares · name.identifier)).bind
        (table.memberValue? · name.identifier) := by
    simp only [Option.bind_map, Function.comp_def, memberValue?_behind]
  simp only [member, memberOwners_behind, SimpleName.identifier_behind,
    SimpleName.typeArguments_behind, Option.isNone_map, nearest, value, extensionMethods_behind,
    List.flatMap_map, memberMethods_behind, ← List.map_flatMap, writtenArguments_behind]
  -- methods are collected only where no property or field is found
  cases isFound : (if name.typeArguments.isNone = true then
      ((table.memberOwners type).find? (declares · name.identifier)).bind
        (table.memberValue? · name.identifier)
    else none) with
  | some bound =>
    have isValue : bound.behind front = bound := by
      split at isFound
      · rcases Option.bind_eq_some_iff.mp isFound with ⟨owner, _, holds⟩
        exact behind_of_memberValue? front table owner name.identifier holds
      · cases isFound
    exact isValue.symm
  | none =>
    have offered (candidates extensions : List MethodCandidate) :
        (if (candidates.map (MethodCandidate.behind front)).isEmpty &&
              (extensions.map (MethodCandidate.behind front)).isEmpty then Bound.unknown
          else .methods ⟨receiver, table.writtenArguments scope name,
            candidates.map (MethodCandidate.behind front),
            extensions.map (MethodCandidate.behind front)⟩) =
        (if candidates.isEmpty && extensions.isEmpty then Bound.unknown
          else .methods ⟨receiver, table.writtenArguments scope name, candidates,
            extensions⟩).behind front := by
      simp only [List.isEmpty_map]
      split <;> rfl
    cases receiver with
    | none => exact offered _ []
    | some receiver =>
      by_cases unknown : receiver.isUnknown = true
      · simp only [unknown, if_true]
        exact offered _ []
      · simp only [unknown, Bool.false_eq_true, if_false]
        exact offered _ _

theorem addCandidates_behind (found candidates : List MethodCandidate) :
    addCandidates (found.map (MethodCandidate.behind front))
        (candidates.map (MethodCandidate.behind front)) =
      (addCandidates found candidates).map (MethodCandidate.behind front) := by
  unfold addCandidates
  rw [List.foldl_map]
  apply List.foldl_hom (List.map (MethodCandidate.behind front))
  intro found candidate
  simp only [List.any_map, Function.comp_def, MethodCandidate.behind_id,
    MethodCandidate.behind_place]
  split <;> simp

@[simp]
theorem operatorMethods_behind (token : String) (operands : List TypeSymbol) :
    (table.behind front).operatorMethods token operands =
      (table.operatorMethods token operands).map (MethodCandidate.behind front) := by
  have declared (type : TypeSymbol) :
      ((table.behind front).declaredSupertypes type).flatMap (fun owner =>
          methodsOf owner fun method => method.kind == .operator && method.name == token &&
            method.parameters.length == operands.length) =
        ((table.declaredSupertypes type).flatMap fun owner =>
          methodsOf owner fun method => method.kind == .operator && method.name == token &&
            method.parameters.length == operands.length).map (MethodCandidate.behind front) := by
    rw [declaredSupertypes_behind, List.flatMap_map, List.map_flatMap]
    apply List.flatMap_congr
    intro owner _
    exact methodsOf_behind front owner (by simp)
  simp only [operatorMethods, declared]
  generalize operands.filter _ = types
  change types.foldl _ (List.map (MethodCandidate.behind front) []) = _
  apply List.foldl_hom (List.map (MethodCandidate.behind front))
  intro found type
  exact addCandidates_behind front found _

@[simp]
theorem slotConverts_behind (slot : ArgumentSlot) (target : TypeSymbol) :
    (table.behind front).slotConverts (slot.behind front) target =
      table.slotConverts slot target := by
  rcases slot with ⟨label, _ | expr, type⟩ <;> cases type <;>
    simp [slotConverts, ArgumentSlot.behind]

@[simp]
theorem signature_behind (candidate : MethodCandidate) :
    (table.behind front).signature (candidate.behind front) = table.signature candidate := by
  simp [signature, Function.comp_def]

@[simp]
theorem callSubstitution?_behind (names : List String) (explicit : List TypeSymbol)
    (slots : List ArgumentSlot) (targets : List TypeSymbol) :
    (table.behind front).callSubstitution? names explicit
        (slots.map (ArgumentSlot.behind front)) targets =
      table.callSubstitution? names explicit slots targets := by
  simp [callSubstitution?, Function.comp_def]

@[simp]
theorem applicableIn?_behind (candidate : MethodCandidate) (slots : List ArgumentSlot)
    (explicit : List TypeSymbol) (expanded : Option Nat) :
    (table.behind front).applicableIn? (candidate.behind front)
        (slots.map (ArgumentSlot.behind front)) explicit expanded =
      table.applicableIn? candidate slots explicit expanded := by
  unfold applicableIn?
  dsimp only
  simp only [signature_behind, MethodCandidate.behind_method, MethodDecl.behind_parameters,
    MethodDecl.behind_typeParameters, List.map_map, Function.comp_def, ArgumentSlot.behind_label,
    MethodDecl.assign?_behind, callSubstitution?_behind, List.zip_map_left, List.all_map,
    Prod.map_fst, Prod.map_snd, id, slotConverts_behind, MethodDecl.unassigned_behind,
    List.isEmpty_map, ParameterDecl.behind_name, ParameterDecl.behind_isParams,
    ParameterDecl.behind_isOptional]

@[simp]
theorem applicable?_behind (slots : List ArgumentSlot) (explicit : List TypeSymbol)
    (candidate : MethodCandidate) :
    (table.behind front).applicable? (slots.map (ArgumentSlot.behind front)) explicit
        (candidate.behind front) =
      table.applicable? slots explicit candidate := by
  simp [applicable?]

@[simp]
theorem betterTarget_behind (source : Option TypeSymbol) (first second : TypeSymbol) :
    (table.behind front).betterTarget source first second =
      table.betterTarget source first second := by
  simp [betterTarget]

@[simp]
theorem isBetter_behind (slots : List ArgumentSlot) (left right : ApplicableMethod) :
    (table.behind front).isBetter (slots.map (ArgumentSlot.behind front)) left right =
      table.isBetter slots left right := by
  unfold isBetter
  dsimp only
  simp only [List.zip_map_left, List.any_map, Function.comp_def, betterTarget_behind, Prod.map_fst,
    Prod.map_snd, id, ArgumentSlot.behind_type]

theorem applicableMethods_behind (slots : List ArgumentSlot) (explicit : List TypeSymbol)
    (candidates : List MethodCandidate) :
    (table.behind front).applicableMethods (slots.map (ArgumentSlot.behind front)) explicit
        (candidates.map (MethodCandidate.behind front)) =
      (table.applicableMethods slots explicit candidates).map
        (Prod.map (MethodCandidate.behind front) id) := by
  unfold applicableMethods
  rw [List.foldl_map]
  change candidates.foldl _ (List.map (Prod.map (MethodCandidate.behind front) id) []) = _
  apply List.foldl_hom (List.map (Prod.map (MethodCandidate.behind front) id))
  intro kept candidate
  rw [applicable?_behind]
  cases table.applicable? slots explicit candidate with
  | none => rfl
  | some found =>
    simp only [List.any_map, Function.comp_def, Prod.map_snd, id]
    split <;> simp

theorem best?_behind (slots : List ArgumentSlot)
    (methods : List (MethodCandidate × ApplicableMethod)) :
    (table.behind front).best? (slots.map (ArgumentSlot.behind front))
        (methods.map (Prod.map (MethodCandidate.behind front) id)) =
      (table.best? slots methods).map (Prod.map (MethodCandidate.behind front) id) := by
  simp [best?, List.zipIdx_map, List.find?_map, List.all_map, Function.comp_def]

@[simp]
theorem methodSymbol_behind (candidate : MethodCandidate) (applicable : ApplicableMethod) :
    methodSymbol (candidate.behind front) applicable = methodSymbol candidate applicable := by
  simp [methodSymbol]

@[simp]
theorem resolveAmong?_behind (candidates : List MethodCandidate) (slots : List ArgumentSlot)
    (explicit : List TypeSymbol) :
    (table.behind front).resolveAmong? (candidates.map (MethodCandidate.behind front))
        (slots.map (ArgumentSlot.behind front)) explicit =
      table.resolveAmong? candidates slots explicit := by
  simp [resolveAmong?, applicableMethods_behind, best?_behind, Function.comp_def]

/-- A call resolves to the same method wherever it is written. -/
@[simp]
theorem resolveOverload?_behind (group : MethodGroup) (slots : List ArgumentSlot) :
    (table.behind front).resolveOverload? (group.behind front)
        (slots.map (ArgumentSlot.behind front)) =
      table.resolveOverload? group slots := by
  have receiver (type : TypeSymbol) :
      ⟨none, none, some type⟩ :: slots.map (ArgumentSlot.behind front) =
        (⟨none, none, some type⟩ :: slots).map (ArgumentSlot.behind front) := rfl
  simp only [resolveOverload?, MethodGroup.behind_candidates, MethodGroup.behind_typeArguments,
    MethodGroup.behind_receiver, MethodGroup.behind_extensions, resolveAmong?_behind]
  cases group.receiver with
  | none => rfl
  | some type => simp only [receiver, resolveAmong?_behind]

end TypeTable

end AssertionLint
