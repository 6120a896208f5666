import AssertionLint.Proofs.Binding.CandidateOrder
import Mathlib.Data.List.Forall2

/-!
# The order of methods in a declaration

A call resolves to the same method in whatever order declarations list their methods if no two
methods of one declaration are applicable to it with the same signature
(`TypeTable.resolveOverload?_of_reorders`). Two methods with different parameters can have the same
signature once type arguments are inferred, and then the one that is written first is called, with
or without type parameters (`TypeTable.resolveOverload?_reversed_takingAnything`).
-/

namespace AssertionLint

/-- The declarations of a type differ at most in the order of their methods and in their places. -/
structure TypeDecl.Reorders (first second : TypeDecl) : Prop where
  skeleton : first.skeleton = second.skeleton
  methods : (first.methods.map MethodDecl.unplaced).Perm (second.methods.map MethodDecl.unplaced)

theorem TypeDecl.Reorders.refl (type : TypeDecl) : type.Reorders type := ⟨rfl, .refl _⟩

/-- The type is searched for extensions where the given namespaces are visible. -/
def TypeDecl.holdsExtensions (visible : List String) (type : TypeDecl) : Bool :=
  type.isStatic && type.outer.isNone && visible.contains type.enclosing &&
    type.methods.any (·.isExtension)

theorem TypeDecl.Reorders.holdsExtensions_eq {type other : TypeDecl}
    (reorders : type.Reorders other) (visible : List String) :
    type.holdsExtensions visible = other.holdsExtensions visible := by
  have ofSkeleton (type : TypeDecl) : type.holdsExtensions visible =
      (type.skeleton.isStatic && type.skeleton.outer.isNone &&
        visible.contains type.skeleton.enclosing &&
        (type.methods.map MethodDecl.unplaced).any (·.isExtension)) := by
    simp [holdsExtensions, Function.comp_def]
  rw [ofSkeleton, ofSkeleton other, reorders.skeleton, reorders.methods.any_eq]

/-- What is declared differs at most in the order of methods and in places. -/
structure Declarations.Reorders (first second : Declarations) : Prop where
  types : List.Forall₂ TypeDecl.Reorders first.types second.types
  usings : first.usings = second.usings
  namespaces : first.namespaces = second.namespaces

namespace Declarations.Reorders

variable {first second : Declarations} (reorders : first.Reorders second)

theorem refl (declarations : Declarations) : declarations.Reorders declarations :=
  ⟨List.forall₂_same.mpr fun type _ => .refl type, rfl, rfl⟩

include reorders

theorem map_types_eq {α : Type} {read : TypeDecl → α}
    (blind : ∀ {type other : TypeDecl}, type.Reorders other → read type = read other) :
    first.types.map read = second.types.map read := by
  have types := reorders.types
  generalize first.types = before, second.types = after at types
  induction types with
  | nil => rfl
  | cons head _ ih => rw [List.map_cons, List.map_cons, blind head, ih]

theorem skeleton_eq : first.skeleton = second.skeleton := by
  simp only [skeleton, reorders.map_types_eq (·.skeleton), reorders.usings, reorders.namespaces]

theorem rel_getElem? (index : Nat) :
    Option.Rel TypeDecl.Reorders first.types[index]? second.types[index]? := by
  have types := reorders.types
  generalize first.types = before, second.types = after at types
  induction types generalizing index with
  | nil => exact .none
  | cons head _ ih =>
    cases index with
    | zero => exact .some head
    | succ index => exact ih index

end Declarations.Reorders

namespace TypeTable

/-- Two tables that differ at most in the order in which declarations list their methods, and in
places. -/
structure Reorders (first second : TypeTable) : Prop where
  entries : first.entries = second.entries
  declarations : ∀ origin, (first.declarations origin).Reorders (second.declarations origin)

theorem Reorders.ofDeclarations {document other : Declarations} (reference : Declarations)
    (reorders : document.Reorders other) :
    (ofDeclarations reference document).Reorders (ofDeclarations reference other) where
  entries := by
    have entries_eq : document.entries .document = other.entries .document := by
      rw [← Declarations.entries_skeleton, reorders.skeleton_eq, Declarations.entries_skeleton]
    simp only [TypeTable.ofDeclarations, entries_eq]
  declarations
    | .reference => .refl reference
    | .document => reorders

theorem extensionHolders_eq_flatMap (table : TypeTable) (scope : TypeScope) :
    table.extensionHolders scope = [Origin.document, .reference].flatMap fun origin =>
      ((table.declarations origin).types.map
        (·.holdsExtensions (table.visibleNamespaces scope))).zipIdx.filterMap fun entry =>
          if entry.1 then some ⟨origin, entry.2⟩ else none := by
  simp only [extensionHolders, TypeDecl.holdsExtensions, List.zipIdx_map, List.filterMap_map,
    Function.comp_def, Prod.map_fst, Prod.map_snd, id_eq]

/-- The same owner without its methods and its place. -/
def MemberOwner.skeleton (owner : MemberOwner) : MemberOwner :=
  { owner with declaration := owner.declaration.skeleton }

/-- Owners whose declarations differ at most in the order of their methods and in places. -/
structure MemberOwner.Reorders (first second : MemberOwner) : Prop where
  symbol : first.symbol = second.symbol
  id : first.id = second.id
  declaration : first.declaration.Reorders second.declaration

theorem map_unplaced_methodsOf (owner : MemberOwner) {test : MethodDecl → Bool}
    (blind : ∀ method : MethodDecl, test method.unplaced = test method) :
    (methodsOf owner test).map MethodCandidate.unplaced =
      ((owner.declaration.methods.map MethodDecl.unplaced).filter test).map
        fun method => ⟨owner.symbol, owner.id, 0, method, false⟩ := by
  have withoutPlace : (owner.declaration.methods.zipIdx.filter fun entry => test entry.1).map
      (·.1) = owner.declaration.methods.filter test := by
    conv_rhs => rw [← List.zipIdx_map_fst 0 owner.declaration.methods, List.filter_map]
    rfl
  rw [List.filter_map, List.map_map]
  simp only [Function.comp_def, blind]
  rw [← withoutPlace, methodsOf, List.map_map, List.map_map]
  rfl

theorem ofOneDeclaration_methodsOf (owner : MemberOwner) (test : MethodDecl → Bool) :
    OfOneDeclaration (methodsOf owner test) := by
  simp only [OfOneDeclaration, methodsOf, List.forall_mem_map, and_self, implies_true]

section

variable {owner other : MemberOwner} (reorders : owner.Reorders other)

include reorders

theorem MemberOwner.Reorders.permuted_methodsOf {test : MethodDecl → Bool}
    (blind : ∀ method : MethodDecl, test method.unplaced = test method) :
    Permuted (methodsOf owner test) (methodsOf other test) := by
  rw [Permuted, map_unplaced_methodsOf owner blind, map_unplaced_methodsOf other blind,
    reorders.symbol, reorders.id]
  exact (reorders.declaration.methods.filter test).map _

theorem MemberOwner.Reorders.skeleton_eq : owner.skeleton = other.skeleton := by
  simp only [skeleton, reorders.symbol, reorders.id, reorders.declaration.skeleton]

theorem MemberOwner.Reorders.declares_eq (name : String) :
    declares owner name = declares other name := by
  have declares_eq (owner : MemberOwner) : declares owner name =
      (declares owner.skeleton name || !(memberMethods owner name).isEmpty) := by
    simp [declares, MemberOwner.skeleton, memberMethods, methodsOf, Function.comp_def]
  have permuted : Permuted (memberMethods owner name) (memberMethods other name) :=
    reorders.permuted_methodsOf fun _ => rfl
  rw [declares_eq, declares_eq other, reorders.skeleton_eq, permuted.isEmpty_eq]

end

theorem memberValue?_skeleton (table : TypeTable) (owner : MemberOwner) (name : String) :
    table.memberValue? owner.skeleton name = table.memberValue? owner name := by
  simp only [memberValue?, memberType, MemberOwner.skeleton, TypeDecl.skeleton_properties,
    TypeDecl.skeleton_fields, List.find?_map, Function.comp_def, PropertyDecl.unplaced_name,
    FieldDecl.unplaced_name]
  cases owner.declaration.properties.find? (·.name == name) with
  | none => simp [Function.comp_def]
  | some property => simp

/-- Two groups of the methods of the same declarations, each in any order. -/
structure GroupsReorder (group other : MethodGroup) : Prop where
  receiver : group.receiver = other.receiver
  typeArguments : group.typeArguments = other.typeArguments
  candidates : CandidatesReorder group.candidates other.candidates
  extensions : CandidatesReorder group.extensions other.extensions

theorem GroupsReorder.refl (group : MethodGroup) : GroupsReorder group group :=
  ⟨rfl, rfl, .refl _, .refl _⟩

/-- The same binding up to the order of methods in declarations. -/
inductive BoundsReorder : Bound → Bound → Prop
  | refl (bound : Bound) : BoundsReorder bound bound
  | methods {group other : MethodGroup} (reorder : GroupsReorder group other) :
      BoundsReorder (.methods group) (.methods other)

theorem BoundsReorder.rel_known? {bound other : Bound} (reorder : BoundsReorder bound other) :
    Option.Rel BoundsReorder bound.known? other.known? := by
  cases reorder with
  | refl =>
    cases bound.known? with
    | none => exact .none
    | some known => exact .some (.refl known)
  | methods reorder => exact .some (.methods reorder)

/-- What a name stands for if it stands for methods, unless there are none. -/
theorem BoundsReorder.offered (receiver : Option TypeSymbol) (written : List TypeSymbol)
    {candidates others extensions following : List MethodCandidate}
    (reorder : CandidatesReorder candidates others)
    (alsoReorder : CandidatesReorder extensions following) :
    BoundsReorder
      (if candidates.isEmpty && extensions.isEmpty then .unknown
        else .methods ⟨receiver, written, candidates, extensions⟩)
      (if others.isEmpty && following.isEmpty then .unknown
        else .methods ⟨receiver, written, others, following⟩) := by
  rw [reorder.permuted.isEmpty_eq, alsoReorder.permuted.isEmpty_eq]
  split
  · exact .refl _
  · exact .methods ⟨rfl, rfl, reorder, alsoReorder⟩

theorem candidatesReorder_flatMap {owners others : List MemberOwner} {test : MethodDecl → Bool}
    (blind : ∀ method : MethodDecl, test method.unplaced = test method)
    (reorders : List.Forall₂ MemberOwner.Reorders owners others) :
    CandidatesReorder (owners.flatMap (methodsOf · test)) (others.flatMap (methodsOf · test)) := by
  induction reorders with
  | nil => exact .nil
  | cons head _ ih =>
    exact .block (head.permuted_methodsOf blind) (ofOneDeclaration_methodsOf _ _) ih

namespace Reorders

variable {first second : TypeTable} (reorders : first.Reorders second)

include reorders

theorem sameTypes : first.SameTypes second where
  entries := reorders.entries
  declarations origin := (reorders.declarations origin).skeleton_eq

theorem rel_decl? (id : TypeId) :
    Option.Rel TypeDecl.Reorders (first.decl? id) (second.decl? id) :=
  (reorders.declarations id.origin).rel_getElem? id.index

theorem forall₂_memberOwners (type : TypeSymbol) :
    List.Forall₂ MemberOwner.Reorders (first.memberOwners type) (second.memberOwners type) := by
  have declared : List.Forall₂ MemberOwner.Reorders (first.declaredSupertypes type)
      (second.declaredSupertypes type) := by
    rw [declaredSupertypes, declaredSupertypes, reorders.sameTypes.supertypes_eq,
      reorders.sameTypes.idOf?_eq]
    refine List.rel_filterMap (R := (· = ·)) ?_ (List.forall₂_refl _)
    rintro owner _ rfl
    dsimp only
    cases second.idOf? owner with
    | none => exact .none
    | some id =>
      have related := reorders.rel_decl? id
      simp only [bind, Option.bind_some]
      generalize first.decl? id = before, second.decl? id = after at related
      cases related with
      | none => exact .none
      | some related => exact .some ⟨rfl, rfl, related⟩
  refine List.rel_filter ?_ declared
  intro owner other related
  dsimp only
  rw [related.symbol]

theorem find?_declares_eq (type : TypeSymbol) (name : String) :
    ((first.memberOwners type).find? (declares · name)).map MemberOwner.skeleton =
      ((second.memberOwners type).find? (declares · name)).map MemberOwner.skeleton := by
  have owners := reorders.forall₂_memberOwners type
  generalize first.memberOwners type = before, second.memberOwners type = after at owners
  induction owners with
  | nil => rfl
  | cons head _ ih =>
    rw [List.find?_cons, List.find?_cons, head.declares_eq]
    split
    · rw [Option.map_some, Option.map_some, head.skeleton_eq]
    · exact ih

theorem bind_memberValue?_eq (type : TypeSymbol) (name : String) :
    ((first.memberOwners type).find? (declares · name)).bind (first.memberValue? · name) =
      ((second.memberOwners type).find? (declares · name)).bind (second.memberValue? · name) := by
  have memberValue?_eq : first.memberValue? = second.memberValue? := by
    funext owner name
    simp only [memberValue?, memberType, reorders.sameTypes.resolve_eq,
      reorders.sameTypes.memberScope_eq, reorders.sameTypes.substitution_eq]
  have ofSkeleton (found : Option MemberOwner) :
      found.bind (second.memberValue? · name) =
        (found.map MemberOwner.skeleton).bind (second.memberValue? · name) := by
    simp only [Option.bind_map, Function.comp_def, memberValue?_skeleton]
  rw [memberValue?_eq, ofSkeleton, reorders.find?_declares_eq, ← ofSkeleton]

theorem extensionHolders_eq : first.extensionHolders = second.extensionHolders := by
  funext scope
  rw [extensionHolders_eq_flatMap, extensionHolders_eq_flatMap,
    reorders.sameTypes.visibleNamespaces_eq]
  refine List.flatMap_congr fun origin _ => ?_
  rw [(reorders.declarations origin).map_types_eq fun related => related.holdsExtensions_eq _]

theorem candidatesReorder_extensionMethods (scope : TypeScope) (name : String) :
    CandidatesReorder (first.extensionMethods scope name)
      (second.extensionMethods scope name) := by
  rw [extensionMethods, extensionMethods, reorders.extensionHolders_eq,
    reorders.sameTypes.symbolOf_eq]
  induction second.extensionHolders scope with
  | nil => exact .nil
  | cons id _ ih =>
    have related := reorders.rel_decl? id
    rw [List.flatMap_cons, List.flatMap_cons]
    generalize first.decl? id = before, second.decl? id = after at related
    cases related with
    | none => exact ih
    | @some type other related =>
      have owners : MemberOwner.Reorders ⟨second.symbolOf id [], id, type⟩
        ⟨second.symbolOf id [], id, other⟩ := ⟨rfl, rfl, related⟩
      refine .block (owners.permuted_methodsOf ?_).map_isReduced
        (ofOneDeclaration_methodsOf _ _).map_isReduced ih
      simp

theorem member (scope : TypeScope) (type : TypeSymbol) (name : SimpleName)
    (receiver : Option TypeSymbol) :
    BoundsReorder (first.member scope type name receiver)
      (second.member scope type name receiver) := by
  have candidates : CandidatesReorder
      ((first.memberOwners type).flatMap (memberMethods · name.identifier))
      ((second.memberOwners type).flatMap (memberMethods · name.identifier)) :=
    candidatesReorder_flatMap (fun _ => rfl) (reorders.forall₂_memberOwners type)
  have extensions := reorders.candidatesReorder_extensionMethods scope name.identifier
  simp only [TypeTable.member, reorders.bind_memberValue?_eq, writtenArguments,
    reorders.sameTypes.resolveAll_eq]
  split
  · exact .refl _
  · cases receiver with
    | none => exact .offered _ _ candidates .nil
    | some receiver =>
      by_cases unknown : receiver.isUnknown = true
      · simp only [unknown, if_true]
        exact .offered _ _ candidates .nil
      · simp only [unknown, Bool.false_eq_true, if_false]
        exact .offered _ _ candidates extensions

theorem bindOuterName (scope : TypeScope) (name : SimpleName) :
    BoundsReorder (first.bindOuterName scope name) (second.bindOuterName scope name) := by
  have inside : Option.Rel BoundsReorder
      (scope.enclosing.findSome? fun index =>
        (first.member scope (second.selfType ⟨.document, index⟩) name none).known?)
      (scope.enclosing.findSome? fun index =>
        (second.member scope (second.selfType ⟨.document, index⟩) name none).known?) := by
    generalize scope.enclosing = indices
    induction indices with
    | nil => exact .none
    | cons index _ ih =>
      have head := (reorders.member scope (second.selfType ⟨.document, index⟩) name none).rel_known?
      rw [List.findSome?_cons, List.findSome?_cons]
      revert head
      generalize (first.member _ _ _ _).known? = before
      generalize (second.member _ _ _ _).known? = after
      rintro (related | _)
      · exact .some related
      · exact ih
  simp only [TypeTable.bindOuterName, reorders.sameTypes.selfType_eq,
    reorders.sameTypes.resolve_eq, reorders.sameTypes.isNamespace_eq]
  revert inside
  generalize scope.enclosing.findSome? _ = before
  generalize scope.enclosing.findSome? _ = after
  rintro (related | _)
  · exact related
  · exact .refl _

theorem bindMember (scope : TypeScope) (target : Bound) (name : SimpleName) :
    BoundsReorder (first.bindMember scope target name) (second.bindMember scope target name) := by
  have inside (path : String) {before after : Bound} (otherwise : BoundsReorder before after) :
      BoundsReorder (first.bindInside scope path name before)
        (second.bindInside scope path name after) := by
    simp only [bindInside, writtenArguments, reorders.sameTypes.find?_eq,
      reorders.sameTypes.resolveAll_eq, reorders.sameTypes.symbolOf_eq]
    split
    · exact .refl _
    · exact otherwise
  cases target with
  | namespaceReference path =>
    simp only [TypeTable.bindMember, reorders.sameTypes.isNamespace_eq]
    exact inside path (.refl _)
  | typeReference type => exact inside type.fullName (reorders.member scope type name none)
  | value type symbol => exact reorders.member scope type name (some type)
  | methods group => exact .refl _
  | unknown => exact .refl _

end Reorders

/-- What a call calls by a name: by the name alone, or behind a dot. -/
inductive IsCallee (scope : TypeScope) (name : SimpleName) : (TypeTable → Bound) → Prop
  | alone : IsCallee scope name (·.bindOuterName scope name)
  | behindDot (target : Bound) : IsCallee scope name (·.bindMember scope target name)

/-- Whatever a call of a group may be resolved among, no two methods of one declaration are
applicable to it with the same signature. -/
structure GroupHasOwnSignatures (table : TypeTable) (group : MethodGroup)
    (slots : List ArgumentSlot) : Prop where
  candidates : table.HaveOwnSignatures slots group.typeArguments group.candidates
  extensions : table.resolveAmong? group.candidates slots group.typeArguments = none →
    ∀ receiver, group.receiver = some receiver →
      table.HaveOwnSignatures (⟨none, none, some receiver⟩ :: slots) group.typeArguments
        group.extensions

/-- A chosen method without its places in the document and in its declaration. -/
def unplacedChoice : List ArgumentSlot × MethodCandidate × ApplicableMethod →
    List ArgumentSlot × MethodCandidate × ApplicableMethod :=
  Prod.map id (Prod.map MethodCandidate.unplaced id)

section

variable {first second : TypeTable} {group other : MethodGroup} {slots : List ArgumentSlot}

theorem map_bestBehind?_eq {explicit : List TypeSymbol} {candidates others : List MethodCandidate}
    (same : first.SameTypes second) (reorder : CandidatesReorder candidates others)
    (front : List ArgumentSlot)
    (own : first.HaveOwnSignatures (front ++ slots) explicit candidates) :
    (first.bestBehind? slots explicit front candidates).map unplacedChoice =
      (second.bestBehind? slots explicit front others).map unplacedChoice := by
  have best := congrArg (Option.map fun best => (front, best)) (map_best?_eq same reorder own)
  rw [Option.map_map, Option.map_map] at best
  rw [bestBehind?, bestBehind?, Option.map_map, Option.map_map]
  exact best

theorem map_chosen?_eq (same : first.SameTypes second) (reorder : GroupsReorder group other)
    (own : first.GroupHasOwnSignatures group slots) :
    (first.chosen? group slots).map unplacedChoice =
      (second.chosen? other slots).map unplacedChoice := by
  have members := map_bestBehind?_eq same reorder.candidates [] own.candidates
  simp only [chosen?, Option.orElse_eq_orElse, Option.orElse_eq_or, Option.map_or,
    ← reorder.receiver, ← reorder.typeArguments, ← members]
  cases firstIs : first.bestBehind? slots group.typeArguments [] group.candidates with
  | some best => rw [Option.map_some, Option.some_or, Option.some_or]
  | none =>
    have notMember : first.resolveAmong? group.candidates slots group.typeArguments = none := by
      rw [bestBehind?, List.nil_append, Option.map_eq_none_iff] at firstIs
      rw [resolveAmong?, firstIs, Option.map_none]
    cases receiverIs : group.receiver with
    | none => simp only [Option.bind_none]
    | some receiver =>
      simp only [Option.bind_some]
      rw [map_bestBehind?_eq same reorder.extensions [⟨none, none, some receiver⟩]
        (own.extensions notMember receiver receiverIs)]

theorem resolveOverload?_eq_of_map_chosen?_eq
    (same : (first.chosen? group slots).map unplacedChoice =
      (second.chosen? other slots).map unplacedChoice) :
    first.resolveOverload? group slots = second.resolveOverload? other slots := by
  have ofChoice (table : TypeTable) (group : MethodGroup) :
      table.resolveOverload? group slots = ((table.chosen? group slots).map unplacedChoice).map
        fun chosen => methodSymbol chosen.2.1 chosen.2.2 := by
    simp only [resolveOverload?_eq_map_chosen?, unplacedChoice, Option.map_map, Function.comp_def,
      Prod.map_snd, Prod.map_fst, methodSymbol_unplaced, id_eq]
  rw [ofChoice, ofChoice, same]

end

/-- If no two methods of one declaration are applicable to a call with the same signature, the call
resolves to the same method in whatever order declarations list their methods. -/
theorem resolveOverload?_of_reorders {first second : TypeTable} (reorders : first.Reorders second)
    {scope : TypeScope} {name : SimpleName} {callee : TypeTable → Bound}
    (isCallee : IsCallee scope name callee) :
    BoundsReorder (callee first) (callee second) ∧
      ∀ group other slots, callee first = .methods group → callee second = .methods other →
        first.GroupHasOwnSignatures group slots →
          (first.chosen? group slots).map unplacedChoice =
              (second.chosen? other slots).map unplacedChoice ∧
            first.resolveOverload? group slots = second.resolveOverload? other slots := by
  have bound : BoundsReorder (callee first) (callee second) := by
    cases isCallee with
    | alone => exact reorders.bindOuterName scope name
    | behindDot target => exact reorders.bindMember scope target name
  refine ⟨bound, fun group other slots firstIs secondIs own => ?_⟩
  have reorder : GroupsReorder group other := by
    rw [firstIs, secondIs] at bound
    cases bound with
    | refl => exact .refl group
    | methods reorder => exact reorder
  have same := map_chosen?_eq reorders.sameTypes reorder own
  exact ⟨same, resolveOverload?_eq_of_map_chosen?_eq same⟩

instance {table : TypeTable} {slots : List ArgumentSlot} {explicit : List TypeSymbol}
    {candidates : List MethodCandidate} :
    Decidable (table.HaveOwnSignatures slots explicit candidates) :=
  decidable_of_iff
    (candidates.Pairwise fun left right => left.owner = right.owner → left.id = right.id →
      ((table.applicable? slots explicit left).all fun found =>
        (table.applicable? slots explicit right).all fun other =>
          !found.sameSignature other) = true)
    (by simp only [HaveOwnSignatures, Option.all_eq_true, Bool.not_eq_true'])

/-- A document whose declarations list their methods the other way round. -/
def reversed (document : ParsedDocument) : TypeTable :=
  .ofDeclarations Reference.declarations { document.declarations with
    types := document.declarations.types.map fun type =>
      { type with methods := type.methods.reverse } }

theorem reorders_reversed (document : ParsedDocument) :
    document.table.Reorders (reversed document) := by
  refine .ofDeclarations _ ⟨?_, rfl, rfl⟩
  refine List.forall₂_map_right_iff.mpr (List.forall₂_same.mpr fun type _ => ⟨rfl, ?_⟩)
  rw [List.map_reverse]
  exact (List.reverse_perm _).symm

/-- The methods that a name alone stands for inside the first type of a document. -/
def methodsInside? (table : TypeTable) (name : String) : Option MethodGroup :=
  match table.bindOuterName ⟨.document, [0], "", []⟩ (.ofIdentifier name) with
  | .methods group => some group
  | _ => none

theorem bindOuterName_of_methodsInside? {table : TypeTable} {name : String} {group : MethodGroup}
    (found : table.methodsInside? name = some group) :
    table.bindOuterName ⟨.document, [0], "", []⟩ (.ofIdentifier name) = .methods group := by
  unfold methodsInside? at found
  split at found
  · rename_i bound
    cases found
    exact bound
  · cases found

/-- A name that stands for methods in one order of the declarations does so in the other. -/
theorem exists_methodsInside? {first second : TypeTable} (reorders : first.Reorders second)
    {name : String} {group : MethodGroup} (found : first.methodsInside? name = some group) :
    ∃ other, second.methodsInside? name = some other := by
  have bound := reorders.bindOuterName ⟨.document, [0], "", []⟩ (.ofIdentifier name)
  rw [bindOuterName_of_methodsInside? found] at bound
  unfold methodsInside?
  generalize second.bindOuterName _ _ = other at bound
  cases bound with
  | refl => exact ⟨group, rfl⟩
  | @methods _ other _ => exact ⟨other, rfl⟩

/-- The method for integers is called, wherever it is written. -/
theorem resolveOverload?_of_reorders_takingNumbers :
    takingNumbers.table.Reorders (reversed takingNumbers) ∧
      ∃ group other, takingNumbers.table.methodsInside? "Take" = some group ∧
        (reversed takingNumbers).methodsInside? "Take" = some other ∧
        takingNumbers.table.GroupHasOwnSignatures group takingNumbers.slots ∧
        (takingNumbers.table.chosen? group takingNumbers.slots).isSome = true ∧
        (takingNumbers.table.chosen? group takingNumbers.slots).map unplacedChoice =
          ((reversed takingNumbers).chosen? other takingNumbers.slots).map unplacedChoice := by
  have inside : (takingNumbers.table.methodsInside? "Take").any (fun group =>
      group.receiver.isNone && decide (takingNumbers.table.HaveOwnSignatures takingNumbers.slots
        group.typeArguments group.candidates) &&
      (takingNumbers.table.chosen? group takingNumbers.slots).isSome) = true := by
    decide +kernel
  have reorders := reorders_reversed takingNumbers
  rcases (Option.any_eq_true _ _).mp inside with ⟨group, isGroup, holds⟩
  rcases exists_methodsInside? reorders isGroup with ⟨other, isOther⟩
  simp only [Bool.and_eq_true, decide_eq_true_eq, Option.isNone_iff_eq_none] at holds
  rcases holds with ⟨⟨noReceiver, own⟩, isChosen⟩
  have ownSignatures : takingNumbers.table.GroupHasOwnSignatures group takingNumbers.slots :=
    ⟨own, fun _ receiver isReceiver => by rw [noReceiver] at isReceiver; cases isReceiver⟩
  exact ⟨reorders, group, other, isGroup, isOther, ownSignatures, isChosen,
    ((resolveOverload?_of_reorders reorders .alone).2 group other _
      (bindOuterName_of_methodsInside? isGroup) (bindOuterName_of_methodsInside? isOther)
      ownSignatures).1⟩

/-- Two methods with different parameters, to both of which an integer can be passed. -/
def takingAnything : ParsedDocument :=
  .ofSource "class Host { string Take<T>(T x) { } int Take(int x) { } }"

/-- The method that is written first is called, with or without type parameters. -/
theorem resolveOverload?_reversed_takingAnything :
    takingAnything.table.Reorders (reversed takingAnything) ∧
      (∀ type ∈ takingAnything.declarations.types, (type.methods.map fun method =>
        (method.name, method.parameters.map (·.summary takingAnything.tree.source))).Nodup) ∧
      ∃ group other, takingAnything.table.methodsInside? "Take" = some group ∧
        (reversed takingAnything).methodsInside? "Take" = some other ∧
        (takingAnything.table.resolveOverload? group takingNumbers.slots).map
            (fun method => (method.returnType.name, method.typeArguments.length)) =
          some ("String", 1) ∧
        ((reversed takingAnything).resolveOverload? other takingNumbers.slots).map
            (fun method => (method.returnType.name, method.typeArguments.length)) =
          some ("Int32", 0) := by
  obtain ⟨areDifferent, generic, plain⟩ :
      (∀ type ∈ takingAnything.declarations.types, (type.methods.map fun method =>
        (method.name, method.parameters.map (·.summary takingAnything.tree.source))).Nodup) ∧
      (takingAnything.table.methodsInside? "Take").any (fun group =>
        (takingAnything.table.resolveOverload? group takingNumbers.slots).map
          (fun method => (method.returnType.name, method.typeArguments.length)) ==
            some ("String", 1)) = true ∧
      ((reversed takingAnything).methodsInside? "Take").any (fun group =>
        ((reversed takingAnything).resolveOverload? group takingNumbers.slots).map
          (fun method => (method.returnType.name, method.typeArguments.length)) ==
            some ("Int32", 0)) = true := by
    decide +kernel
  rcases (Option.any_eq_true _ _).mp generic with ⟨group, isGroup, resolved⟩
  rcases (Option.any_eq_true _ _).mp plain with ⟨other, isOther, otherwise⟩
  exact ⟨reorders_reversed _, areDifferent, group, other, isGroup, isOther,
    eq_of_beq resolved, eq_of_beq otherwise⟩

end TypeTable

end AssertionLint
