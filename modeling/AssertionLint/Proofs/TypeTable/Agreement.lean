import AssertionLint.Binding.Overload
import Mathlib.Data.List.Basic
import Mathlib.Tactic.Simps.Basic

/-!
# Tables that differ in their methods

Names, bases, conversions and inference look at everything that a type declares except its methods,
and nowhere at the places where it is written. So two tables that agree on the rest give the same
answers about types (`TypeTable.SameTypes`).
-/

namespace AssertionLint

namespace TypeExpr

mutual

/-- The same type without a place in a document. -/
def unplaced : TypeExpr → TypeExpr
  | predefined keyword _ => predefined keyword none
  | named qualifier name typeArguments _ =>
    named (unplacedQualifier qualifier) name (unplacedAll typeArguments) none
  | array element rank _ => array element.unplaced rank none
  | nullable inner _ => nullable inner.unplaced none
  | inferred _ => inferred none
  | other text _ => other text none

/-- The same qualifier without a place in a document. -/
def unplacedQualifier : Option TypeExpr → Option TypeExpr
  | none => none
  | some qualifier => some qualifier.unplaced

/-- The same types without a place in a document. -/
def unplacedAll : List TypeExpr → List TypeExpr
  | [] => []
  | type :: rest => type.unplaced :: unplacedAll rest

end

theorem unplacedAll_eq_map (types : List TypeExpr) : unplacedAll types = types.map unplaced := by
  induction types with
  | nil => rfl
  | cons type rest ih => rw [unplacedAll, ih, List.map_cons]

@[simp]
theorem dotted?_unplaced (type : TypeExpr) : type.unplaced.dotted? = type.dotted? := by
  induction type using dotted?.induct with
  | case1 qualifier name span ih =>
    simp only [unplaced, unplacedQualifier, unplacedAll, dotted?, ih]
  | case2 name span => rfl
  | case3 type notQualified notPlain =>
    cases type with
    | named qualifier name typeArguments span =>
      cases typeArguments with
      | nil =>
        cases qualifier with
        | none => exact (notPlain name span rfl).elim
        | some qualifier => exact (notQualified qualifier name span rfl).elim
      | cons first rest => cases qualifier <;> rfl
    | _ => rfl

end TypeExpr

/-- The same parameter without a place in a document. -/
@[simps]
def ParameterDecl.unplaced (parameter : ParameterDecl) : ParameterDecl :=
  { parameter with type := parameter.type.map TypeExpr.unplaced }

/-- The same method without a place in a document. -/
@[simps]
def MethodDecl.unplaced (method : MethodDecl) : MethodDecl :=
  { method with
    parameters := method.parameters.map ParameterDecl.unplaced
    returnType := method.returnType.unplaced }

/-- The same property without a place in a document. -/
@[simps]
def PropertyDecl.unplaced (property : PropertyDecl) : PropertyDecl :=
  { property with type := property.type.unplaced }

/-- The same field without a place in a document. -/
@[simps]
def FieldDecl.unplaced (field : FieldDecl) : FieldDecl :=
  { field with type := field.type.unplaced }

/-- The same conversion without a place in a document. -/
@[simps]
def ConversionDecl.unplaced (conversion : ConversionDecl) : ConversionDecl :=
  { conversion with source := conversion.source.unplaced, target := conversion.target.unplaced }

/-- The same type without its methods and without a place in a document. -/
@[simps]
def TypeDecl.skeleton (type : TypeDecl) : TypeDecl :=
  { type with
    bases := type.bases.map TypeExpr.unplaced
    methods := []
    properties := type.properties.map PropertyDecl.unplaced
    fields := type.fields.map FieldDecl.unplaced
    conversions := type.conversions.map ConversionDecl.unplaced
    span := ⟨0, 0⟩ }

namespace Declarations

/-- The same types without their methods, and nothing that only positions see. -/
@[simps]
def skeleton (declarations : Declarations) : Declarations :=
  { declarations with
    types := declarations.types.map TypeDecl.skeleton
    bodies := []
    locals := [] }

variable (declarations : Declarations)

theorem containerWithin_skeleton (fuel index : Nat) :
    declarations.skeleton.containerWithin fuel index = declarations.containerWithin fuel index := by
  induction fuel generalizing index with
  | zero => rfl
  | succ fuel ih =>
    unfold containerWithin
    simp only [skeleton_types, List.getElem?_map]
    cases declarations.types[index]? with
    | none => rfl
    | some type => simp [ih, Function.comp_def]

@[simp]
theorem container_skeleton (index : Nat) :
    declarations.skeleton.container index = declarations.container index := by
  simp [container, containerWithin_skeleton]

@[simp]
theorem fullName_skeleton (index : Nat) :
    declarations.skeleton.fullName index = declarations.fullName index := by
  simp [fullName, Function.comp_def]

@[simp]
theorem entries_skeleton (origin : Origin) :
    declarations.skeleton.entries origin = declarations.entries origin := by
  simp [entries, List.zipIdx_map, Function.comp_def, TypeDecl.arity]

theorem outwardsWithin_skeleton (fuel index : Nat) :
    declarations.skeleton.outwardsWithin fuel index = declarations.outwardsWithin fuel index := by
  induction fuel generalizing index with
  | zero => rfl
  | succ fuel ih =>
    unfold outwardsWithin
    simp only [skeleton_types, List.getElem?_map]
    cases declarations.types[index]? with
    | none => rfl
    | some type => simp [ih]

@[simp]
theorem outwards_skeleton (index : Nat) :
    declarations.skeleton.outwards index = declarations.outwards index := by
  simp [outwards, outwardsWithin_skeleton]

@[simp]
theorem typeParametersOf_skeleton (indices : List Nat) :
    declarations.skeleton.typeParametersOf indices = declarations.typeParametersOf indices := by
  simp [typeParametersOf, Function.comp_def]

end Declarations

namespace TypeTable

section

variable (table : TypeTable)

mutual

/-- A written type stands for the same type wherever it is written. -/
@[simp]
theorem resolve_unplaced (scope : TypeScope) (type : TypeExpr) :
    table.resolve scope type.unplaced = table.resolve scope type := by
  cases type with
  | named qualifier name typeArguments span =>
    have arguments_eq := resolveAll_unplacedAll scope typeArguments
    cases qualifier with
    | none => simp only [TypeExpr.unplaced, TypeExpr.unplacedQualifier, resolve, arguments_eq]
    | some qualifier =>
      simp only [TypeExpr.unplaced, TypeExpr.unplacedQualifier, resolve, arguments_eq,
        resolve_unplaced scope qualifier, TypeExpr.dotted?_unplaced]
  | array element rank span =>
    simp only [TypeExpr.unplaced, resolve, resolve_unplaced scope element]
  | nullable inner span => simp only [TypeExpr.unplaced, resolve, resolve_unplaced scope inner]
  | predefined | inferred | other => rfl

theorem resolveAll_unplacedAll (scope : TypeScope) (types : List TypeExpr) :
    table.resolveAll scope (TypeExpr.unplacedAll types) = table.resolveAll scope types := by
  cases types with
  | nil => rfl
  | cons type rest =>
    rw [TypeExpr.unplacedAll, resolveAll, resolveAll, resolve_unplaced scope type,
      resolveAll_unplacedAll scope rest]

end

@[simp]
theorem resolveAll_map_unplaced (scope : TypeScope) (types : List TypeExpr) :
    table.resolveAll scope (types.map TypeExpr.unplaced) = table.resolveAll scope types := by
  rw [← TypeExpr.unplacedAll_eq_map, resolveAll_unplacedAll]

end

/-- Two tables that agree on all declared types, apart from their methods and their places. -/
structure SameTypes (first second : TypeTable) : Prop where
  entries : first.entries = second.entries
  declarations : ∀ origin,
    (first.declarations origin).skeleton = (second.declarations origin).skeleton

namespace SameTypes

variable {first second : TypeTable} (same : SameTypes first second)

include same

theorem symm : SameTypes second first where
  entries := same.entries.symm
  declarations origin := (same.declarations origin).symm

theorem find?_eq : first.find? = second.find? := by
  funext fullName arity
  simp only [find?, same.entries]

theorem idOf?_eq : first.idOf? = second.idOf? := by
  funext type
  simp only [idOf?, same.find?_eq]

theorem usings_eq (origin : Origin) :
    (first.declarations origin).usings = (second.declarations origin).usings := by
  rw [← Declarations.skeleton_usings, same.declarations, Declarations.skeleton_usings]

theorem isNamespace_eq : first.isNamespace = second.isNamespace := by
  funext path
  have ofOrigin (origin : Origin) :
      (first.declarations origin).namespaces = (second.declarations origin).namespaces := by
    rw [← Declarations.skeleton_namespaces, same.declarations, Declarations.skeleton_namespaces]
  simp only [isNamespace]
  rw [show first.reference.namespaces = second.reference.namespaces from ofOrigin .reference,
    show first.document.namespaces = second.document.namespaces from ofOrigin .document]

theorem container_eq (origin : Origin) :
    (first.declarations origin).container = (second.declarations origin).container := by
  funext index
  rw [← Declarations.container_skeleton, same.declarations, Declarations.container_skeleton]

theorem fullName_eq : first.fullName = second.fullName := by
  funext id
  rw [fullName, ← Declarations.fullName_skeleton, same.declarations,
    Declarations.fullName_skeleton, ← fullName]

theorem map_skeleton_decl? (id : TypeId) :
    (first.decl? id).map TypeDecl.skeleton = (second.decl? id).map TypeDecl.skeleton := by
  have types := congrArg Declarations.types (same.declarations id.origin)
  simp only [Declarations.skeleton_types] at types
  simp only [decl?, ← List.getElem?_map, types]

/-- What does not look at methods and places is the same of both declarations of a type. -/
theorem map_decl? {α : Type} (read : TypeDecl → α)
    (skeletal : ∀ type : TypeDecl, read type.skeleton = read type) (id : TypeId) :
    (first.decl? id).map read = (second.decl? id).map read := by
  have mapped := congrArg (Option.map read) (same.map_skeleton_decl? id)
  simpa only [Option.map_map, Function.comp_def, skeletal] using mapped

theorem symbolOf_eq : first.symbolOf = second.symbolOf := by
  funext id typeArguments
  have names := same.map_decl? (fun type => (type.name, type.kind, type.isRefLike))
    (fun _ => rfl) id
  simp only [symbolOf, same.container_eq]
  cases firstIs : first.decl? id <;> cases secondIs : second.decl? id <;>
    simp_all

theorem constructed_eq : first.constructed = second.constructed := by
  funext fullName typeArguments
  simp only [constructed, same.find?_eq, same.symbolOf_eq]

theorem wellKnown_eq : first.wellKnown = second.wellKnown := by
  funext fullName
  simp only [wellKnown, same.constructed_eq]

theorem special_eq : first.special = second.special := by
  funext special
  simp only [TypeTable.special, same.wellKnown_eq]

theorem object_eq : first.object = second.object := by
  simp only [object, same.special_eq]

theorem nullableOf_eq : first.nullableOf = second.nullableOf := by
  funext inner
  simp only [nullableOf, same.constructed_eq]

theorem memberScope_eq : first.memberScope = second.memberScope := by
  funext id
  have outwards : (first.declarations id.origin).outwards id.index =
      (second.declarations id.origin).outwards id.index := by
    rw [← Declarations.outwards_skeleton, same.declarations, Declarations.outwards_skeleton]
  have typeParameters (indices : List Nat) :
      (first.declarations id.origin).typeParametersOf indices =
        (second.declarations id.origin).typeParametersOf indices := by
    rw [← Declarations.typeParametersOf_skeleton, same.declarations,
      Declarations.typeParametersOf_skeleton]
  simp only [memberScope, outwards, typeParameters,
    same.map_decl? (·.enclosing) (fun _ => rfl) id]

theorem selfType_eq : first.selfType = second.selfType := by
  funext id
  simp only [selfType, same.symbolOf_eq, same.map_decl? (·.typeParameters) (fun _ => rfl) id]

theorem substitution_eq : first.substitution = second.substitution := by
  funext id type
  simp only [substitution, same.memberScope_eq]

theorem visibleNamespaces_eq : first.visibleNamespaces = second.visibleNamespaces := by
  funext scope
  simp only [visibleNamespaces, same.usings_eq]

theorem findInside?_eq : first.findInside? = second.findInside? := by
  funext paths name arity
  simp only [findInside?, same.find?_eq]

theorem lookup?_eq : first.lookup? = second.lookup? := by
  funext scope name arity
  simp only [lookup?, same.fullName_eq, same.findInside?_eq, same.visibleNamespaces_eq]

theorem lookupQualified?_eq : first.lookupQualified? = second.lookupQualified? := by
  funext scope outer path name arity
  simp only [lookupQualified?, same.find?_eq, same.findInside?_eq, same.visibleNamespaces_eq]

theorem found_eq : first.found = second.found := by
  funext id name typeArguments
  simp only [found, same.symbolOf_eq]

omit same

mutual

theorem resolve_apply_eq (same : SameTypes first second) (scope : TypeScope) (type : TypeExpr) :
    first.resolve scope type = second.resolve scope type := by
  cases type with
  | named qualifier name typeArguments span =>
    have arguments_eq := resolveAll_apply_eq same scope typeArguments
    cases qualifier with
    | none => simp only [resolve, arguments_eq, same.lookup?_eq, same.found_eq]
    | some qualifier =>
      simp only [resolve, arguments_eq, resolve_apply_eq same scope qualifier,
        same.lookupQualified?_eq, same.found_eq]
  | array element rank span => simp only [resolve, resolve_apply_eq same scope element]
  | nullable inner span =>
    simp only [resolve, resolve_apply_eq same scope inner, same.nullableOf_eq]
  | predefined keyword span => simp only [resolve, same.special_eq]
  | inferred | other => rfl

theorem resolveAll_apply_eq (same : SameTypes first second) (scope : TypeScope)
    (types : List TypeExpr) :
    first.resolveAll scope types = second.resolveAll scope types := by
  cases types with
  | nil => rfl
  | cons type rest =>
    rw [resolveAll, resolveAll, resolve_apply_eq same scope type,
      resolveAll_apply_eq same scope rest]

end

include same

theorem resolve_eq : first.resolve = second.resolve := by
  funext scope type
  exact resolve_apply_eq same scope type

theorem resolveAll_eq : first.resolveAll = second.resolveAll := by
  funext scope types
  exact resolveAll_apply_eq same scope types

theorem directSupertypes_eq : first.directSupertypes = second.directSupertypes := by
  funext symbol
  have bases (id : TypeId) := same.map_decl?
    (fun type => (type.kind, second.declaredBases id type symbol))
    (fun type => by simp [declaredBases]) id
  have declaredBases_eq : first.declaredBases = second.declaredBases := by
    funext id type symbol
    simp only [declaredBases, same.resolveAll_eq, same.memberScope_eq, same.substitution_eq]
  simp only [directSupertypes, same.wellKnown_eq, same.constructed_eq, same.object_eq,
    same.special_eq, same.idOf?_eq, declaredBases_eq]
  split
  · rfl
  · rfl
  · rfl
  · rfl
  · rfl
  · cases second.idOf? symbol with
    | none => rfl
    | some id =>
      have declared := bases id
      dsimp only
      cases firstIs : first.decl? id <;> cases secondIs : second.decl? id <;>
        simp_all

theorem visit_eq : first.visit = second.visit := by
  funext seen round
  induction round generalizing seen with
  | nil => rfl
  | cons type rest ih => simp only [visit, ih, same.directSupertypes_eq]

theorem closure_eq : first.closure = second.closure := by
  funext rounds seen round
  induction rounds generalizing seen round with
  | zero => rfl
  | succ rounds ih =>
    cases round with
    | nil => rfl
    | cons type rest => simp only [closure, same.visit_eq, ih]

theorem supertypes_eq : first.supertypes = second.supertypes := by
  funext symbol
  simp only [supertypes, same.closure_eq, same.object_eq]

theorem valueConversion?_eq : first.valueConversion? = second.valueConversion? := by
  funext source destination
  simp only [valueConversion?, same.supertypes_eq]

omit same

mutual

theorem convertsByReference_apply_eq (same : SameTypes first second)
    (source destination : TypeSymbol) :
    first.convertsByReference source destination =
      second.convertsByReference source destination := by
  rcases destination with
    ⟨name, container, kind, special, typeArguments, elementType, isRefLike⟩
  unfold convertsByReference
  simp only [same.valueConversion?_eq, same.supertypes_eq,
    fun sources => argumentsConvert_apply_eq same sources typeArguments]
  cases elementType with
  | none => cases source.elementType <;> rfl
  | some target =>
    cases source.elementType with
    | none => rfl
    | some element => simp only [convertsByReference_apply_eq same element target]

theorem argumentsConvert_apply_eq (same : SameTypes first second)
    (sources targets : List TypeSymbol) :
    first.argumentsConvert sources targets = second.argumentsConvert sources targets := by
  cases targets with
  | nil => rfl
  | cons target rest =>
    cases sources with
    | nil => rfl
    | cons source sources =>
      simp only [argumentsConvert, convertsByReference_apply_eq same source target,
        argumentsConvert_apply_eq same sources rest]

end

include same

theorem standardConversion_eq : first.standardConversion = second.standardConversion := by
  funext source destination
  simp only [standardConversion, same.valueConversion?_eq, convertsByReference_apply_eq same]

theorem implicitOperators_eq : first.implicitOperators = second.implicitOperators := by
  funext type
  simp only [implicitOperators, same.supertypes_eq, same.idOf?_eq, same.resolve_eq,
    same.memberScope_eq, same.substitution_eq]
  refine List.flatMap_congr fun owner _ => ?_
  cases second.idOf? owner with
  | none => rfl
  | some id =>
    have declared := same.map_decl? (fun type =>
      (type.conversions.filter (·.isImplicit)).map fun conversion =>
        ((second.resolve (second.memberScope id) conversion.source).substitute
            (second.substitution id owner),
          (second.resolve (second.memberScope id) conversion.target).substitute
            (second.substitution id owner)))
      (fun type => by simp [List.filter_map, Function.comp_def]) id
    dsimp only
    cases firstIs : first.decl? id <;> cases secondIs : second.decl? id <;>
      simp_all

theorem hasUserDefinedConversion_eq :
    first.hasUserDefinedConversion = second.hasUserDefinedConversion := by
  funext source destination
  simp only [hasUserDefinedConversion, same.implicitOperators_eq, same.standardConversion_eq]

theorem exprConversion_eq : first.exprConversion = second.exprConversion := by
  funext expr source destination
  simp only [exprConversion, same.standardConversion_eq, same.hasUserDefinedConversion_eq]

omit same

mutual

theorem infer_apply_eq (same : SameTypes first second) (names : List String)
    (inferred : Substitution) (argument parameter : TypeSymbol) :
    first.infer names inferred argument parameter =
      second.infer names inferred argument parameter := by
  rcases parameter with ⟨name, container, kind, special, typeArguments, elementType, isRefLike⟩
  unfold infer
  simp only [same.supertypes_eq]
  split
  · rfl
  · split
    · rfl
    · split
      · rename_i element given _
        exact infer_apply_eq same names inferred given element
      · split
        · rfl
        · rename_i inner following
          simp only [infer_apply_eq same names inferred argument inner,
            fun arguments => inferAll_apply_eq same names inferred arguments (inner :: following)]

theorem inferAll_apply_eq (same : SameTypes first second) (names : List String)
    (inferred : Substitution) (arguments parameters : List TypeSymbol) :
    first.inferAll names inferred arguments parameters =
      second.inferAll names inferred arguments parameters := by
  cases parameters with
  | nil => rfl
  | cons parameter parameters =>
    cases arguments with
    | nil => rfl
    | cons argument arguments =>
      simp only [inferAll, infer_apply_eq same names inferred argument parameter,
        fun inferred => inferAll_apply_eq same names inferred arguments parameters]

end

include same

theorem inferArguments_eq : first.inferArguments = second.inferArguments := by
  funext names inferred arguments
  induction arguments generalizing inferred with
  | nil => rfl
  | cons pair rest ih =>
    rcases pair with ⟨_ | argument, target⟩
    · exact ih inferred
    · simp only [inferArguments, infer_apply_eq same, ih]

theorem callSubstitution?_eq : first.callSubstitution? = second.callSubstitution? := by
  funext names explicit slots targets
  simp only [callSubstitution?, same.inferArguments_eq]

theorem slotConverts_eq : first.slotConverts = second.slotConverts := by
  funext slot target
  simp only [slotConverts, same.exprConversion_eq, same.standardConversion_eq]

theorem betterTarget_eq : first.betterTarget = second.betterTarget := by
  funext source left right
  cases source with
  | none => rfl
  | some source => simp only [betterTarget, same.standardConversion_eq]

theorem isBetter_eq : first.isBetter = second.isBetter := by
  funext slots left right
  simp only [isBetter, same.betterTarget_eq]

end SameTypes

end TypeTable

end AssertionLint
