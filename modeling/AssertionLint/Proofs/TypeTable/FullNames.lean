import AssertionLint.Proofs.Position.Node
import AssertionLint.Proofs.TypeTable.Agreement
import AssertionLint.Proofs.TypeTable.Library

/-!
# Full names

A dotted name that nothing hides stands for the declaration that is found by its full name
(`TypeTable.IsUnshadowed.exists_resolve_eq`). Behind `global::` the first part of the name is a node
of which no type is known and which has no text as a qualifier, so the same name stands for no type
at all there (`TypeTable.isUnknown_resolve_global`).
-/

namespace AssertionLint

namespace TypeExpr

/-- The type arguments of a name. -/
def typeArguments : TypeExpr → List TypeExpr
  | named _ _ typeArguments _ => typeArguments
  | _ => []

/-- The parts of a dotted name joined by dots, without their type arguments. -/
def path? : TypeExpr → Option String
  | named (some qualifier) name _ _ => qualifier.path?.map fun path => TypeSymbol.qualify path name
  | named none name _ _ => some name
  | _ => none

end TypeExpr

namespace Node

variable {source : String} {role : Option Role} {span : Span}

/-- The node is a dotted name that is written behind `global::`. Its first part stands behind the
alias in a node of its own, and each further part stands in a node around. -/
inductive IsBehindGlobal (source : String) : Node → TypeExpr → Prop
  | root {role : Option Role} {span : Span} {aliasName colons member : Node} {written : TypeExpr}
      (isGlobal : aliasName.word? = some "global")
      (isMember : (member.toType source).unplaced = written.unplaced) :
      IsBehindGlobal source (.mk role .aliasQualifiedName span [aliasName, colons, member]) written
  | qualified {role : Option Role} {span : Span} {qualifier dot member : Node} {outer : TypeExpr}
      {typeArguments : List TypeExpr} {place : Option Span}
      (isBehind : IsBehindGlobal source qualifier outer)
      (areArguments : TypeExpr.unplacedAll (member.typeArgumentNodes.map (·.toType source)) =
        TypeExpr.unplacedAll typeArguments) :
      IsBehindGlobal source (.mk role .qualifiedName span [qualifier, dot, member])
        (.named (some outer) member.nameText typeArguments place)

theorem toType_qualifiedName (qualifier dot member : Node) :
    (mk role .qualifiedName span [qualifier, dot, member]).toType source =
      .named (some (qualifier.toType source)) member.nameText
        (member.typeArgumentNodes.map (·.toType source)) span := by
  rw [toType_eq]
  rfl

theorem toType_aliasQualifiedName (parts : List Node) :
    (mk role .aliasQualifiedName span parts).toType source = .other (span.text source) span := by
  rw [toType_eq]
  rfl

end Node

namespace TypeTable

variable {table : TypeTable} {scope : TypeScope} {paths : List String} {name path : String}
  {arity : Nat} {id : TypeId} {written : TypeExpr}

theorem empty_mem_visibleNamespaces : "" ∈ table.visibleNamespaces scope := by
  unfold visibleNamespaces namespacesAround
  by_cases isEmpty : scope.path.isEmpty = true
  · simp [String.isEmpty_iff.mp isEmpty]
  · simp [isEmpty]

/-- Where no other namespace or type declares a name, it is found by itself only. -/
theorem findInside?_eq (isUnnamed : "" ∈ paths)
    (noOther : ∀ around ∈ paths, around ≠ "" →
      table.find? (TypeSymbol.qualify around name) arity = none) :
    table.findInside? paths name arity = table.find? name arity := by
  have unnamed : TypeSymbol.qualify "" name = name := rfl
  cases isFound : table.find? name arity with
  | none =>
    refine List.findSome?_eq_none_iff.mpr fun around isAround => ?_
    by_cases isEmpty : around = ""
    · rw [isEmpty, unnamed, isFound]
    · exact noOther around isAround isEmpty
  | some id =>
    induction paths with
    | nil => cases isUnnamed
    | cons first rest ih =>
      rw [List.forall_mem_cons] at noOther
      rw [findInside?, List.findSome?_cons]
      by_cases isEmpty : first = ""
      · rw [isEmpty, unnamed, isFound]
      · rw [noOther.1 isEmpty]
        exact ih ((List.mem_cons.mp isUnnamed).resolve_left (Ne.symm isEmpty)) noOther.2

/-- The dotted name with this full name is hidden by nothing in the scope: not by a type parameter,
and not by a declaration in a type or a namespace around it. A qualifier is a type, or a namespace
and written without type arguments. -/
inductive IsUnshadowed (table : TypeTable) (scope : TypeScope) : TypeExpr → String → Prop
  | alone {name : String} {typeArguments : List TypeExpr} {span : Option Span}
      (isWord : ':' ∉ name.toList) (noParameter : name ∉ scope.typeParameters)
      (noOther : ∀ around ∈
        (scope.enclosing.map fun index => table.fullName ⟨scope.origin, index⟩) ++
          table.visibleNamespaces scope, around ≠ "" →
        table.find? (TypeSymbol.qualify around name) typeArguments.length = none) :
      IsUnshadowed table scope (.named none name typeArguments span) name
  | behind {qualifier : TypeExpr} {path name : String} {typeArguments : List TypeExpr}
      {span : Option Span} (outer : IsUnshadowed table scope qualifier path)
      (isQualifier : table.find? path qualifier.typeArguments.length = none →
        qualifier.dotted? = some path)
      (isWord : ':' ∉ name.toList)
      (noOther : ∀ around ∈ table.visibleNamespaces scope, around ≠ "" →
        table.find? (TypeSymbol.qualify around (TypeSymbol.qualify path name))
          typeArguments.length = none) :
      IsUnshadowed table scope (.named (some qualifier) name typeArguments span)
        (TypeSymbol.qualify path name)

theorem IsConsistent.isUnknown_symbolOf (consistent : table.IsConsistent) {type : TypeDecl}
    (isDecl : table.decl? id = some type) (typeArguments : List TypeSymbol) :
    (table.symbolOf id typeArguments).isUnknown = false := by
  have kind_eq : (table.symbolOf id typeArguments).kind = type.kind := by
    rw [symbolOf, isDecl]
    rfl
  have isDeclared := consistent.isDeclared isDecl
  rw [TypeSymbol.isUnknown, kind_eq]
  cases kindIs : type.kind <;> simp [kindIs, TypeKind.isDeclared] at isDeclared ⊢

namespace IsUnshadowed

theorem withoutGlobal_eq (unshadowed : table.IsUnshadowed scope written path) :
    withoutGlobal path = path := by
  have noColon : ':' ∉ path.toList := by
    induction unshadowed with
    | alone isWord => exact isWord
    | behind _ _ isWord _ ih =>
      unfold TypeSymbol.qualify
      split
      · exact isWord
      · simp [ih, isWord]
  refine if_neg fun isMarked => noColon ?_
  have isPart := List.IsPrefix.subset (List.isPrefixOf_iff_prefix.mp isMarked)
  exact isPart (by decide)

/-- A dotted name that nothing hides stands for the declaration with its full name. -/
theorem exists_resolve_eq (consistent : table.IsConsistent)
    (unshadowed : table.IsUnshadowed scope written path) :
    ∃ name, table.resolve scope written =
      table.found (table.find? path written.typeArguments.length) name
        (table.resolveAll scope written.typeArguments) := by
  induction unshadowed with
  | @alone name typeArguments span _ noParameter noOther =>
    refine ⟨name, ?_⟩
    have isFound : table.lookup? scope name typeArguments.length =
        table.find? name typeArguments.length := by
      rw [← findInside?_eq (List.mem_append_right _ empty_mem_visibleNamespaces) noOther]
      unfold lookup? findInside?
      rw [List.findSome?_append, Option.or_eq_orElse]
      rfl
    rw [resolve, TypeExpr.typeArguments, length_resolveAll, isFound, if_neg]
    simp [noParameter]
  | @behind qualifier path name typeArguments span outer isQualifier _ noOther ih =>
    refine ⟨name, ?_⟩
    rw [resolve, TypeExpr.typeArguments, length_resolveAll]
    congr 1
    rcases ih with ⟨qualifierName, qualifier_eq⟩
    rw [lookupQualified?, qualifier_eq]
    cases isFound : table.find? path qualifier.typeArguments.length with
    | none =>
      have isUnknown : (table.found none qualifierName
          (table.resolveAll scope qualifier.typeArguments)).isUnknown = true := rfl
      rw [if_pos isUnknown, isQualifier isFound]
      dsimp only [Option.bind_eq_bind, Option.bind_some]
      rw [outer.withoutGlobal_eq, findInside?_eq empty_mem_visibleNamespaces noOther]
      cases table.find? (TypeSymbol.qualify path name) typeArguments.length <;> rfl
    | some id =>
      rcases consistent.found isFound with ⟨type, isDecl, -, fullName_eq⟩
      rw [found, consistent.isUnknown_symbolOf isDecl, if_neg Bool.false_ne_true,
        fullName_symbolOf isDecl, fullName_eq]

end IsUnshadowed

/-- What is written behind `global::` has no text as a qualifier, and no type is known of it. -/
theorem isUnknown_of_isBehindGlobal {source : String} {global : Node}
    (isBehind : global.IsBehindGlobal source written) (table : TypeTable) (scope : TypeScope) :
    (global.toType source).dotted? = none ∧
      (table.resolve scope (global.toType source)).isUnknown = true := by
  induction isBehind with
  | root =>
    rw [Node.toType_aliasQualifiedName]
    exact ⟨rfl, rfl⟩
  | @qualified _ _ qualifier dot member _ _ _ _ _ ih =>
    rw [Node.toType_qualifiedName]
    constructor
    · cases member.typeArgumentNodes.map (·.toType source) <;> simp [TypeExpr.dotted?, ih.1]
    · rw [resolve, lookupQualified?, if_pos ih.2, ih.1]
      rfl

/-- Where nothing hides it, a dotted name that is found by its full name stands for the declaration
with this name. Of the same name behind `global::` no type is known in any scope of any table. -/
theorem isUnknown_resolve_global {document : Declarations} (areDeclared : document.AreDeclared)
    (tableIs : table = .ofDeclarations Reference.declarations document)
    (unshadowed : table.IsUnshadowed scope written path)
    (isFound : table.find? path written.typeArguments.length = some id)
    {source : String} {global : Node} (isBehind : global.IsBehindGlobal source written) :
    table.resolve scope written =
        table.symbolOf id (table.resolveAll scope written.typeArguments) ∧
      (table.resolve scope written).isUnknown = false ∧
      ∀ (table : TypeTable) (scope : TypeScope),
        (table.resolve scope (global.toType source)).isUnknown = true := by
  have consistent : table.IsConsistent := by
    rw [tableIs]
    exact isConsistent_ofDeclarations areDeclared
  rcases unshadowed.exists_resolve_eq consistent with ⟨name, resolve_eq⟩
  rw [isFound, found] at resolve_eq
  rcases consistent.found isFound with ⟨declaration, isDecl, -, -⟩
  exact ⟨resolve_eq, by rw [resolve_eq, consistent.isUnknown_symbolOf isDecl], fun table scope =>
    (isUnknown_of_isBehindGlobal isBehind table scope).2⟩

/-- The text `global::System.String` as a dotted name. -/
def globalString : Node :=
  .branch .qualifiedName
    [.branch .aliasQualifiedName
      [.leaf (.identifier "global") ⟨0, 6⟩, .leaf (.token "::") ⟨6, 8⟩,
        .leaf (.identifier "System") ⟨8, 14⟩],
      .leaf (.token ".") ⟨14, 15⟩, .leaf (.identifier "String") ⟨15, 21⟩]

/-- In a document without declarations nothing hides the name of a type of the library. -/
theorem isUnknown_resolve_global_string :
    let table := ofDeclarations Reference.declarations .empty
    let scope : TypeScope := ⟨.document, [], "", []⟩
    let written : TypeExpr := .named (some (.named none "System" [] none)) "String" [] none
    table.IsUnshadowed scope written "System.String" ∧
      globalString.IsBehindGlobal "global::System.String" written ∧
      (table.resolve scope written).isUnknown = false ∧
      (table.resolve scope (globalString.toType "global::System.String")).isUnknown = true := by
  intro table scope written
  have evaluated : (∀ around ∈ table.visibleNamespaces scope, around ≠ "" →
      table.find? (TypeSymbol.qualify around "System") 0 = none ∧
        table.find? (TypeSymbol.qualify around (TypeSymbol.qualify "System" "String")) 0 = none) ∧
      (table.find? "System.String" 0).isSome = true ∧
      TypeSymbol.qualify "System" "String" = "System.String" := by
    decide
  rcases evaluated with ⟨noOther, isSome, path_eq⟩
  obtain ⟨id, isFound⟩ := Option.isSome_iff_exists.mp isSome
  have unshadowed : table.IsUnshadowed scope written "System.String" := by
    rw [← path_eq]
    have isOuter : table.IsUnshadowed scope (.named none "System" [] none) "System" :=
      .alone (by decide) List.not_mem_nil fun around isAround other =>
        (noOther around isAround other).1
    exact .behind isOuter (fun _ => rfl) (by decide) fun around isAround other =>
      (noOther around isAround other).2
  have isBehind : globalString.IsBehindGlobal "global::System.String" written := by
    refine .qualified (.root rfl ?_) rfl
    rw [Node.toType_eq]
    rfl
  have areDeclared : Declarations.empty.AreDeclared := fun _ noType => nomatch noType
  have unknown := isUnknown_resolve_global areDeclared rfl unshadowed isFound isBehind
  exact ⟨unshadowed, isBehind, unknown.2.1, unknown.2.2 table scope⟩

/-- Two fields of one type, one of them written with `global::`. -/
def twoFields : ParsedDocument :=
  .ofSource "class A \x7b global::System.String first; System.String second; \x7d"

/-- The type of only one of the fields is found. -/
theorem exists_field_of_unknown_type :
    (twoFields.declarations.types.flatMap (·.fields)).map (fun field =>
      (field.name, twoFields.table.resolve (twoFields.table.memberScope ⟨.document, 0⟩)
        field.type)) =
      [("first", .unresolved "String"), ("second", twoFields.table.special .string)] ∧
    (twoFields.table.special .string).isUnknown = false := by
  decide +kernel

end TypeTable

end AssertionLint
