import AssertionLint.Binding.Overload
import AssertionLint.Binding.Member
import AssertionLint.Binding.Operation
import AssertionLint.Proofs.Position.Outline

/-!
# Type tables behind a text

Types are found by name, and a written type stands for the same type wherever it is written. So a
table whose document stands behind a text gives the same answers about types; only the declarations
that it hands out stand behind the text.
-/

namespace AssertionLint

@[simp]
theorem Span.behind_empty : Span.behind "" = id := by
  funext span
  simp [Span.behind, Text.behind]

mutual

theorem TypeExpr.behind_empty (type : TypeExpr) : type.behind "" = type := by
  cases type with
  | predefined | inferred | other => simp [TypeExpr.behind]
  | named qualifier name typeArguments span =>
    rw [TypeExpr.behind, TypeExpr.behindQualifier_empty qualifier,
      TypeExpr.behindAll_empty typeArguments, Span.behind_empty, Option.map_id_fun, id]
  | array element rank span =>
    rw [TypeExpr.behind, TypeExpr.behind_empty element, Span.behind_empty, Option.map_id_fun, id]
  | nullable inner span =>
    rw [TypeExpr.behind, TypeExpr.behind_empty inner, Span.behind_empty, Option.map_id_fun, id]

theorem TypeExpr.behindQualifier_empty (qualifier : Option TypeExpr) :
    TypeExpr.behindQualifier "" qualifier = qualifier := by
  cases qualifier with
  | none => rfl
  | some qualifier => rw [TypeExpr.behindQualifier, TypeExpr.behind_empty qualifier]

theorem TypeExpr.behindAll_empty (types : List TypeExpr) :
    TypeExpr.behindAll "" types = types := by
  cases types with
  | nil => rfl
  | cons type rest =>
    rw [TypeExpr.behindAll, TypeExpr.behind_empty type, TypeExpr.behindAll_empty rest]

end

theorem ParameterDecl.behind_empty : ParameterDecl.behind "" = id := by
  funext parameter
  simp [ParameterDecl.behind, funext TypeExpr.behind_empty]

theorem MethodDecl.behind_empty : MethodDecl.behind "" = id := by
  funext method
  simp [MethodDecl.behind, ParameterDecl.behind_empty, TypeExpr.behind_empty]

theorem TypeDecl.behind_empty : TypeDecl.behind "" = id := by
  have properties : PropertyDecl.behind "" = id := by
    funext property
    simp [PropertyDecl.behind, TypeExpr.behind_empty]
  have fields : FieldDecl.behind "" = id := by
    funext field
    simp [FieldDecl.behind, TypeExpr.behind_empty]
  have conversions : ConversionDecl.behind "" = id := by
    funext conversion
    simp [ConversionDecl.behind, TypeExpr.behind_empty]
  funext type
  simp [TypeDecl.behind, funext TypeExpr.behind_empty, MethodDecl.behind_empty, properties, fields,
    conversions]

/-- The text in front of declarations once a text stands in front of the document. -/
def Origin.front (front : String) : Origin → String
  | .reference => ""
  | .document => front

variable (front : String)

namespace Declarations

variable (declarations : Declarations)

theorem containerWithin_behind (fuel index : Nat) :
    (declarations.behind front).containerWithin fuel index =
      declarations.containerWithin fuel index := by
  induction fuel generalizing index with
  | zero => rfl
  | succ fuel ih =>
    unfold containerWithin
    simp only [behind_types, List.getElem?_map]
    cases declarations.types[index]? with
    | none => rfl
    | some type => simp [ih, Function.comp_def]

@[simp]
theorem container_behind (index : Nat) :
    (declarations.behind front).container index = declarations.container index := by
  simp [container, containerWithin_behind]

@[simp]
theorem fullName_behind (index : Nat) :
    (declarations.behind front).fullName index = declarations.fullName index := by
  simp [fullName, Function.comp_def]

@[simp]
theorem entries_behind (origin : Origin) :
    (declarations.behind front).entries origin = declarations.entries origin := by
  simp [entries, List.zipIdx_map, Function.comp_def, TypeDecl.arity]

theorem outwardsWithin_behind (fuel index : Nat) :
    (declarations.behind front).outwardsWithin fuel index =
      declarations.outwardsWithin fuel index := by
  induction fuel generalizing index with
  | zero => rfl
  | succ fuel ih =>
    unfold outwardsWithin
    simp only [behind_types, List.getElem?_map]
    cases declarations.types[index]? with
    | none => rfl
    | some type => simp [ih]

@[simp]
theorem outwards_behind (index : Nat) :
    (declarations.behind front).outwards index = declarations.outwards index := by
  simp [outwards, outwardsWithin_behind]

@[simp]
theorem typeParametersOf_behind (indices : List Nat) :
    (declarations.behind front).typeParametersOf indices =
      declarations.typeParametersOf indices := by
  simp [typeParametersOf, Function.comp_def]

end Declarations

namespace TypeTable

/-- The same table once a text stands in front of the document. -/
@[simps]
def behind (table : TypeTable) : TypeTable where
  reference := table.reference
  document := table.document.behind front
  entries := table.entries

theorem ofDeclarations_behind (reference document : Declarations) :
    ofDeclarations reference (document.behind front) =
      (ofDeclarations reference document).behind front := by
  simp [ofDeclarations, behind]

variable (table : TypeTable)

/-- The types of one origin behind a text. -/
theorem types_declarations_behind (origin : Origin) :
    ((table.behind front).declarations origin).types =
      (table.declarations origin).types.map (TypeDecl.behind (origin.front front)) := by
  cases origin with
  | reference => simp [declarations, Origin.front, TypeDecl.behind_empty]
  | document => rfl

@[simp]
theorem usings_declarations_behind (origin : Origin) :
    ((table.behind front).declarations origin).usings = (table.declarations origin).usings := by
  cases origin <;> rfl

@[simp]
theorem container_declarations_behind (origin : Origin) (index : Nat) :
    ((table.behind front).declarations origin).container index =
      (table.declarations origin).container index := by
  cases origin with
  | reference => rfl
  | document => exact Declarations.container_behind front _ index

@[simp]
theorem outwards_declarations_behind (origin : Origin) (index : Nat) :
    ((table.behind front).declarations origin).outwards index =
      (table.declarations origin).outwards index := by
  cases origin with
  | reference => rfl
  | document => exact Declarations.outwards_behind front _ index

@[simp]
theorem typeParametersOf_declarations_behind (origin : Origin) (indices : List Nat) :
    ((table.behind front).declarations origin).typeParametersOf indices =
      (table.declarations origin).typeParametersOf indices := by
  cases origin with
  | reference => rfl
  | document => exact Declarations.typeParametersOf_behind front _ indices

@[simp]
theorem decl?_behind (id : TypeId) :
    (table.behind front).decl? id =
      (table.decl? id).map (TypeDecl.behind (id.origin.front front)) := by
  rw [decl?, types_declarations_behind, List.getElem?_map]
  rfl

@[simp]
theorem fullName_behind (id : TypeId) : (table.behind front).fullName id = table.fullName id := by
  unfold fullName
  cases id.origin with
  | reference => rfl
  | document => exact Declarations.fullName_behind front _ id.index

@[simp]
theorem find?_behind (fullName : String) (arity : Nat) :
    (table.behind front).find? fullName arity = table.find? fullName arity := rfl

@[simp]
theorem idOf?_behind (type : TypeSymbol) : (table.behind front).idOf? type = table.idOf? type := rfl

@[simp]
theorem symbolOf_behind (id : TypeId) (typeArguments : List TypeSymbol) :
    (table.behind front).symbolOf id typeArguments = table.symbolOf id typeArguments := by
  simp only [symbolOf, decl?_behind, container_declarations_behind]
  cases table.decl? id <;> rfl

@[simp]
theorem constructed_behind (fullName : String) (typeArguments : List TypeSymbol) :
    (table.behind front).constructed fullName typeArguments =
      table.constructed fullName typeArguments := by
  simp [constructed]

@[simp]
theorem wellKnown_behind (fullName : String) :
    (table.behind front).wellKnown fullName = table.wellKnown fullName := by
  simp [wellKnown]

@[simp]
theorem special_behind (special : SpecialType) :
    (table.behind front).special special = table.special special := by
  simp [TypeTable.special]

@[simp]
theorem object_behind : (table.behind front).object = table.object := by
  simp [object]

@[simp]
theorem nullableOf_behind (inner : TypeSymbol) :
    (table.behind front).nullableOf inner = table.nullableOf inner := by
  simp [nullableOf]

@[simp]
theorem memberScope_behind (id : TypeId) :
    (table.behind front).memberScope id = table.memberScope id := by
  simp [memberScope, Function.comp_def]

@[simp]
theorem selfType_behind (id : TypeId) : (table.behind front).selfType id = table.selfType id := by
  simp [selfType, Function.comp_def]

@[simp]
theorem isNamespace_behind (path : String) :
    (table.behind front).isNamespace path = table.isNamespace path := rfl

@[simp]
theorem visibleNamespaces_behind (scope : TypeScope) :
    (table.behind front).visibleNamespaces scope = table.visibleNamespaces scope := by
  simp [visibleNamespaces]

@[simp]
theorem findInside?_behind (paths : List String) (name : String) (arity : Nat) :
    (table.behind front).findInside? paths name arity = table.findInside? paths name arity := rfl

@[simp]
theorem lookup?_behind (scope : TypeScope) (name : String) (arity : Nat) :
    (table.behind front).lookup? scope name arity = table.lookup? scope name arity := by
  simp [lookup?]

@[simp]
theorem lookupQualified?_behind (scope : TypeScope) (outer : TypeSymbol) (path : Option String)
    (name : String) (arity : Nat) :
    (table.behind front).lookupQualified? scope outer path name arity =
      table.lookupQualified? scope outer path name arity := by
  simp [lookupQualified?]

@[simp]
theorem found_behind (id : Option TypeId) (name : String) (typeArguments : List TypeSymbol) :
    (table.behind front).found id name typeArguments = table.found id name typeArguments := by
  simp [found]

end TypeTable

@[simp]
theorem MethodDecl.isExtension_behind (method : MethodDecl) :
    (method.behind front).isExtension = method.isExtension := by
  simp [isExtension, Option.any_map]

@[simp]
theorem TypeExpr.dotted?_behind (type : TypeExpr) : (type.behind front).dotted? = type.dotted? := by
  induction type using dotted?.induct with
  | case1 qualifier name span ih =>
    simp only [behind, behindQualifier, behindAll, dotted?, ih]
  | case2 name span => rfl
  | case3 type notQualified notPlain =>
    cases type with
    | named qualifier name typeArguments span =>
      cases typeArguments with
      | nil =>
        cases qualifier with
        | none => exact (notPlain name span rfl).elim
        | some qualifier => exact (notQualified qualifier name span rfl).elim
      | cons first rest => cases qualifier <;> rfl
    | _ => rfl

namespace TypeTable

variable (table : TypeTable)

mutual

@[simp]
theorem resolve_behind (scope : TypeScope) (type : TypeExpr) :
    (table.behind front).resolve scope type = table.resolve scope type := by
  cases type with
  | named qualifier name typeArguments span =>
    have arguments_eq := resolveAll_behind scope typeArguments
    cases qualifier with
    | none => simp only [resolve, arguments_eq, lookup?_behind, found_behind]
    | some qualifier =>
      simp only [resolve, arguments_eq, resolve_behind scope qualifier, lookupQualified?_behind,
        found_behind]
  | array element rank span => simp only [resolve, resolve_behind scope element]
  | nullable inner span => simp only [resolve, resolve_behind scope inner, nullableOf_behind]
  | predefined keyword span => simp only [resolve, special_behind]
  | inferred | other => rfl

@[simp]
theorem resolveAll_behind (scope : TypeScope) (types : List TypeExpr) :
    (table.behind front).resolveAll scope types = table.resolveAll scope types := by
  cases types with
  | nil => rfl
  | cons type rest =>
    rw [resolveAll, resolveAll, resolve_behind scope type, resolveAll_behind scope rest]

end

mutual

/-- A written type stands for the same type wherever it is written. -/
@[simp]
theorem resolve_typeBehind (scope : TypeScope) (type : TypeExpr) :
    table.resolve scope (type.behind front) = table.resolve scope type := by
  cases type with
  | named qualifier name typeArguments span =>
    have arguments_eq := resolveAll_behindAll scope typeArguments
    cases qualifier with
    | none => simp only [TypeExpr.behind, TypeExpr.behindQualifier, resolve, arguments_eq]
    | some qualifier =>
      simp only [TypeExpr.behind, TypeExpr.behindQualifier, resolve, arguments_eq,
        resolve_typeBehind scope qualifier, TypeExpr.dotted?_behind]
  | array element rank span =>
    simp only [TypeExpr.behind, resolve, resolve_typeBehind scope element]
  | nullable inner span =>
    simp only [TypeExpr.behind, resolve, resolve_typeBehind scope inner]
  | predefined | inferred | other => rfl

theorem resolveAll_behindAll (scope : TypeScope) (types : List TypeExpr) :
    table.resolveAll scope (TypeExpr.behindAll front types) = table.resolveAll scope types := by
  cases types with
  | nil => rfl
  | cons type rest =>
    rw [TypeExpr.behindAll, resolveAll, resolveAll, resolve_typeBehind scope type,
      resolveAll_behindAll scope rest]

end

@[simp]
theorem resolveAll_map_behind (scope : TypeScope) (types : List TypeExpr) :
    table.resolveAll scope (types.map (TypeExpr.behind front)) = table.resolveAll scope types := by
  rw [← TypeExpr.behindAll_eq_map, resolveAll_behindAll]

@[simp]
theorem extensionHolders_behind (scope : TypeScope) :
    (table.behind front).extensionHolders scope = table.extensionHolders scope := by
  simp [extensionHolders, types_declarations_behind, List.zipIdx_map, List.filterMap_map]

@[simp]
theorem substitution_behind (id : TypeId) (type : TypeSymbol) :
    (table.behind front).substitution id type = table.substitution id type := by
  simp [substitution]

@[simp]
theorem declaredBases_behind (id : TypeId) (type : TypeDecl) (symbol : TypeSymbol) :
    (table.behind front).declaredBases id type symbol = table.declaredBases id type symbol := by
  simp [declaredBases]

@[simp]
theorem declaredBases_typeBehind (id : TypeId) (type : TypeDecl) (symbol : TypeSymbol) :
    table.declaredBases id (type.behind front) symbol = table.declaredBases id type symbol := by
  simp [declaredBases]

@[simp]
theorem directSupertypes_behind (symbol : TypeSymbol) :
    (table.behind front).directSupertypes symbol = table.directSupertypes symbol := by
  simp only [directSupertypes, wellKnown_behind, constructed_behind, object_behind, idOf?_behind,
    decl?_behind, special_behind, declaredBases_behind]
  split
  · rfl
  · rfl
  · rfl
  · rfl
  · rfl
  · cases table.idOf? symbol with
    | none => rfl
    | some id =>
      dsimp only
      cases table.decl? id with
      | none => rfl
      | some type => simp

@[simp]
theorem visit_behind (seen round : List TypeSymbol) :
    (table.behind front).visit seen round = table.visit seen round := by
  induction round generalizing seen with
  | nil => rfl
  | cons type rest ih => simp only [visit, ih, directSupertypes_behind]

@[simp]
theorem closure_behind (rounds : Nat) (seen round : List TypeSymbol) :
    (table.behind front).closure rounds seen round = table.closure rounds seen round := by
  induction rounds generalizing seen round with
  | zero => rfl
  | succ rounds ih =>
    cases round with
    | nil => rfl
    | cons type rest => simp only [closure, visit_behind, ih]

@[simp]
theorem supertypes_behind (symbol : TypeSymbol) :
    (table.behind front).supertypes symbol = table.supertypes symbol := by
  simp only [supertypes, closure_behind, object_behind]

@[simp]
theorem isDerivedFrom_behind (symbol : TypeSymbol) (fullName : String) :
    (table.behind front).isDerivedFrom symbol fullName = table.isDerivedFrom symbol fullName := by
  simp only [isDerivedFrom, supertypes_behind]

@[simp]
theorem elementType_behind (collection : TypeSymbol) :
    (table.behind front).elementType collection = table.elementType collection := by
  simp only [elementType, supertypes_behind, special_behind, object_behind]

@[simp]
theorem valueConversion?_behind (source destination : TypeSymbol) :
    (table.behind front).valueConversion? source destination =
      table.valueConversion? source destination := by
  simp only [valueConversion?, supertypes_behind]

mutual

@[simp]
theorem convertsByReference_behind (source destination : TypeSymbol) :
    (table.behind front).convertsByReference source destination =
      table.convertsByReference source destination := by
  rcases destination with
    ⟨name, container, kind, special, typeArguments, elementType, isRefLike⟩
  unfold convertsByReference
  simp only [valueConversion?_behind, supertypes_behind,
    fun sources => argumentsConvert_behind sources typeArguments]
  cases elementType with
  | none => cases source.elementType <;> rfl
  | some target =>
    cases source.elementType with
    | none => rfl
    | some element => simp only [convertsByReference_behind element target]

@[simp]
theorem argumentsConvert_behind (sources targets : List TypeSymbol) :
    (table.behind front).argumentsConvert sources targets =
      table.argumentsConvert sources targets := by
  cases targets with
  | nil => rfl
  | cons target rest =>
    cases sources with
    | nil => rfl
    | cons source sources =>
      simp only [argumentsConvert, convertsByReference_behind source target,
        argumentsConvert_behind sources rest]

end

@[simp]
theorem standardConversion_behind (source destination : TypeSymbol) :
    (table.behind front).standardConversion source destination =
      table.standardConversion source destination := by
  simp only [standardConversion, valueConversion?_behind, convertsByReference_behind]

@[simp]
theorem implicitOperators_behind (type : TypeSymbol) :
    (table.behind front).implicitOperators type = table.implicitOperators type := by
  simp only [implicitOperators, supertypes_behind, idOf?_behind, decl?_behind]
  apply List.flatMap_congr
  intro owner _
  cases table.idOf? owner with
  | none => rfl
  | some id =>
    dsimp only
    cases table.decl? id with
    | none => simp only [Option.map_none, Option.getD_none, List.filter_nil, List.map_nil]
    | some type => simp [List.filter_map, Function.comp_def]

@[simp]
theorem hasUserDefinedConversion_behind (source destination : TypeSymbol) :
    (table.behind front).hasUserDefinedConversion source destination =
      table.hasUserDefinedConversion source destination := by
  simp only [hasUserDefinedConversion, implicitOperators_behind, standardConversion_behind]

@[simp]
theorem conversion_behind (source destination : TypeSymbol) :
    (table.behind front).conversion source destination = table.conversion source destination := by
  simp only [conversion, standardConversion_behind, hasUserDefinedConversion_behind]

/-- An expression converts to the same types wherever it is written. -/
@[simp]
theorem exprConversion_behind (expr : Expr) (source destination : TypeSymbol) :
    (table.behind front).exprConversion (expr.behind front) source destination =
      table.exprConversion expr source destination := by
  simp only [exprConversion, constantConversion?, standardConversion_behind,
    hasUserDefinedConversion_behind, Expr.integerConstant?_behind]

@[simp]
theorem literalType?_behind (literal : Literal) :
    (table.behind front).literalType? literal = table.literalType? literal := by
  simp [literalType?, funext (special_behind front table)]

@[simp]
theorem commonType?_behind (elements : List (Expr × Option TypeSymbol)) :
    (table.behind front).commonType? (elements.map (Prod.map (Expr.behind front) id)) =
      table.commonType? elements := by
  simp only [commonType?, List.filterMap_map, List.all_map, Function.comp_def, Prod.map_fst,
    Prod.map_snd, id_eq, exprConversion_behind]

@[simp]
theorem promote?_behind (left right : TypeSymbol) :
    (table.behind front).promote? left right = table.promote? left right := by
  simp [promote?]

@[simp]
theorem unaryType?_behind (operator : UnaryOperator) (operand : TypeSymbol) :
    (table.behind front).unaryType? operator operand = table.unaryType? operator operand := by
  simp [unaryType?]

@[simp]
theorem binaryType?_behind (operator : BinaryOperator) (left right : Option TypeSymbol) :
    (table.behind front).binaryType? operator left right =
      table.binaryType? operator left right := by
  simp [binaryType?, arithmeticType?]

@[simp]
theorem conditionalType?_behind (whenTrue whenFalse : Option TypeSymbol) :
    (table.behind front).conditionalType? whenTrue whenFalse =
      table.conditionalType? whenTrue whenFalse := by
  simp [conditionalType?]

mutual

@[simp]
theorem infer_behind (names : List String) (inferred : Substitution)
    (argument parameter : TypeSymbol) :
    (table.behind front).infer names inferred argument parameter =
      table.infer names inferred argument parameter := by
  rcases parameter with ⟨name, container, kind, special, typeArguments, elementType, isRefLike⟩
  unfold infer
  simp only [supertypes_behind]
  split
  · rfl
  · split
    · rfl
    · split
      · rename_i element given _
        exact infer_behind names inferred given element
      · split
        · rfl
        · rename_i inner following
          simp only [infer_behind names inferred argument inner,
            fun arguments => inferAll_behind names inferred arguments (inner :: following)]

@[simp]
theorem inferAll_behind (names : List String) (inferred : Substitution)
    (arguments parameters : List TypeSymbol) :
    (table.behind front).inferAll names inferred arguments parameters =
      table.inferAll names inferred arguments parameters := by
  cases parameters with
  | nil => rfl
  | cons parameter parameters =>
    cases arguments with
    | nil => rfl
    | cons argument arguments =>
      simp only [inferAll, infer_behind names inferred argument parameter,
        fun inferred => inferAll_behind names inferred arguments parameters]

end

@[simp]
theorem inferArguments_behind (names : List String) (inferred : Substitution)
    (arguments : List (Option TypeSymbol × TypeSymbol)) :
    (table.behind front).inferArguments names inferred arguments =
      table.inferArguments names inferred arguments := by
  induction arguments generalizing inferred with
  | nil => rfl
  | cons first rest ih =>
    rcases first with ⟨_ | argument, target⟩
    · exact ih inferred
    · simp only [inferArguments, infer_behind, ih]

end TypeTable

end AssertionLint
