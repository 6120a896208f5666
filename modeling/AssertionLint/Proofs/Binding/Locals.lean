import AssertionLint.Proofs.Binding.Relation
import AssertionLint.Proofs.Syntax.Nesting

/-!
# Where locals stand

A local can be used from the end of its declarator on, behind its value; the variable of a loop can
be used from the end of its name on, in front of the collection that the loop runs over. A local
that is declared inside a value is visible only inside a block that no name of the value stands in.
So wherever a name in the value of one local can stand for another one, the other one became
visible earlier, and only the variable of a loop can be seen from its own value
(`ParsedDocument.hasOrderedLocals`).
-/

namespace AssertionLint

theorem Span.encloses_iff {span : Span} {offset : Nat} :
    span.encloses offset = true ↔ span.start ≤ offset ∧ offset < span.stop := by
  simp [encloses]

/-- A simple name and the offset where it stands. -/
structure NameUse where
  name : String
  offset : Nat
  deriving DecidableEq

namespace Expr

/-- A simple name without type arguments. -/
def nameUse? : Expr → Option NameUse
  | .name ⟨identifier, none, _⟩ (some span) => some ⟨identifier, span.start⟩
  | _ => none

/-- The simple names of an expression. The block of a lambda is no part of it. -/
def nameUses (expr : Expr) : List NameUse := expr.walk.filterMap nameUse?

theorem exists_of_nameUse? {expr : Expr} {use : NameUse} (isUse : expr.nameUse? = some use) :
    ∃ name span, expr = .name name (some span) ∧ name.typeArguments = none ∧
      name.identifier = use.name ∧ span.start = use.offset := by
  unfold nameUse? at isUse
  split at isUse
  · cases isUse
    exact ⟨_, _, rfl, rfl, rfl, rfl⟩
  · cases isUse

end Expr

namespace LocalDecl

/-- The simple names of the expression that a local takes its value from. -/
def nameUses (found : LocalDecl) : List NameUse := found.value.expr?.toList.flatMap Expr.nameUses

/-- A position sees the local, unless a later one hides it. -/
def IsVisibleAt (found : LocalDecl) (offset : Nat) : Prop :=
  found.scope.encloses offset = true ∧ found.visibleFrom ≤ offset

/-- Where a name in the value of the first local can stand for the second one, the second one became
visible earlier. -/
def LooksBackAt (found other : LocalDecl) : Prop :=
  ∀ use ∈ found.nameUses, other.IsVisibleAt use.offset → other.visibleFrom < found.visibleFrom

/-- The local is declared within the span, and its value stands there. -/
structure StandsIn (found : LocalDecl) (span : Span) : Prop where
  declared : span.start < found.visibleFrom ∧ found.visibleFrom ≤ span.stop
  named : ∀ use ∈ found.nameUses, span.encloses use.offset = true

/-- A local stands behind its value, or in front of the collection that its loop runs over. -/
inductive IsPlaced (found : LocalDecl) : Prop
  | behind (noLoop : ∀ collection, found.value ≠ .elementOf collection)
      (before : ∀ use ∈ found.nameUses, use.offset < found.visibleFrom)
  | inFront {collection : Expr} (loop : found.value = .elementOf collection)
      (sees : ∀ use ∈ found.nameUses, found.IsVisibleAt use.offset)

variable {found other : LocalDecl} {span outer : Span}

theorem StandsIn.mono (stands : found.StandsIn span) (inside : outer.contains span = true) :
    found.StandsIn outer := by
  rw [Span.contains_iff] at inside
  have declared := stands.declared
  refine ⟨by omega, fun use isUse => ?_⟩
  have named := stands.named use isUse
  rw [Span.encloses_iff] at named ⊢
  omega

theorem nameUses_of_expr? {value : Expr} (valueIs : found.value.expr? = some value) :
    found.nameUses = value.nameUses := by
  simp [nameUses, valueIs]

theorem nameUses_of_none (noValue : found.value = .none) : found.nameUses = [] := by
  simp [nameUses, noValue, LocalValue.expr?]

theorem looksBackAt_of_before (before : ∀ use ∈ found.nameUses, use.offset < found.visibleFrom)
    (other : LocalDecl) : found.LooksBackAt other :=
  fun use isUse visible => Nat.lt_of_le_of_lt visible.2 (before use isUse)

/-- A local that becomes visible in front of a span or behind it, seen from within the span. -/
theorem StandsIn.looksBackAt (stands : found.StandsIn span)
    (outside : other.visibleFrom ≤ span.start ∨ span.stop ≤ other.visibleFrom) :
    found.LooksBackAt other := by
  intro use isUse visible
  have declared := stands.declared
  have named := stands.named use isUse
  have from_ := visible.2
  rw [Span.encloses_iff] at named
  omega

end LocalDecl

namespace OutlineStep

theorem visit_mem_singleton {inner region : Region} {part node : Node} :
    visit inner part ∈ [visit region node] ↔ inner = region ∧ part = node := by
  simp

end OutlineStep

namespace Region

/-- The scope that locals get which are declared in a node, but in no narrower scope inside of it. A
node that is searched for other things than statements has none. -/
def outer? (region : Region) (node : Node) : Option Span :=
  match region with
  | .statement around =>
    some (if node.form = .foreachStatement then node.span else (node.surroundParts around).scope)
  | .declaration _ span =>
    match node.form with
    | .globalStatement | .declarationList => some span
    | .error => some node.span
    | _ => none
  | _ => none

/-- A declaration has the scope around it, or it is a scope of its own. -/
theorem eq_of_outer?_declaration {owner : Option Bool} {span scope : Span} {node : Node}
    (outerIs : (declaration owner span).outer? node = some scope) :
    scope = node.span ∨ scope = span := by
  unfold outer? at outerIs
  dsimp only at outerIs
  split at outerIs <;> simp_all

/-- A statement has the scope around it, or it is a scope of its own. -/
theorem outer?_statement (around : Surroundings) (node : Node) :
    (statement around).outer? node = some node.span ∨
      (node.form.isScope = false ∧ (statement around).outer? node = some around.scope) := by
  simp only [outer?, Node.surroundParts]
  cases isScope : node.form.isScope with
  | true => simp
  | false =>
    split
    · exact .inl rfl
    · simp

end Region

namespace Node

variable {source : String} {region inner : Region} {node part : Node} {found other : LocalDecl}
  {around : Surroundings} {scope : Span}

/-- The locals that are found in a region. -/
def localsIn (source : String) (region : Region) (node : Node) : List LocalDecl :=
  (node.outline source region).filterMap OutlineItem.declared?

theorem mem_localsIn_iff_mem_outline :
    found ∈ node.localsIn source region ↔ .declared found ∈ node.outline source region := by
  rw [localsIn, List.mem_filterMap]
  constructor
  · rintro ⟨item, isItem, isFound⟩
    cases item <;> simp_all [OutlineItem.declared?]
  · exact fun isItem => ⟨_, isItem, rfl⟩

/-- A local is declared by the node itself or in a node that is searched next. -/
theorem mem_localsIn_iff :
    found ∈ node.localsIn source region ↔
      .found (.declared found) ∈ node.outlineSteps source region ∨
        ∃ inner part, .visit inner part ∈ node.outlineSteps source region ∧
          found ∈ part.localsIn source inner := by
  simp only [mem_localsIn_iff_mem_outline]
  exact mem_outline_iff

theorem not_declared_of_mem_bodySteps {body : BodyScope} :
    .found (.declared found) ∉ node.bodySteps body := by
  simp [bodySteps]

theorem not_declared_of_mem_accessorSteps {parameters : List ParameterDecl} {isStatic : Bool} :
    .found (.declared found) ∉ node.accessorSteps parameters isStatic := by
  unfold accessorSteps
  split <;> simp [bodySteps]

theorem not_declared_of_mem_valueSteps : .found (.declared found) ∉ node.valueSteps around := by
  unfold valueSteps
  split <;> simp

/-- Only declarations of variables and loops over collections declare locals. -/
theorem declared_of_mem_outlineSteps
    (isStep : .found (.declared found) ∈ node.outlineSteps source region) :
    ∃ around, region = .statement around ∧ node.form.isExpression = false ∧
      ((node.form = .variableDeclaration ∧ ∃ declarator ∈ node.children,
          .declared found ∈ declarator.localItems source (node.surroundParts around)
            (node.writtenType? source)) ∨
        (node.form = .foreachStatement ∧ .declared found ∈ node.loopItems source)) := by
  cases region with
  | statement around =>
    refine ⟨around, rfl, ?_⟩
    simp only [outlineSteps, statementSteps] at isStep
    split at isStep
    · simp at isStep
    · rename_i noExpression
      refine ⟨by simpa using noExpression, ?_⟩
      split at isStep
      · rename_i form_eq
        simp [not_declared_of_mem_valueSteps] at isStep
        rcases isStep with ⟨declarator, isChild, -, isLocal⟩
        exact .inl ⟨form_eq, declarator, isChild, isLocal⟩
      · rename_i form_eq
        simp at isStep
        exact .inr ⟨form_eq, isStep⟩
      · simp at isStep
      · simp at isStep
      · split at isStep <;> simp at isStep
  | root around =>
    simp [outlineSteps, rootItems] at isStep
    split at isStep <;> simp at isStep
  | inside around => simp [outlineSteps] at isStep
  | operand around =>
    simp only [outlineSteps, operandSteps] at isStep
    split at isStep
    case h_5 =>
      simp [lambdaSteps] at isStep
      rcases isStep with ⟨child, -, -, isStep⟩
      split at isStep <;> simp at isStep
    all_goals simp at isStep
  | function parameters typeParameters isStatic =>
    simp [outlineSteps, not_declared_of_mem_bodySteps] at isStep
  | accessors parameters isStatic =>
    simp [outlineSteps, not_declared_of_mem_accessorSteps] at isStep
  | declaration owner span =>
    simp only [outlineSteps, declarationSteps] at isStep
    split at isStep
    all_goals
      simp [not_declared_of_mem_accessorSteps, not_declared_of_mem_valueSteps] at isStep

/-- An expression that is searched as an outermost one declares what it declares as an operand. -/
theorem mem_localsIn_operand (member : found ∈ node.localsIn source (.root around)) :
    found ∈ node.localsIn source (.operand around) := by
  rcases mem_localsIn_iff.mp member with isStep | ⟨inner, part, visited, deeper⟩
  · rcases declared_of_mem_outlineSteps isStep with ⟨_, regionIs, -⟩
    cases regionIs
  · simp only [outlineSteps, List.mem_append, List.mem_map, reduceCtorEq, and_false, exists_false,
      false_or, List.mem_singleton, OutlineStep.visit.injEq] at visited
    rwa [visited.1, visited.2] at deeper

/-- A loop searches its collection and its body. -/
theorem role_of_visited_loop (isLoop : node.form = .foreachStatement)
    (visited : .visit inner part ∈ node.outlineSteps source (.statement around)) :
    part ∈ node.children ∧ ((part.role = some .right ∧ inner = .root (node.surroundParts around)) ∨
      part.role = some .body) := by
  have noExpression : node.form.isExpression = false := by rw [isLoop]; rfl
  simp only [outlineSteps, noExpression, Bool.false_eq_true, if_false, statementSteps] at visited
  simp only [isLoop, List.mem_append, List.mem_flatMap, List.mem_ite_nil_right,
    List.mem_singleton, OutlineStep.visit.injEq, List.mem_map, reduceCtorEq, and_false,
    exists_false, or_false, beq_iff_eq] at visited
  rcases visited with ⟨child, isPart, isRight, rfl, rfl⟩ | ⟨child, isPart, isBody, -, rfl⟩
  · exact ⟨isPart, .inl ⟨isRight, rfl⟩⟩
  · exact ⟨isPart, .inr isBody⟩

/-- The local of a declarator. -/
theorem of_mem_localItems {type : Option TypeExpr} {declarator : Node}
    (isLocal : .declared found ∈ declarator.localItems source around type) :
    found.visibleFrom = declarator.span.stop ∧ found.scope = around.scope ∧
      (found.value = .none ∨ ∃ value ∈ declarator.children,
        found.value = .initializer (value.toExpr source)) := by
  unfold localItems at isLocal
  split at isLocal
  · simp at isLocal
  · rw [List.mem_singleton, OutlineItem.declared.injEq] at isLocal
    subst isLocal
    refine ⟨rfl, rfl, ?_⟩
    dsimp only
    split
    · rename_i value isChild _
      exact .inr ⟨value, isChild, rfl⟩
    · exact .inl rfl

/-- The variable of a loop. -/
theorem of_mem_loopItems (isLocal : .declared found ∈ node.loopItems source) :
    ∃ left, node.child? .left = some left ∧ found.visibleFrom = left.span.stop ∧
      found.scope = node.span ∧ ∀ right, node.child? .right = some right →
        found.value = .elementOf (right.toExpr source) := by
  unfold loopItems at isLocal
  split at isLocal
  · rename_i left isLeft
    split at isLocal
    · rw [List.mem_singleton, OutlineItem.declared.injEq] at isLocal
      subst isLocal
      refine ⟨left, isLeft, rfl, rfl, fun right isRight => ?_⟩
      simp [isRight]
    · simp at isLocal
  · simp at isLocal

/-- The value of a local is the conversion of a node. -/
theorem exists_toExpr_of_mem_localsIn (member : found ∈ node.localsIn source region) {value : Expr}
    (valueIs : found.value.expr? = some value) : ∃ part : Node, value = part.toExpr source := by
  induction region, node using outline_induction source with
  | step region node ih =>
    rcases mem_localsIn_iff.mp member with isStep | ⟨inner, part, visited, deeper⟩
    · rcases declared_of_mem_outlineSteps isStep with
        ⟨around, -, -, ⟨-, declarator, -, isLocal⟩ | ⟨-, isLocal⟩⟩
      · rcases (of_mem_localItems isLocal).2.2 with noValue | ⟨part, -, isValue⟩
        · rw [noValue] at valueIs
          cases valueIs
        · rw [isValue] at valueIs
          cases valueIs
          exact ⟨part, rfl⟩
      · unfold loopItems at isLocal
        split at isLocal
        · split at isLocal
          · rw [List.mem_singleton, OutlineItem.declared.injEq] at isLocal
            subst isLocal
            dsimp only at valueIs
            split at valueIs
            · rename_i collection _
              cases valueIs
              exact ⟨collection, rfl⟩
            · cases valueIs
          · simp at isLocal
        · simp at isLocal
    · exact ih inner part visited deeper

theorem eq_of_mem_loopItems (isLocal : .declared found ∈ node.loopItems source)
    (isOther : .declared other ∈ node.loopItems source) : found = other := by
  unfold loopItems at isLocal isOther
  split at isLocal
  · rename_i left isLeft
    simp only [isLeft] at isOther
    split at isLocal
    · rename_i text form_eq
      simp only [form_eq] at isOther
      rw [List.mem_singleton, OutlineItem.declared.injEq] at isLocal isOther
      rw [isLocal, isOther]
    · simp at isLocal
  · simp at isLocal

theorem nameUses_toExpr (source : String) (node : Node) :
    (node.toExpr source).nameUses = (node.toExpr source).nameUse?.toList ++
      node.operands.flatMap fun operand => (operand.toExpr source).nameUses := by
  simp only [Expr.nameUses]
  rw [walk_toExpr, List.filterMap_cons, List.filterMap_flatMap]
  cases (node.toExpr source).nameUse? <;> rfl

/-- What becomes a simple name is a name, and it starts where the name stands. -/
theorem view_of_nameUse? {use : NameUse} (isUse : (node.toExpr source).nameUse? = some use) :
    node.view = .name ∧ use.offset = node.span.start := by
  rcases Expr.exists_of_nameUse? isUse with ⟨name, span, exprIs, -, -, start_eq⟩
  have span_eq := span_toExpr source node
  rw [exprIs, Expr.span, Option.some.injEq] at span_eq
  refine ⟨?_, by rw [← start_eq, span_eq]⟩
  rw [toExpr] at exprIs
  split at exprIs
  · assumption
  all_goals cases exprIs

theorem encloses_of_mem_nameUses (laidOut : node.IsLaidOut source) {use : NameUse}
    (isUse : use ∈ (node.toExpr source).nameUses) : node.span.encloses use.offset = true := by
  rcases List.mem_filterMap.mp isUse with ⟨expr, inTree, nameIs⟩
  rcases exists_holds_of_mem_walk inTree with ⟨inner, holds, rfl⟩
  rw [(view_of_nameUse? nameIs).2]
  have bounds : node.span.start ≤ inner.span.start ∧ inner.span.start < node.span.stop := by
    rcases holds with rfl | isPart
    · exact ⟨Nat.le_refl _, laidOut.covers⟩
    · have within := isPart.within laidOut
      have covers := (isPart.isLaidOut laidOut).covers
      omega
  exact Span.encloses_iff.mpr bounds

/-- A node that declares a local has a scope for it. -/
theorem outer?_of_declared (isStep : .found (.declared found) ∈ node.outlineSteps source region) :
    region.outer? node = some found.scope := by
  rcases declared_of_mem_outlineSteps isStep with
    ⟨around, rfl, -, ⟨form_eq, declarator, -, isLocal⟩ | ⟨form_eq, isLocal⟩⟩
  · simp [Region.outer?, form_eq, (of_mem_localItems isLocal).2.1]
  · rcases of_mem_loopItems isLocal with ⟨left, -, -, scope_eq, -⟩
    simp [Region.outer?, form_eq, scope_eq]

/-- A body is searched as a scope of its own. -/
theorem outer?_of_mem_bodySteps {body : BodyScope}
    (visited : .visit inner part ∈ node.bodySteps body) (outerIs : inner.outer? part = some scope) :
    scope = part.span := by
  simp only [bodySteps, List.mem_cons, reduceCtorEq, OutlineStep.visit.injEq, List.not_mem_nil,
    or_false, false_or] at visited
  rcases visited with ⟨rfl, rfl⟩
  rcases Region.outer?_statement ⟨true, false, part.span⟩ part with own | ⟨-, own⟩
  · rw [own, Option.some.injEq] at outerIs
    exact outerIs.symm
  · rw [own, Option.some.injEq] at outerIs
    exact outerIs.symm

theorem outer?_of_mem_accessorSteps {parameters : List ParameterDecl} {isStatic : Bool}
    (visited : .visit inner part ∈ node.accessorSteps parameters isStatic)
    (outerIs : inner.outer? part = some scope) : scope = part.span := by
  unfold accessorSteps at visited
  split at visited
  · rcases OutlineStep.visit_mem_singleton.mp visited with ⟨rfl, rfl⟩
    cases outerIs
  · rcases OutlineStep.visit_mem_singleton.mp visited with ⟨rfl, rfl⟩
    cases outerIs
  · exact outer?_of_mem_bodySteps visited outerIs
  · simp at visited

/-- A block that is searched as a statement is a scope of its own. -/
theorem outer?_of_form_eq_block (isBlock : part.form = .block)
    (outerIs : (Region.statement around).outer? part = some scope) : scope = part.span := by
  rcases Region.outer?_statement around part with own | ⟨noScope, -⟩
  · rw [own, Option.some.injEq] at outerIs
    exact outerIs.symm
  · rw [isBlock] at noScope
    cases noScope

theorem outer?_of_mem_operandSteps
    (visited : .visit inner part ∈ node.operandSteps source around)
    (outerIs : inner.outer? part = some scope) : scope = part.span := by
  unfold operandSteps at visited
  split at visited
  · rcases OutlineStep.visit_mem_singleton.mp visited with ⟨rfl, rfl⟩
    cases outerIs
  · rcases OutlineStep.visit_mem_singleton.mp visited with ⟨rfl, rfl⟩
    cases outerIs
  · simp only [List.mem_cons, OutlineStep.visit.injEq, List.mem_map] at visited
    rcases visited with ⟨rfl, -⟩ | ⟨view, -, rfl, -⟩ <;> cases outerIs
  · simp only [List.mem_append, List.mem_flatMap, List.mem_map, List.mem_ite_nil_right,
      List.mem_singleton, OutlineStep.visit.injEq] at visited
    rcases visited with ⟨list, -, view, -, rfl, -⟩ | ⟨child, -, -, rfl, -⟩ <;> cases outerIs
  · simp only [List.mem_cons, reduceCtorEq, false_or, List.mem_flatMap, lambdaSteps,
      List.mem_ite_nil_right] at visited
    rcases visited with ⟨child, -, -, visited⟩
    split at visited
    · rename_i isBlock
      rcases OutlineStep.visit_mem_singleton.mp visited with ⟨rfl, rfl⟩
      exact outer?_of_form_eq_block (eq_of_beq isBlock) outerIs
    · rcases OutlineStep.visit_mem_singleton.mp visited with ⟨rfl, rfl⟩
      cases outerIs
  · simp only [List.mem_map, OutlineStep.visit.injEq] at visited
    rcases visited with ⟨operand, -, rfl, -⟩
    cases outerIs

theorem outer?_of_mem_statementSteps
    (visited : .visit inner part ∈ node.statementSteps source around)
    (outerIs : inner.outer? part = some scope) :
    scope = part.span ∨ (Region.statement around).outer? node = some scope := by
  unfold statementSteps at visited
  split at visited
  · simp only [valueSteps, List.mem_flatMap, List.mem_ite_nil_right, List.mem_append,
      List.mem_map, reduceCtorEq, and_false, exists_false, or_false] at visited
    rcases visited with ⟨declarator, -, -, visited⟩
    split at visited
    · rcases OutlineStep.visit_mem_singleton.mp visited with ⟨rfl, rfl⟩
      cases outerIs
    · simp at visited
  · rename_i isLoop
    simp only [List.mem_append, List.mem_flatMap, List.mem_ite_nil_right, List.mem_singleton,
      OutlineStep.visit.injEq, List.mem_map, reduceCtorEq, and_false, exists_false,
      or_false] at visited
    rcases visited with ⟨child, -, -, rfl, -⟩ | ⟨child, -, -, rfl, -⟩
    · cases outerIs
    · rcases Region.outer?_statement { node.surroundParts around with scope := node.span } part with
        own | ⟨-, own⟩
      · exact .inl (Option.some.inj (own ▸ outerIs)).symm
      · rw [← outerIs, own]
        simp [Region.outer?, isLoop]
  · rcases OutlineStep.visit_mem_singleton.mp visited with ⟨rfl, rfl⟩
    cases outerIs
  · simp at visited
  · split at visited
    · simp at visited
    · rename_i noLoop _ _ _
      simp only [List.mem_map, OutlineStep.visit.injEq] at visited
      rcases visited with ⟨child, -, rfl, rfl⟩
      rcases Region.outer?_statement (node.surroundParts around) child with own | ⟨-, own⟩
      · exact .inl (Option.some.inj (own ▸ outerIs)).symm
      · rw [← outerIs, own, Region.outer?, if_neg noLoop]
        simp

theorem outer?_of_mem_declarationSteps {owner : Option Bool} {span : Span}
    (visited : .visit inner part ∈ node.declarationSteps source owner span)
    (outerIs : inner.outer? part = some scope) :
    scope = part.span ∨ (Region.declaration owner span).outer? node = some scope := by
  unfold declarationSteps at visited
  split at visited
  · rename_i isGlobal
    simp only [List.mem_map, OutlineStep.visit.injEq] at visited
    rcases visited with ⟨child, -, rfl, rfl⟩
    rcases Region.outer?_statement ⟨true, node.hasError, span⟩ child with own | ⟨-, own⟩
    · exact .inl (Option.some.inj (own ▸ outerIs)).symm
    · rw [← outerIs, own, Region.outer?, isGlobal]
      exact .inr rfl
  case h_4 isList =>
    simp only [List.mem_map, OutlineStep.visit.injEq] at visited
    rcases visited with ⟨child, -, rfl, rfl⟩
    rw [Region.outer?, isList]
    rcases Region.eq_of_outer?_declaration outerIs with own | rfl
    · exact .inl own
    · exact .inr rfl
  case h_13 isError =>
    simp only [List.mem_map, OutlineStep.visit.injEq] at visited
    rcases visited with ⟨child, -, rfl, rfl⟩
    rw [Region.outer?, isError]
    rcases Region.eq_of_outer?_declaration outerIs with own | rfl
    · exact .inl own
    · exact .inr rfl
  case h_11 =>
    simp only [List.mem_append, List.mem_flatMap, List.mem_ite_nil_right, List.mem_singleton,
      OutlineStep.visit.injEq] at visited
    rcases visited with ⟨child, -, visited⟩ | ⟨child, -, -, rfl, -⟩
    · exact .inl (outer?_of_mem_accessorSteps visited outerIs)
    · cases outerIs
  case h_12 =>
    simp only [List.mem_flatMap, List.mem_ite_nil_right, valueSteps] at visited
    rcases visited with ⟨declaration, -, -, declarator, -, visited⟩
    split at visited
    · rcases OutlineStep.visit_mem_singleton.mp visited with ⟨rfl, rfl⟩
      cases outerIs
    · simp at visited
  all_goals simp only [List.mem_flatMap, List.mem_ite_nil_left, List.mem_ite_nil_right,
    List.mem_singleton, OutlineStep.visit.injEq, List.not_mem_nil] at visited
  all_goals grind [Region.outer?]

/-- A node that is searched next is a scope of its own, or it has the scope of the node. -/
theorem outer?_of_mem_outlineSteps (visited : .visit inner part ∈ node.outlineSteps source region)
    (outerIs : inner.outer? part = some scope) :
    scope = part.span ∨ region.outer? node = some scope := by
  cases region with
  | inside around =>
    simp only [outlineSteps, List.mem_map, OutlineStep.visit.injEq] at visited
    rcases visited with ⟨child, -, regionIs, rfl⟩
    unfold regionInside at regionIs
    split at regionIs
    · rename_i isBlock
      rw [← regionIs] at outerIs
      exact .inl (outer?_of_form_eq_block (eq_of_beq isBlock) outerIs)
    · split at regionIs <;> (rw [← regionIs] at outerIs; cases outerIs)
  | root around =>
    simp only [outlineSteps, List.mem_append, List.mem_map, reduceCtorEq, and_false, exists_false,
      false_or, List.mem_singleton, OutlineStep.visit.injEq] at visited
    rw [visited.1] at outerIs
    cases outerIs
  | operand around => exact .inl (outer?_of_mem_operandSteps visited outerIs)
  | statement around =>
    simp only [outlineSteps] at visited
    split at visited
    · rcases OutlineStep.visit_mem_singleton.mp visited with ⟨rfl, rfl⟩
      cases outerIs
    · exact outer?_of_mem_statementSteps visited outerIs
  | function parameters typeParameters isStatic =>
    simp only [outlineSteps, List.mem_flatMap, List.mem_ite_nil_right] at visited
    rcases visited with ⟨child, -, -, visited⟩
    exact .inl (outer?_of_mem_bodySteps visited outerIs)
  | accessors parameters isStatic =>
    rcases List.mem_flatMap.mp visited with ⟨child, -, visited⟩
    exact .inl (outer?_of_mem_accessorSteps visited outerIs)
  | declaration owner span => exact outer?_of_mem_declarationSteps visited outerIs

/-- The scope of a local is a part of the node that the local is found in, or the scope that the
node is searched in. -/
theorem scope_of_mem_localsIn (laidOut : node.IsLaidOut source)
    (member : found ∈ node.localsIn source region) :
    node.span.contains found.scope = true ∨ region.outer? node = some found.scope := by
  induction region, node using outline_induction source with
  | step region node ih =>
    rcases mem_localsIn_iff.mp member with isStep | ⟨inner, part, visited, deeper⟩
    · exact .inr (outer?_of_declared isStep)
    · have inside := contains_of_mem_outlineSteps laidOut visited
      rcases ih inner part visited (isLaidOut_of_mem_outlineSteps laidOut visited) deeper with
        contains | outerIs
      · exact .inl (Span.contains_trans inside contains)
      · rcases outer?_of_mem_outlineSteps visited outerIs with own | outerIs
        · rw [own]
          exact .inl inside
        · exact .inr outerIs

/-- The scope of a local in a node that is searched next. -/
theorem scope_of_visited (laidOut : node.IsLaidOut source)
    (visited : .visit inner part ∈ node.outlineSteps source region)
    (deeper : found ∈ part.localsIn source inner) :
    part.span.contains found.scope = true ∨ region.outer? node = some found.scope := by
  rcases scope_of_mem_localsIn (isLaidOut_of_mem_outlineSteps laidOut visited) deeper with
    contains | outerIs
  · exact .inl contains
  · rcases outer?_of_mem_outlineSteps visited outerIs with own | outerIs
    · rw [own]
      exact .inl (Span.contains_self _)
    · exact .inr outerIs

/-- No name of an operand stands in the scope of a local that is declared inside of the operand. -/
theorem not_encloses_of_mem_localsIn (laidOut : node.IsLaidOut source) {use : NameUse}
    (isUse : use ∈ (node.toExpr source).nameUses)
    (member : found ∈ node.localsIn source (.operand around)) :
    found.scope.encloses use.offset = false := by
  induction node using operandInduction generalizing around with
  | step node ih =>
    rcases mem_localsIn_iff.mp member with isStep | ⟨inner, part, visited, deeper⟩
    · rcases declared_of_mem_outlineSteps isStep with ⟨_, regionIs, -⟩
      cases regionIs
    rw [nameUses_toExpr, List.mem_append, List.mem_flatMap, Option.mem_toList] at isUse
    rcases isUse with isUse | ⟨operand, isOperand, isUse⟩
    · -- a name has no parts that could declare anything
      rw [outlineSteps, operandSteps, (view_of_nameUse? isUse).1] at visited
      simp [ExprView.parts] at visited
    have operandLaidOut :=
      (node.hasOperands_operands.hasPart operand isOperand).isLaidOut laidOut
    obtain ⟨around', searched⟩ :
        ∃ around', .visit (.operand around') operand ∈ node.operandSteps source around :=
      mem_operandSteps_of_mem_operands isOperand
    -- the operand is searched by a step of its own, and all other steps stay apart from it
    by_cases same : OutlineStep.visit inner part = .visit (.operand around') operand
    · rw [OutlineStep.visit.injEq] at same
      rw [same.1, same.2] at deeper
      exact ih operand isOperand operandLaidOut isUse deeper
    · have apart : operand.span.Apart part.span :=
        (pairwise_apart_operandSteps laidOut).forall searched visited (Ne.symm same)
      have inPart : part.span.contains found.scope = true :=
        (scope_of_visited laidOut visited deeper).resolve_right (by simp [Region.outer?])
      rw [Span.contains_iff] at inPart
      have named := encloses_of_mem_nameUses operandLaidOut isUse
      rw [Span.encloses_iff] at named
      rw [← Bool.not_eq_true, Span.encloses_iff]
      unfold Span.Apart at apart
      omega

/-- The parts of a loop: the variable, the collection behind it, and the body behind both. -/
theorem IsLaidOut.exists_collection (laidOut : node.IsLaidOut source)
    (isLoop : node.form = .foreachStatement) :
    ∃ collection ∈ node.children, node.child? .right = some collection ∧
      (∀ child ∈ node.children, child.role = some .right → child = collection) ∧
      (∀ child ∈ node.children, child.role = some .left → child.EndsBefore collection) ∧
      ∀ child ∈ node.children, child.role = some .body → collection.EndsBefore child := by
  have nonempty : node.children ≠ [] := by
    intro bare
    have written := laidOut.written bare
    rw [isLoop] at written
    cases written
  have runs := (laidOut.admits nonempty).looped isLoop
  have ordered := laidOut.ordered
  unfold child?
  generalize node.children = parts at runs ordered ⊢
  -- what stands in front of the collection has no role that stands behind it
  cases runs with
  | @intro front collection closing body inFront isCollection isMark isBody =>
    rcases List.pairwise_append.mp ordered with ⟨-, back, before⟩
    have notInFront {part : Node} {role : Role} (isPart : part ∈ front)
        (isRole : part.role = some role) : role ≠ .right ∧ role ≠ .body := by
      have isHead := inFront part isPart
      constructor <;> rintro rfl <;> simp [IsLoopHead, isRole] at isHead
    refine ⟨collection, by simp, ?_, ?_, ?_, ?_⟩
    · rw [List.find?_append, List.find?_eq_none.mpr]
      · simp [isCollection]
      · intro part isPart
        simpa using (inFront part isPart).1
    · intro child isChild isRight
      rcases List.mem_append.mp isChild with isFront | isBack
      · exact absurd rfl (notInFront isFront isRight).1
      · grind
    · intro child isChild isLeft
      rcases List.mem_append.mp isChild with isFront | isBack
      · exact before child isFront collection (by simp)
      · grind
    · intro child isChild isBody'
      rcases List.mem_append.mp isChild with isFront | isBack
      · exact absurd rfl (notInFront isFront isBody').2
      · grind

/-- Where a local becomes visible in the node that declares it: behind the start of the node, and
never in the midst of a part that is searched. -/
theorem visibleFrom_of_mem_outlineSteps (laidOut : node.IsLaidOut source)
    (isStep : .found (.declared found) ∈ node.outlineSteps source region) :
    (node.span.start < found.visibleFrom ∧ found.visibleFrom ≤ node.span.stop) ∧
      ∀ inner part, .visit inner part ∈ node.outlineSteps source region →
        found.visibleFrom ≤ part.span.start ∨ part.span.stop ≤ found.visibleFrom := by
  rcases declared_of_mem_outlineSteps isStep with
    ⟨around, rfl, noExpression, ⟨form_eq, declarator, isChild, isLocal⟩ | ⟨form_eq, isLocal⟩⟩
  · rw [(of_mem_localItems isLocal).1]
    have within := laidOut.within _ isChild
    have covers := (laidOut.parts _ isChild).covers
    refine ⟨by omega, fun inner part visited => ?_⟩
    simp only [outlineSteps, noExpression, Bool.false_eq_true, if_false, statementSteps] at visited
    simp only [form_eq, List.mem_flatMap, List.mem_ite_nil_right, List.mem_append, List.mem_map,
      reduceCtorEq, and_false, exists_false, or_false] at visited
    rcases visited with ⟨other, isOther, -, visited⟩
    have inOther := (hasPart_of_mem_valueSteps visited).within (laidOut.parts _ isOther)
    by_cases same : declarator = other
    · rw [same]
      exact .inr inOther.2
    · have apart := laidOut.apart isChild isOther same
      unfold Span.Apart at apart
      omega
  · rcases of_mem_loopItems isLocal with ⟨left, isLeft, from_eq, -⟩
    have isChild := child?_mem isLeft
    have within := laidOut.within _ isChild
    have covers := (laidOut.parts _ isChild).covers
    rw [from_eq]
    refine ⟨by omega, fun inner part visited => ?_⟩
    rcases role_of_visited_loop form_eq visited with ⟨isPart, inRole⟩
    have isVariable : left.role = some .left := by simpa using List.find?_some isLeft
    have ne : left ≠ part := by
      rintro rfl
      simp [isVariable] at inRole
    have apart := laidOut.apart isChild isPart ne
    unfold Span.Apart at apart
    omega

/-- The value of a local that a node declares stands in the node. -/
theorem placed_of_mem_outlineSteps (laidOut : node.IsLaidOut source)
    (isStep : .found (.declared found) ∈ node.outlineSteps source region) :
    (∀ use ∈ found.nameUses, node.span.encloses use.offset = true) ∧ found.IsPlaced := by
  have inNode {part : Node} (isPart : node.HasPart part) {use : NameUse}
      (isUse : use ∈ (part.toExpr source).nameUses) :
      part.span.encloses use.offset = true ∧ node.span.encloses use.offset = true := by
    have within := isPart.within laidOut
    have inPart := encloses_of_mem_nameUses (isPart.isLaidOut laidOut) isUse
    refine ⟨inPart, ?_⟩
    rw [Span.encloses_iff] at inPart ⊢
    omega
  -- a declared variable becomes visible behind its value, that of a loop in front of its collection
  rcases declared_of_mem_outlineSteps isStep with
    ⟨around, rfl, -, ⟨-, declarator, isChild, isLocal⟩ | ⟨form_eq, isLocal⟩⟩
  · rcases of_mem_localItems isLocal with ⟨from_eq, -, noValue | ⟨value, isPart, valueIs⟩⟩
    · rw [LocalDecl.nameUses_of_none noValue]
      refine ⟨by simp, .behind (by simp [noValue]) ?_⟩
      simp [LocalDecl.nameUses_of_none noValue]
    · have uses : found.nameUses = (value.toExpr source).nameUses :=
        LocalDecl.nameUses_of_expr? (by rw [valueIs]; rfl)
      have inside := (HasPart.child isChild).deeper isPart
      refine ⟨fun use isUse => (inNode inside (uses ▸ isUse)).2, .behind (by simp [valueIs]) ?_⟩
      intro use isUse
      have inValue := (inNode inside (uses ▸ isUse)).1
      have within := (laidOut.parts _ isChild).within _ isPart
      rw [Span.encloses_iff] at inValue
      omega
  · rcases of_mem_loopItems isLocal with ⟨left, isLeft, from_eq, scope_eq, valueIs⟩
    rcases laidOut.exists_collection form_eq with ⟨collection, isChild, isRight, -, inFront, -⟩
    have valueIs := valueIs collection isRight
    have uses : found.nameUses = (collection.toExpr source).nameUses :=
      LocalDecl.nameUses_of_expr? (by rw [valueIs]; rfl)
    have inRole : left.role = some .left := by simpa using List.find?_some isLeft
    have before := inFront left (child?_mem isLeft) inRole
    refine ⟨fun use isUse => (inNode (.child isChild) (uses ▸ isUse)).2, .inFront valueIs ?_⟩
    intro use isUse
    rcases inNode (.child isChild) (uses ▸ isUse) with ⟨inCollection, inside⟩
    refine ⟨by rw [scope_eq]; exact inside, ?_⟩
    rw [Span.encloses_iff] at inCollection
    unfold EndsBefore at before
    omega

theorem isPlaced_of_mem_localsIn (laidOut : node.IsLaidOut source)
    (member : found ∈ node.localsIn source region) : found.IsPlaced := by
  induction region, node using outline_induction source with
  | step region node ih =>
    rcases mem_localsIn_iff.mp member with isStep | ⟨inner, part, visited, deeper⟩
    · exact (placed_of_mem_outlineSteps laidOut isStep).2
    · exact ih inner part visited (isLaidOut_of_mem_outlineSteps laidOut visited) deeper

/-- A local is declared in the node that it is found in, and its value stands there. -/
theorem standsIn_of_mem_localsIn (laidOut : node.IsLaidOut source)
    (member : found ∈ node.localsIn source region) : found.StandsIn node.span := by
  induction region, node using outline_induction source with
  | step region node ih =>
    rcases mem_localsIn_iff.mp member with isStep | ⟨inner, part, visited, deeper⟩
    · exact ⟨(visibleFrom_of_mem_outlineSteps laidOut isStep).1,
        (placed_of_mem_outlineSteps laidOut isStep).1⟩
    · have stands := ih inner part visited (isLaidOut_of_mem_outlineSteps laidOut visited) deeper
      exact stands.mono (contains_of_mem_outlineSteps laidOut visited)

/-- The collection of a loop sees none of the locals that the loop declares besides its variable:
those inside of the collection have scopes of their own, and those of the body come later. -/
theorem looksBackAt_of_mem_loopItems (laidOut : node.IsLaidOut source)
    (isLoop : node.form = .foreachStatement) (isLocal : .declared found ∈ node.loopItems source)
    (visited : .visit inner part ∈ node.outlineSteps source (.statement around))
    (deeper : other ∈ part.localsIn source inner) : found.LooksBackAt other := by
  rcases laidOut.exists_collection isLoop with
    ⟨collection, isChild, isRight, onlyRight, -, bodyBehind⟩
  rcases of_mem_loopItems isLocal with ⟨left, -, -, -, valueIs⟩
  have uses : found.nameUses = (collection.toExpr source).nameUses :=
    LocalDecl.nameUses_of_expr? (by rw [valueIs collection isRight]; rfl)
  intro use isUse visible
  rw [uses] at isUse
  rcases role_of_visited_loop isLoop visited with ⟨isPart, ⟨inRole, rfl⟩ | inRole⟩
  · rw [onlyRight _ isPart inRole] at deeper
    have hidden := not_encloses_of_mem_localsIn (laidOut.parts _ isChild) isUse
      (mem_localsIn_operand deeper)
    rw [visible.1] at hidden
    cases hidden
  · have before := bodyBehind part isPart inRole
    have inCollection := encloses_of_mem_nameUses (laidOut.parts _ isChild) isUse
    have declared := (standsIn_of_mem_localsIn (laidOut.parts _ isPart) deeper).declared
    have from_ := visible.2
    rw [Span.encloses_iff] at inCollection
    unfold EndsBefore at before
    omega

/-- A local that a node declares looks back at every other local that is found there. -/
theorem looksBackAt_of_mem_outlineSteps (laidOut : node.IsLaidOut source)
    (isStep : .found (.declared found) ∈ node.outlineSteps source region)
    (isOther : other ∈ node.localsIn source region) :
    found = other ∨ found.LooksBackAt other := by
  cases (placed_of_mem_outlineSteps laidOut isStep).2 with
  | behind noLoop before => exact .inr (LocalDecl.looksBackAt_of_before before other)
  | inFront loop sees =>
    rcases declared_of_mem_outlineSteps isStep with
      ⟨around, rfl, -, ⟨-, declarator, -, isLocal⟩ | ⟨form_eq, isLocal⟩⟩
    · rcases of_mem_localItems isLocal with ⟨-, -, noValue | ⟨value, -, valueIs⟩⟩
      · rw [noValue] at loop
        cases loop
      · rw [valueIs] at loop
        cases loop
    · rcases mem_localsIn_iff.mp isOther with isStep' | ⟨inner, part, visited, deeper⟩
      · rcases declared_of_mem_outlineSteps isStep' with
          ⟨_, -, -, ⟨form_eq', -⟩ | ⟨-, isOtherLocal⟩⟩
        · rw [form_eq] at form_eq'
          cases form_eq'
        · exact .inl (eq_of_mem_loopItems isLocal isOtherLocal)
      · exact .inr (looksBackAt_of_mem_loopItems laidOut form_eq isLocal visited deeper)

/-- A local looks back at every other one that is found in the same region. -/
theorem looksBackAt_of_mem_localsIn (laidOut : node.IsLaidOut source)
    (isFound : found ∈ node.localsIn source region)
    (isOther : other ∈ node.localsIn source region) :
    found = other ∨ found.LooksBackAt other := by
  induction region, node using outline_induction source with
  | step region node ih =>
    rcases mem_localsIn_iff.mp isFound with isStep | ⟨inner, part, visited, deeper⟩
    · exact looksBackAt_of_mem_outlineSteps laidOut isStep isOther
    have partLaidOut := isLaidOut_of_mem_outlineSteps laidOut visited
    have stands := standsIn_of_mem_localsIn partLaidOut deeper
    rcases mem_localsIn_iff.mp isOther with isStep | ⟨inner', part', visited', deeper'⟩
    · exact .inr (stands.looksBackAt
        ((visibleFrom_of_mem_outlineSteps laidOut isStep).2 inner part visited))
    by_cases same : OutlineStep.visit inner part = .visit inner' part'
    · rw [OutlineStep.visit.injEq] at same
      rw [← same.1, ← same.2] at deeper'
      exact ih inner part visited partLaidOut deeper deeper'
    · have apart : part.span.Apart part'.span :=
        (pairwise_apart_outlineSteps laidOut region).forall visited visited' same
      have declared := (standsIn_of_mem_localsIn
        (isLaidOut_of_mem_outlineSteps laidOut visited') deeper').declared
      refine .inr (stands.looksBackAt ?_)
      unfold Span.Apart at apart
      omega

theorem IsDocument.mem_localsIn (isDocument : node.IsDocument source) {span : Span}
    (member : found ∈ node.localsIn source (.declaration none span)) :
    ∃ item ∈ node.children, found ∈ item.localsIn source (.declaration none span) := by
  have steps := isDocument.outlineSteps_eq span
  rcases mem_localsIn_iff.mp member with isStep | ⟨inner, part, visited, deeper⟩
  · rw [steps] at isStep
    simp at isStep
  · rw [steps] at visited
    simp only [List.mem_map, OutlineStep.visit.injEq] at visited
    rcases visited with ⟨item, isItem, rfl, rfl⟩
    exact ⟨item, isItem, deeper⟩

end Node

/-- Each local stands behind its value or in front of the collection of its loop, and wherever a
name in the value of a local can stand for another one, the other one became visible earlier. -/
structure Declarations.HasOrderedLocals (declarations : Declarations) : Prop where
  isPlaced : ∀ found ∈ declarations.locals, found.IsPlaced
  looksBackAt : ∀ found ∈ declarations.locals, ∀ other ∈ declarations.locals,
    found = other ∨ found.LooksBackAt other

/-- The locals of a document look back. -/
theorem ParsedDocument.hasOrderedLocals {source : String} {node : Node}
    (isDocument : node.IsDocument source) :
    (ofNode source node).declarations.HasOrderedLocals := by
  have laidOut := isDocument.laidOut
  constructor
  · intro found isFound
    rcases isDocument.mem_localsIn isFound with ⟨item, isItem, inside⟩
    exact Node.isPlaced_of_mem_localsIn (laidOut item isItem) inside
  · intro found isFound other isOther
    rcases isDocument.mem_localsIn isFound with ⟨item, isItem, inside⟩
    rcases isDocument.mem_localsIn isOther with ⟨item', isItem', inside'⟩
    by_cases same : item = item'
    · rw [← same] at inside'
      exact Node.looksBackAt_of_mem_localsIn (laidOut item isItem) inside inside'
    · have apart := Node.apart_of_ordered isDocument.ordered isItem isItem' same
      have stands := Node.standsIn_of_mem_localsIn (laidOut item isItem) inside
      have declared := (Node.standsIn_of_mem_localsIn (laidOut item' isItem') inside').declared
      refine .inr (stands.looksBackAt ?_)
      unfold Span.Apart at apart
      omega

end AssertionLint
