import AssertionLint.CSharp.Document

/-!
# Steps of the outline

The walk over the concrete syntax that finds the outermost expressions is one recursion over seven
kinds of regions. Here it is taken apart into steps: what a region of a node finds by itself, and
the nodes that are searched next, each with its region (`Node.outlineSteps`). The outline is what
the steps find in turn (`Node.outline_eq_flatMap`), and what a step passes on from the nodes that
it visits holds of every node (`Node.outline_induction`).
-/

namespace AssertionLint

/-- A finding of the outline, or a node that is searched as a region. -/
inductive OutlineStep
  | found (item : OutlineItem)
  | visit (region : Region) (node : Node)

namespace OutlineStep

/-- What a step adds to the outline. -/
def items (source : String) : OutlineStep → List OutlineItem
  | found item => [item]
  | visit region node => node.outline source region

@[simp]
theorem items_found (source : String) (item : OutlineItem) :
    (found item).items source = [item] := rfl

@[simp]
theorem items_visit (source : String) (region : Region) (node : Node) :
    (visit region node).items source = node.outline source region := rfl

end OutlineStep

namespace Node

/-- How a part of a form is searched that analysis does not look into. -/
def regionInside (around : Surroundings) (child : Node) : Region :=
  if child.form == .block then .statement around
  else if child.form.isExpression then .root around
  else .inside around

/-- How a part of a lambda is searched. -/
def lambdaSteps (around : Surroundings) (child : Node) : List OutlineStep :=
  if child.role == some .body then
    let inner := { around with inMethodBody := true, scope := child.span }
    if child.form == .block then [.visit (.statement inner) child]
    else [.visit (.operand inner) child]
  else []

/-- The steps of an expression that is part of a converted one. -/
def operandSteps (source : String) (around : Surroundings) (node : Node) : List OutlineStep :=
  match node.view with
  | .interpolatedString | .other _ => [.visit (.inside around) node]
  | .invocation target list =>
    .visit (.operand around) target ::
      list.arguments.map fun view => .visit (.operand around) view.value
  | .objectCreation _ list =>
    (list.toList.flatMap fun list => list.arguments.map fun view =>
      .visit (.operand around) view.value) ++
      node.children.flatMap fun child =>
        if child.form == .initializer then [.visit (.inside around) child] else []
  | .lambda _ =>
    .found (.body ⟨node.span, node.lambdaParameters source, [], false⟩) ::
      node.children.flatMap (lambdaSteps around)
  | view => view.parts.map fun part => .visit (.operand around) part

/-- The value of a declarator, searched as an outermost expression. -/
def valueSteps (around : Surroundings) (declarator : Node) : List OutlineStep :=
  match declarator.declaredValue? with
  | some ⟨value, _⟩ => [.visit (.root around) value]
  | none => []

/-- The steps of a statement that is no expression. -/
def statementSteps (source : String) (around : Surroundings) (node : Node) : List OutlineStep :=
  let inner := node.surroundParts around
  match node.form with
  | .variableDeclaration =>
    node.children.flatMap fun declarator =>
      if declarator.form == .declarator then
        declarator.valueSteps inner ++
          (declarator.localItems source inner (node.writtenType? source)).map .found
      else []
  | .foreachStatement =>
    (node.children.flatMap fun child =>
      if child.role == some .right then [.visit (.root inner) child] else []) ++
    (node.loopItems source).map .found ++
    node.children.flatMap fun child =>
      if child.role == some .body then
        [.visit (.statement { inner with scope := node.span }) child]
      else []
  | .localFunction =>
    [.visit (.function (node.declaredParameters source) node.typeParameterNames false) node]
  | .attributeList => []
  | form =>
    if form.isType then []
    else node.children.map fun child => .visit (.statement inner) child

/-- A body and its search. -/
def bodySteps (scope : BodyScope) (body : Node) : List OutlineStep :=
  [.found (.body scope), .visit (.statement ⟨true, false, body.span⟩) body]

/-- The steps of one part of a member with accessors. -/
def accessorSteps (parameters : List ParameterDecl) (isStatic : Bool) (child : Node) :
    List OutlineStep :=
  match child.form with
  | .accessorList => [.visit (.accessors parameters isStatic) child]
  | .accessor => [.visit (.function parameters [] isStatic) child]
  | .arrowClause => child.bodySteps ⟨child.span, parameters, [], isStatic⟩
  | _ => []

/-- The steps of a declaration. -/
def declarationSteps (source : String) (owner : Option Bool) (span : Span) (node : Node) :
    List OutlineStep :=
  match node.form, owner with
  | .globalStatement, _ =>
    node.children.map fun child => .visit (.statement ⟨true, node.hasError, span⟩) child
  | .namespaceDeclaration, _ =>
    node.children.flatMap fun child =>
      if child.role == some .body then [.visit (.declaration none child.span) child] else []
  | .typeDeclaration kind, _ =>
    if kind = .enum then []
    else node.children.flatMap fun child =>
      if child.role == some .body then
        [.visit (.declaration (some (node.leadingWords.contains "static")) child.span) child]
      else []
  | .declarationList, _ =>
    node.children.map fun child => .visit (.declaration owner span) child
  | .methodDeclaration, some static =>
    [.visit (.function (node.declaredParameters source) node.typeParameterNames
      (node.leadingWords.contains "static" || static)) node]
  | .constructorDeclaration, some _ =>
    [.visit (.function (node.declaredParameters source) []
      (node.leadingWords.contains "static")) node]
  | .operatorDeclaration, some _ | .conversionDeclaration, some _ =>
    [.visit (.function (node.declaredParameters source) [] true) node]
  | .indexerDeclaration, some static =>
    [.visit (.accessors (node.declaredParameters source) static) node]
  | .eventDeclaration, some _ => [.visit (.accessors [] false) node]
  | .propertyDeclaration, some static =>
    let value : ParameterDecl :=
      ⟨"value", (node.child? .type).map (·.toType source), false, false, false⟩
    (node.children.flatMap
      (accessorSteps [value] (node.leadingWords.contains "static" || static))) ++
      node.children.flatMap fun child =>
        if child.role == some .value && child.form != .arrowClause then
          [.visit (.root ⟨false, node.hasError, node.span⟩) child]
        else []
  | .fieldDeclaration, some _ =>
    node.children.flatMap fun declaration =>
      if declaration.form == .variableDeclaration then
        declaration.children.flatMap (valueSteps ⟨false, node.hasError, node.span⟩)
      else []
  | .error, _ => node.children.map fun child => .visit (.declaration owner node.span) child
  | _, _ => []

/-- What a region of a node finds by itself and the nodes that are searched next, in order. -/
def outlineSteps (source : String) (region : Region) (node : Node) : List OutlineStep :=
  match region with
  | .inside around => node.children.map fun child => .visit (child.regionInside around) child
  | .root around =>
    (node.rootItems source around).map .found ++ [.visit (.operand around) node]
  | .operand around => node.operandSteps source around
  | .statement around =>
    if node.form.isExpression then [.visit (.root around) node]
    else node.statementSteps source around
  | .function parameters typeParameters isStatic =>
    node.children.flatMap fun child =>
      if child.role == some .body && child.form.isNamed then
        child.bodySteps ⟨child.span, parameters, typeParameters, isStatic⟩
      else []
  | .accessors parameters isStatic => node.children.flatMap (accessorSteps parameters isStatic)
  | .declaration owner span => node.declarationSteps source owner span

@[simp]
theorem flatMap_items_ite (source : String) (condition : Prop) [Decidable condition]
    (one other : List OutlineStep) :
    (if condition then one else other).flatMap (OutlineStep.items source) =
      if condition then one.flatMap (OutlineStep.items source)
      else other.flatMap (OutlineStep.items source) :=
  apply_ite (List.flatMap (OutlineStep.items source)) condition one other

@[simp]
theorem flatMap_items_valueSteps (source : String) (around : Surroundings) (declarator : Node) :
    (declarator.valueSteps around).flatMap (OutlineStep.items source) =
      match declarator.declaredValue? with
      | some ⟨value, _⟩ => value.outline source (.root around)
      | none => [] := by
  unfold valueSteps
  split <;> simp

@[simp]
theorem flatMap_items_accessorSteps (source : String) (parameters : List ParameterDecl)
    (isStatic : Bool) (child : Node) :
    (child.accessorSteps parameters isStatic).flatMap (OutlineStep.items source) =
      match child.form with
      | .accessorList => child.outline source (.accessors parameters isStatic)
      | .accessor => child.outline source (.function parameters [] isStatic)
      | .arrowClause =>
        .body ⟨child.span, parameters, [], isStatic⟩ ::
          child.outline source (.statement ⟨true, false, child.span⟩)
      | _ => [] := by
  unfold accessorSteps
  split <;> simp [bodySteps]

theorem outline_accessors (source : String) (parameters : List ParameterDecl) (isStatic : Bool)
    (node : Node) :
    node.outline source (.accessors parameters isStatic) =
      node.children.flatMap fun child =>
        (child.accessorSteps parameters isStatic).flatMap (OutlineStep.items source) := by
  rw [outline]
  simp only [List.flatMap_subtype, List.unattach_attach]
  congr 1
  funext child
  exact (flatMap_items_accessorSteps source parameters isStatic child).symm

theorem outline_eq_flatMap (source : String) (region : Region) (node : Node) :
    node.outline source region =
      (node.outlineSteps source region).flatMap (OutlineStep.items source) := by
  -- `outline` and `outlineSteps` branch alike in each kind of region
  cases region with
  | inside around =>
    rw [outline, outlineSteps]
    simp only [List.flatMap_map, OutlineStep.items_visit, regionInside, List.flatMap_subtype,
      List.unattach_attach]
    congr 1
    funext child
    split
    · rfl
    · split <;> rfl
  | root around =>
    rw [outline, outlineSteps]
    simp [List.flatMap_map]
  | operand around =>
    rw [outline, outlineSteps, operandSteps]
    split <;> rename_i h
    · simp [h]
    · simp [h]
    · simp [h, List.flatMap_map]
    · rename_i list
      cases list <;> simp [h, List.flatMap_assoc, List.flatMap_map]
    · simp [h, List.flatMap_assoc, lambdaSteps]
    · simp [List.flatMap_map]
  | statement around =>
    unfold outline outlineSteps statementSteps
    split
    · simp
    · cases node.form with
      | variableDeclaration =>
        simp only [List.flatMap_subtype, List.unattach_attach, List.flatMap_assoc,
          flatMap_items_ite, List.flatMap_append, List.flatMap_map, OutlineStep.items_found,
          List.flatMap_singleton', List.flatMap_nil]
        congr 1
        funext declarator
        split
        · exact congrArg (· ++ _) (flatMap_items_valueSteps ..).symm
        · rfl
      | _ => simp [List.flatMap_assoc, List.flatMap_map]
    | function parameters typeParameters isStatic =>
    rw [outline, outlineSteps]
    simp [List.flatMap_assoc, bodySteps]
  | accessors parameters isStatic =>
    rw [outline_accessors, outlineSteps, List.flatMap_assoc]
  | declaration owner span =>
    unfold outline outlineSteps declarationSteps
    cases node.form with
    | fieldDeclaration =>
      cases owner with
      | none => rfl
      | some static =>
        simp only [List.flatMap_subtype, List.unattach_attach, List.flatMap_assoc,
          flatMap_items_ite, List.flatMap_nil]
        congr 1
        funext declaration
        split
        · congr 1
          funext declarator
          exact (flatMap_items_valueSteps ..).symm
        · rfl
    | propertyDeclaration =>
      cases owner with
      | none => rfl
      | some static =>
        simp only [List.flatMap_append, List.flatMap_assoc]
        rw [outline_accessors]
        simp
    | _ => cases owner <;> simp [List.flatMap_assoc, List.flatMap_map]

/-- A finding is one of the node itself or of a node that is searched next. -/
theorem mem_outline_iff {source : String} {region : Region} {node : Node} {item : OutlineItem} :
    item ∈ node.outline source region ↔
      .found item ∈ node.outlineSteps source region ∨
        ∃ inner part, .visit inner part ∈ node.outlineSteps source region ∧
          item ∈ part.outline source inner := by
  rw [outline_eq_flatMap, List.mem_flatMap]
  constructor
  · rintro ⟨step, isStep, isItem⟩
    cases step with
    | found item' =>
      rw [OutlineStep.items_found, List.mem_singleton] at isItem
      rw [isItem]
      exact .inl isStep
    | visit inner part => exact .inr ⟨inner, part, isStep, isItem⟩
  · rintro (isStep | ⟨inner, part, isStep, isItem⟩)
    · exact ⟨_, isStep, List.mem_singleton_self _⟩
    · exact ⟨_, isStep, isItem⟩

/-- A part of a node, or a part of such a part. -/
inductive HasPart (node : Node) : Node → Prop
  | child {part : Node} (isChild : part ∈ node.children) : HasPart node part
  | deeper {between part : Node} (outer : HasPart node between)
      (isChild : part ∈ between.children) : HasPart node part

theorem HasPart.sizeOf_lt {node part : Node} (isPart : node.HasPart part) :
    sizeOf part < sizeOf node := by
  induction isPart with
  | child isChild => exact sizeOf_lt_of_mem_children isChild
  | deeper _ isChild ih =>
    have := sizeOf_lt_of_mem_children isChild
    omega

theorem hasPart_of_mem_initializerElements {node element : Node}
    (member : element ∈ node.initializerElements) : node.HasPart element := by
  unfold initializerElements at member
  split at member
  · rename_i initializer found
    apply HasPart.deeper (.child (childOfForm?_mem found))
    exact (List.mem_filter.mp member).1
  · simp at member

/-- What a view names are parts of the node. -/
theorem hasPart_of_mem_parts {node part : Node} (member : part ∈ node.view.parts) :
    node.HasPart part := by
  rcases mem_children_or_mem_initializerElements member with isChild | isElement
  · exact .child isChild
  · exact hasPart_of_mem_initializerElements isElement

theorem hasPart_of_mem_arguments {node : Node} {view : ArgumentView}
    (member : view ∈ node.arguments) : node.HasPart view.value := by
  rcases mem_arguments_go member with ⟨isChild, found⟩
  exact .deeper (.child isChild) (argumentValue?_mem found)

theorem HasPart.trans {node between part : Node} (outer : node.HasPart between)
    (inner : between.HasPart part) : node.HasPart part := by
  induction inner with
  | child isChild => exact outer.deeper isChild
  | deeper _ isChild ih => exact ih.deeper isChild

/-- The node itself or one of its parts. -/
def Holds (node part : Node) : Prop :=
  part = node ∨ node.HasPart part

theorem Holds.trans {node between part : Node} (outer : node.Holds between)
    (inner : between.Holds part) : node.Holds part := by
  rcases outer with rfl | outer
  · exact inner
  · rcases inner with rfl | inner
    · exact .inr outer
    · exact .inr (outer.trans inner)

theorem HasPart.of_holds {node between part : Node} (outer : node.HasPart between)
    (inner : between.Holds part) : node.HasPart part := by
  rcases inner with rfl | inner
  · exact outer
  · exact outer.trans inner

theorem Holds.hasPart {node between part : Node} (outer : node.Holds between)
    (inner : between.HasPart part) : node.HasPart part := by
  rcases outer with rfl | outer
  · exact inner
  · exact outer.trans inner

theorem hasPart_of_mem_valueSteps {around : Surroundings} {declarator part : Node}
    {inner : Region} (visited : .visit inner part ∈ declarator.valueSteps around) :
    declarator.HasPart part := by
  unfold valueSteps at visited
  split at visited
  · rename_i value isChild _
    simp only [List.mem_singleton, OutlineStep.visit.injEq] at visited
    rw [visited.2]
    exact .child isChild
  · simp at visited

theorem eq_of_mem_accessorSteps {parameters : List ParameterDecl} {isStatic : Bool}
    {child part : Node} {inner : Region}
    (visited : .visit inner part ∈ child.accessorSteps parameters isStatic) : part = child := by
  unfold accessorSteps at visited
  split at visited <;> simp_all [bodySteps]

theorem hasPart_of_mem_operandSteps {source : String} {around : Surroundings} {node part : Node}
    {inner : Region} (visited : .visit inner part ∈ node.operandSteps source around) :
    (part = node ∧ inner = .inside around) ∨ node.HasPart part := by
  unfold operandSteps at visited
  split at visited <;> rename_i view_eq
  · simp_all
  · simp_all
  · rename_i target list
    simp at visited
    right
    rcases visited with ⟨rfl, rfl⟩ | ⟨view, member, rfl, rfl⟩
    · apply hasPart_of_mem_parts
      simp [view_eq, ExprView.parts]
    · have isList : node.HasPart list := by
        apply hasPart_of_mem_parts
        simp [view_eq, ExprView.parts]
      exact isList.trans (hasPart_of_mem_arguments member)
  · right
    simp only [List.mem_append, List.mem_flatMap, List.mem_map, List.mem_ite_nil_right,
      List.mem_singleton, OutlineStep.visit.injEq, Option.mem_toList] at visited
    rcases visited with ⟨list, rfl, view, member, rfl, rfl⟩ | ⟨child, isChild, visited⟩
    · have isList : node.HasPart list := by
        apply hasPart_of_mem_parts
        simp [view_eq, ExprView.parts]
      exact isList.trans (hasPart_of_mem_arguments member)
    · rw [visited.2.2]
      exact .child isChild
  · simp [lambdaSteps] at visited
    rcases visited with ⟨child, isChild, -, visited⟩
    right
    have isPart : part = child := by
      split at visited <;> simp_all
    rw [isPart]
    exact .child isChild
  · simp at visited
    exact .inr (hasPart_of_mem_parts visited.1)

/-- A node that is searched next is a part of the node, or it is the same node in a region of
lower rank. -/
theorem hasPart_of_mem_outlineSteps {source : String} {region inner : Region} {node part : Node}
    (visited : .visit inner part ∈ node.outlineSteps source region) :
    (part = node ∧ inner.rank < region.rank) ∨ node.HasPart part := by
  have ofChild {child : Node} (isChild : child ∈ node.children) : node.HasPart child :=
    .child isChild
  -- the node itself comes up again only as what it turned out to be, such as a function
  cases region with
  | inside around =>
    simp [outlineSteps] at visited
    grind
  | root around =>
    simp [outlineSteps] at visited
    simp [visited, Region.rank]
  | operand around =>
    rcases hasPart_of_mem_operandSteps visited with ⟨rfl, rfl⟩ | isPart
    · simp [Region.rank]
    · exact .inr isPart
  | statement around =>
    simp only [outlineSteps, statementSteps] at visited
    split at visited
    · simp at visited
      simp [visited, Region.rank]
    · split at visited
      · simp at visited
        rcases visited with ⟨child, isChild, -, visited⟩
        exact .inr ((ofChild isChild).trans (hasPart_of_mem_valueSteps visited))
      · simp at visited
        grind
      · simp at visited
        simp [visited, Region.rank]
      · simp at visited
      · split at visited
        · simp at visited
        · simp at visited
          grind
  | function parameters typeParameters isStatic =>
    simp [outlineSteps, bodySteps] at visited
    grind
  | accessors parameters isStatic =>
    simp [outlineSteps] at visited
    rcases visited with ⟨child, isChild, visited⟩
    rw [eq_of_mem_accessorSteps visited]
    exact .inr (ofChild isChild)
  | declaration owner span =>
    simp only [outlineSteps, declarationSteps] at visited
    split at visited
    case h_11 =>
      simp only [List.mem_append, List.mem_flatMap, List.mem_ite_nil_right, List.mem_singleton,
        OutlineStep.visit.injEq] at visited
      rcases visited with ⟨child, isChild, visited⟩ | ⟨child, isChild, -, -, rfl⟩
      · rw [eq_of_mem_accessorSteps visited]
        exact .inr (ofChild isChild)
      · exact .inr (ofChild isChild)
    case h_12 =>
      simp at visited
      rcases visited with ⟨declaration, isChild, -, declarator, isPart, visited⟩
      exact .inr (((ofChild isChild).deeper isPart).trans (hasPart_of_mem_valueSteps visited))
    all_goals simp at visited
    all_goals grind [Region.rank]

theorem not_root_of_mem_bodySteps {scope : BodyScope} {body : Node} {found : RootExpression} :
    .found (.root found) ∉ body.bodySteps scope := by
  simp [bodySteps]

theorem not_root_of_mem_valueSteps {around : Surroundings} {declarator : Node}
    {found : RootExpression} : .found (.root found) ∉ declarator.valueSteps around := by
  unfold valueSteps
  split <;> simp

theorem not_root_of_mem_accessorSteps {parameters : List ParameterDecl} {isStatic : Bool}
    {child : Node} {found : RootExpression} :
    .found (.root found) ∉ child.accessorSteps parameters isStatic := by
  unfold accessorSteps
  split <;> simp [bodySteps]

/-- An outermost expression is found only where one is looked for. -/
theorem mem_rootItems_of_mem_outlineSteps {source : String} {region : Region} {node : Node}
    {found : RootExpression} (member : .found (.root found) ∈ node.outlineSteps source region) :
    ∃ around, region = .root around ∧ .root found ∈ node.rootItems source around := by
  cases region with
  | root around =>
    simp [outlineSteps] at member
    exact ⟨around, rfl, member⟩
  | inside around => simp [outlineSteps] at member
  | operand around =>
    simp only [outlineSteps, operandSteps] at member
    split at member
    case h_4 =>
      simp at member
    case h_5 =>
      simp [lambdaSteps] at member
      rcases member with ⟨child, -, -, member⟩
      split at member <;> simp at member
    all_goals simp at member
  | statement around =>
    simp only [outlineSteps, statementSteps] at member
    split at member
    · simp at member
    · split at member
      · simp [not_root_of_mem_valueSteps, localItems] at member
        rcases member with ⟨child, -, -, member⟩
        split at member <;> simp at member
      · simp [loopItems] at member
        split at member
        · split at member <;> simp at member
        · simp at member
      · simp at member
      · simp at member
      · split at member <;> simp at member
  | function parameters typeParameters isStatic =>
    simp [outlineSteps, not_root_of_mem_bodySteps] at member
  | accessors parameters isStatic =>
    simp [outlineSteps, not_root_of_mem_accessorSteps] at member
  | declaration owner span =>
    simp only [outlineSteps, declarationSteps] at member
    split at member
    all_goals simp [not_root_of_mem_accessorSteps, not_root_of_mem_valueSteps] at member

/-- What a region of a node passes on from the nodes that are searched next holds everywhere. -/
theorem outline_induction (source : String) {motive : Region → Node → Prop}
    (step : ∀ region node,
      (∀ inner part, .visit inner part ∈ node.outlineSteps source region → motive inner part) →
        motive region node) (region : Region) (node : Node) : motive region node := by
  apply step
  intro inner part visited
  exact outline_induction source step inner part
termination_by 8 * sizeOf node + region.rank
decreasing_by
  have bound : inner.rank ≤ 6 := by
    cases inner <;> simp [Region.rank]
  rcases hasPart_of_mem_outlineSteps visited with ⟨rfl, lower⟩ | isPart
  · omega
  · have := isPart.sizeOf_lt
    omega

end Node

end AssertionLint
