import AssertionLint.Proofs.Binding.Locals

/-!
# Nesting of scopes

A local is visible in its scope, and the parameters of a function are visible in its body. Of two
such stretches of a document that a position stands in, the one that is opened later lies within
the other one (`Node.contains_of_mem_outline`): a local opens its scope at the end of its
declarator, and a body opens behind its first character. This takes the grammar's word that no two
functions inside each other start at the same place.
-/

namespace AssertionLint

/-- What brings names into scope: a local, or a body with its parameters. -/
inductive Scoping
  | declared (found : LocalDecl)
  | body (around : BodyScope)

namespace Scoping

variable {one other : Scoping} {span near outer : Span} {around : Option Span} {offset : Nat}

def item : Scoping → OutlineItem
  | declared found => .declared found
  | body around => .body around

/-- Where the names are visible. -/
def scope : Scoping → Span
  | declared found => found.scope
  | body around => around.span

/-- The end of the declaration of a local, or of the first character of a body. -/
def opens : Scoping → Nat
  | declared found => found.visibleFrom
  | body around => around.span.start + 1

@[simp]
theorem scope_declared (found : LocalDecl) : (declared found).scope = found.scope := rfl

@[simp]
theorem scope_body (around : BodyScope) : (body around).scope = around.span := rfl

@[simp]
theorem opens_declared (found : LocalDecl) : (declared found).opens = found.visibleFrom := rfl

@[simp]
theorem opens_body (around : BodyScope) : (body around).opens = around.span.start + 1 := rfl

def IsVisibleAt (offset : Nat) : Scoping → Prop
  | declared found => found.IsVisibleAt offset
  | body around => around.span.encloses offset = true

theorem IsVisibleAt.bounds (visible : one.IsVisibleAt offset) :
    one.scope.start ≤ offset ∧ offset < one.scope.stop ∧ one.opens ≤ offset + 1 := by
  cases one with
  | declared found =>
    have inside := Span.encloses_iff.mp visible.1
    have from_ := visible.2
    exact ⟨inside.1, inside.2, by rw [opens_declared]; omega⟩
  | body around =>
    have inside := Span.encloses_iff.mp visible
    exact ⟨inside.1, inside.2, by rw [opens_body]; omega⟩

/-- Opened within the span, and visible nowhere else, unless in the scope around the span. -/
structure IsIn (found : Scoping) (span : Span) (around : Option Span) : Prop where
  opened : span.start < found.opens ∧ found.opens ≤ span.stop
  scope : span.contains found.scope = true ∨ around = some found.scope

/-- If two scopings that are opened apart from each other are visible, the first one is the outer
one. -/
theorem IsIn.contains_of_apart (isOne : one.IsIn span around) (isOther : other.IsIn near around)
    (apart : span.Apart near)
    (outside : ∀ scope, around = some scope → scope.contains near = true)
    (visible : one.IsVisibleAt offset) (visible' : other.IsVisibleAt offset)
    (le : one.opens ≤ other.opens) : one.scope.contains other.scope = true := by
  rcases isOne.scope with inside | shared
  · -- the second one is opened behind the position, or it is not visible there
    exfalso
    have bounds := visible.bounds
    have bounds' := visible'.bounds
    have opened := isOne.opened
    have opened' := isOther.opened
    rw [Span.contains_iff] at inside
    unfold Span.Apart at apart
    omega
  · rcases isOther.scope with inside' | shared'
    · exact Span.contains_trans (outside _ shared) inside'
    · rw [shared, Option.some.injEq] at shared'
      rw [shared']
      exact Span.contains_self _

end Scoping

/-- The bodies of a function are searched for. -/
def Region.isFunction : Region → Bool
  | function .. => true
  | _ => false

namespace Node

variable {source : String} {region inner : Region} {node part : Node} {item : OutlineItem}
  {found : LocalDecl} {body : BodyScope} {one other : Scoping} {offset : Nat}

/-- The node is laid out, it is a function if it is searched as one, and it stands within the scope
that it is searched in. -/
structure IsSearched (node : Node) (source : String) (region : Region) : Prop where
  laidOut : node.IsLaidOut source
  function : region.isFunction = true → node.form.isFunction = true
  outer : ∀ scope, region.outer? node = some scope → scope.contains node.span = true

theorem isFunction_of_mem_accessorSteps {parameters : List ParameterDecl} {isStatic : Bool}
    (visited : .visit inner part ∈ node.accessorSteps parameters isStatic)
    (isFunction : inner.isFunction = true) : part.form.isFunction = true := by
  unfold accessorSteps at visited
  split at visited
  · rcases OutlineStep.visit_mem_singleton.mp visited with ⟨rfl, rfl⟩
    cases isFunction
  · rename_i isAccessor
    rcases OutlineStep.visit_mem_singleton.mp visited with ⟨rfl, rfl⟩
    rw [isAccessor]
    rfl
  · simp only [bodySteps, List.mem_cons, reduceCtorEq, OutlineStep.visit.injEq, List.not_mem_nil,
      or_false, false_or] at visited
    rcases visited with ⟨rfl, rfl⟩
    cases isFunction
  · simp at visited

theorem not_isFunction_of_mem_valueSteps {around : Surroundings}
    (visited : .visit inner part ∈ node.valueSteps around) : inner.isFunction = false := by
  unfold valueSteps at visited
  split at visited
  · rcases OutlineStep.visit_mem_singleton.mp visited with ⟨rfl, rfl⟩
    rfl
  · simp at visited

theorem isFunction_of_mem_declarationSteps {owner : Option Bool} {span : Span}
    (visited : .visit inner part ∈ node.declarationSteps source owner span)
    (isFunction : inner.isFunction = true) : part.form.isFunction = true := by
  unfold declarationSteps at visited
  split at visited
  case h_11 =>
    simp only [List.mem_append, List.mem_flatMap, List.mem_ite_nil_right, List.mem_singleton,
      OutlineStep.visit.injEq] at visited
    rcases visited with ⟨child, -, visited⟩ | ⟨child, -, -, rfl, -⟩
    · exact isFunction_of_mem_accessorSteps visited isFunction
    · cases isFunction
  case h_12 =>
    simp only [List.mem_flatMap, List.mem_ite_nil_right] at visited
    rcases visited with ⟨declaration, -, -, declarator, -, visited⟩
    rw [not_isFunction_of_mem_valueSteps visited] at isFunction
    cases isFunction
  all_goals simp at visited
  all_goals grind [Region.isFunction, Form.isFunction]

/-- What is searched as a function is one. -/
theorem isFunction_of_mem_outlineSteps
    (visited : .visit inner part ∈ node.outlineSteps source region)
    (isFunction : inner.isFunction = true) : part.form.isFunction = true := by
  -- local functions come from statements, all others from declarations and lists of accessors
  cases region with
  | inside around =>
    simp only [outlineSteps, List.mem_map, OutlineStep.visit.injEq] at visited
    rcases visited with ⟨child, -, rfl, rfl⟩
    unfold regionInside at isFunction
    grind [Region.isFunction]
  | root around =>
    simp only [outlineSteps, List.mem_append, List.mem_map, reduceCtorEq, and_false, exists_false,
      false_or, List.mem_singleton, OutlineStep.visit.injEq] at visited
    rw [visited.1] at isFunction
    cases isFunction
  | operand around =>
    simp only [outlineSteps, operandSteps] at visited
    split at visited
    all_goals simp [lambdaSteps] at visited
    all_goals grind [Region.isFunction]
  | statement around =>
    simp only [outlineSteps, statementSteps] at visited
    split at visited
    · simp at visited
      grind [Region.isFunction]
    · split at visited
      case h_1 =>
        simp only [List.mem_flatMap, List.mem_ite_nil_right, List.mem_append, List.mem_map,
          reduceCtorEq, and_false, exists_false, or_false] at visited
        rcases visited with ⟨declarator, -, -, visited⟩
        rw [not_isFunction_of_mem_valueSteps visited] at isFunction
        cases isFunction
      case h_3 isLocal =>
        rcases OutlineStep.visit_mem_singleton.mp visited with ⟨-, rfl⟩
        rw [isLocal]
        rfl
      case h_5 =>
        split at visited
        all_goals simp at visited
        grind [Region.isFunction]
      all_goals simp at visited
      grind [Region.isFunction]
  | function parameters typeParameters isStatic =>
    simp [outlineSteps, bodySteps] at visited
    grind [Region.isFunction]
  | accessors parameters isStatic =>
    rcases List.mem_flatMap.mp visited with ⟨child, -, visited⟩
    exact isFunction_of_mem_accessorSteps visited isFunction
  | declaration owner span => exact isFunction_of_mem_declarationSteps visited isFunction

theorem IsSearched.of_mem_outlineSteps (searched : node.IsSearched source region)
    (visited : .visit inner part ∈ node.outlineSteps source region) :
    part.IsSearched source inner where
  laidOut := isLaidOut_of_mem_outlineSteps searched.laidOut visited
  function := isFunction_of_mem_outlineSteps visited
  outer scope outerIs := by
    rcases outer?_of_mem_outlineSteps visited outerIs with rfl | outerIs
    · exact Span.contains_self _
    · exact Span.contains_trans (searched.outer scope outerIs)
        (contains_of_mem_outlineSteps searched.laidOut visited)

/-- A body that a node finds is the node itself, as a lambda, or a part that opens with a mark. -/
inductive FindsBody (source : String) (region : Region) (node : Node) (body : BodyScope) : Prop
  | lambda {around : Surroundings} (region_eq : region = .operand around)
      (isLambda : node.form = .lambda) (span_eq : body.span = node.span)
      (visits : ∀ inner part, .visit inner part ∈ node.outlineSteps source region →
        part ∈ node.children ∧ part.role = some .body)
  | part {around : Surroundings} {part : Node} (noLambda : ∀ around, region ≠ .operand around)
      (noOuter : region.outer? node = none)
      (visited : .visit (.statement around) part ∈ node.outlineSteps source region)
      (opened : part.form = .block ∨ part.form = .arrowClause) (span_eq : body.span = part.span)

theorem form_of_view_eq_lambda {inner : Option Node} (view_eq : node.view = .lambda inner) :
    node.form = .lambda := by
  unfold view at view_eq
  split at view_eq
  all_goals first | assumption | (split at view_eq <;> (try split at view_eq) <;> cases view_eq) |
    cases view_eq

theorem findsBody_of_mem_operandSteps {around : Surroundings}
    (isStep : .found (.body body) ∈ node.operandSteps source around) :
    node.FindsBody source (.operand around) body := by
  obtain ⟨inner, view_eq⟩ : ∃ inner, node.view = .lambda inner := by
    unfold operandSteps at isStep
    split at isStep
    case h_5 inner view_eq => exact ⟨inner, view_eq⟩
    all_goals simp at isStep
  have steps_eq : node.operandSteps source around =
      .found (.body ⟨node.span, node.lambdaParameters source, [], false⟩) ::
        node.children.flatMap (lambdaSteps around) := by
    rw [operandSteps, view_eq]
  refine .lambda rfl (form_of_view_eq_lambda view_eq) ?_ ?_
  · rw [steps_eq] at isStep
    simp [lambdaSteps] at isStep
    grind
  · intro inner' part visited
    rw [outlineSteps, steps_eq] at visited
    simp [lambdaSteps] at visited
    grind

theorem findsBody_of_mem_accessorSteps {parameters : List ParameterDecl} {isStatic : Bool}
    (isStep : .found (.body body) ∈ part.accessorSteps parameters isStatic) :
    part.form = .arrowClause ∧ body.span = part.span ∧
      ∃ around, .visit (.statement around) part ∈ part.accessorSteps parameters isStatic := by
  unfold accessorSteps at isStep ⊢
  split at isStep
  case h_3 isClause => simp_all [bodySteps]
  all_goals simp at isStep

theorem findsBody_of_mem_outlineSteps (searched : node.IsSearched source region)
    (isStep : .found (.body body) ∈ node.outlineSteps source region) :
    node.FindsBody source region body := by
  -- operands find the bodies of lambdas; all other bodies are found as parts of what declares them
  cases region with
  | inside around => simp [outlineSteps] at isStep
  | root around =>
    simp [outlineSteps, rootItems] at isStep
    split at isStep <;> simp at isStep
  | operand around => exact findsBody_of_mem_operandSteps isStep
  | statement around =>
    simp only [outlineSteps, statementSteps] at isStep
    split at isStep
    · simp at isStep
    · split at isStep
      · simp [valueSteps, localItems] at isStep
        grind
      · simp [loopItems] at isStep
        grind
      · simp at isStep
      · simp at isStep
      · split at isStep <;> simp at isStep
  | function parameters typeParameters isStatic =>
    obtain ⟨child, isChild, isStep⟩ := List.mem_flatMap.mp isStep
    obtain ⟨isBody, isStep⟩ := List.mem_ite_nil_right.mp isStep
    have visited : .visit (.statement ⟨true, false, child.span⟩) child ∈
        node.outlineSteps source (.function parameters typeParameters isStatic) := by
      refine List.mem_flatMap.mpr ⟨child, isChild, ?_⟩
      rw [if_pos isBody]
      exact List.mem_cons_of_mem _ List.mem_cons_self
    have inRole := Bool.and_eq_true_iff.mp isBody
    have holds := (searched.laidOut.admits (List.ne_nil_of_mem isChild)).bodies.function
      (searched.function rfl)
    refine .part (by simp) rfl visited (holds child isChild (eq_of_beq inRole.1) inRole.2) ?_
    simp only [bodySteps, List.mem_cons, OutlineStep.found.injEq, OutlineItem.body.injEq,
      reduceCtorEq, List.not_mem_nil, or_false] at isStep
    rw [isStep]
  | accessors parameters isStatic =>
    rcases List.mem_flatMap.mp isStep with ⟨child, isChild, isStep⟩
    rcases findsBody_of_mem_accessorSteps isStep with ⟨isClause, span_eq, around, visited⟩
    exact .part (by simp) rfl (List.mem_flatMap.mpr ⟨child, isChild, visited⟩) (.inr isClause)
      span_eq
  | declaration owner span =>
    simp only [outlineSteps, declarationSteps] at isStep
    split at isStep
    case h_11 static form_eq =>
      simp only [List.mem_append, List.mem_flatMap, List.mem_ite_nil_right, List.mem_singleton,
        reduceCtorEq, and_false, exists_false, or_false] at isStep
      rcases isStep with ⟨child, isChild, isStep⟩
      rcases findsBody_of_mem_accessorSteps isStep with ⟨isClause, span_eq, around, visited⟩
      have visited : .visit (.statement around) child ∈
          node.outlineSteps source (.declaration (some static) span) := by
        simp only [outlineSteps, declarationSteps, form_eq]
        exact List.mem_append_left _ (List.mem_flatMap.mpr ⟨child, isChild, visited⟩)
      exact .part (by simp) (by simp [Region.outer?, form_eq]) visited (.inr isClause) span_eq
    case h_12 =>
      simp [valueSteps] at isStep
      grind
    all_goals simp at isStep

theorem FindsBody.noOuter (finds : node.FindsBody source region body) :
    region.outer? node = none := by
  cases finds with
  | lambda region_eq => rw [region_eq]; rfl
  | part _ noOuter => exact noOuter

theorem contains_of_body_mem_outline (searched : node.IsSearched source region)
    (member : .body body ∈ node.outline source region) :
    node.span.contains body.span = true ∧ body.span.start < body.span.stop := by
  induction region, node using outline_induction source with
  | step region node ih =>
    rcases mem_outline_iff.mp member with isStep | ⟨inner, part, visited, deeper⟩
    · cases findsBody_of_mem_outlineSteps searched isStep with
      | lambda _ _ span_eq =>
        rw [span_eq]
        exact ⟨Span.contains_self _, searched.laidOut.covers⟩
      | part _ _ visited _ span_eq =>
        rw [span_eq]
        exact ⟨contains_of_mem_outlineSteps searched.laidOut visited,
          (isLaidOut_of_mem_outlineSteps searched.laidOut visited).covers⟩
    · have inside := contains_of_mem_outlineSteps searched.laidOut visited
      rcases ih inner part visited (searched.of_mem_outlineSteps visited) deeper with
        ⟨contains, covers⟩
      exact ⟨Span.contains_trans inside contains, covers⟩

/-- What is found in a node is opened there, and it is visible there or in the scope of the node. -/
theorem isIn_of_mem_outline (searched : node.IsSearched source region)
    (member : one.item ∈ node.outline source region) :
    one.IsIn node.span (region.outer? node) := by
  cases one with
  | declared found =>
    have isLocal := mem_localsIn_iff_mem_outline.mpr member
    exact ⟨(standsIn_of_mem_localsIn searched.laidOut isLocal).declared,
      scope_of_mem_localsIn searched.laidOut isLocal⟩
  | body body =>
    rcases contains_of_body_mem_outline searched member with ⟨inside, covers⟩
    have bounds := Span.contains_iff.mp inside
    exact ⟨by rw [Scoping.opens_body]; omega, .inl inside⟩

theorem isIn_of_visited (searched : node.IsSearched source region)
    (visited : .visit inner part ∈ node.outlineSteps source region)
    (deeper : one.item ∈ part.outline source inner) :
    one.IsIn part.span (region.outer? node) := by
  have isIn := isIn_of_mem_outline (searched.of_mem_outlineSteps visited) deeper
  refine ⟨isIn.opened, ?_⟩
  rcases isIn.scope with inside | outerIs
  · exact .inl inside
  · rcases outer?_of_mem_outlineSteps visited outerIs with own | outerIs
    · rw [own]
      exact .inl (Span.contains_self _)
    · exact .inr outerIs

/-- Nothing is found in a mark. -/
theorem outline_mark {around : Surroundings} (unnamed : node.form.isNamed = false)
    (bare : node.children = []) : node.outline source (.statement around) = [] := by
  rw [outline_eq_flatMap, outlineSteps, statementSteps]
  cases form_eq : node.form <;> simp_all [Form.isNamed, Form.isExpression, Form.isType]

/-- In a part that opens with a mark, everything is opened behind the mark. -/
theorem lt_opens_of_opened {around : Surroundings}
    (searched : node.IsSearched source (.statement around))
    (opened : node.form = .block ∨ node.form = .arrowClause)
    (member : one.item ∈ node.outline source (.statement around)) :
    node.span.start + 1 < one.opens := by
  have steps_eq : node.outlineSteps source (.statement around) =
      node.children.map fun child => .visit (.statement (node.surroundParts around)) child := by
    rcases opened with form_eq | form_eq <;>
      simp [outlineSteps, statementSteps, form_eq, Form.isExpression, Form.isType]
  rcases mem_outline_iff.mp member with isStep | ⟨inner, child, visited, deeper⟩
  · simp [steps_eq] at isStep
  have isIn := isIn_of_mem_outline (searched.of_mem_outlineSteps visited) deeper
  simp only [steps_eq, List.mem_map, OutlineStep.visit.injEq] at visited
  rcases visited with ⟨child, isChild, rfl, rfl⟩
  have laidOut := searched.laidOut
  rcases (laidOut.admits (List.ne_nil_of_mem isChild)).bodies.opened opened with
    ⟨mark, following, children_eq, bare, unnamed⟩
  have ordered := laidOut.ordered
  have isMark : mark ∈ node.children := children_eq ▸ List.mem_cons_self
  rw [children_eq] at isChild ordered
  rcases List.mem_cons.mp isChild with rfl | isBehind
  · simp [outline_mark unnamed bare] at deeper
  · have behind := List.rel_of_pairwise_cons ordered isBehind
    have within := laidOut.within mark isMark
    have covers := (laidOut.parts mark isMark).covers
    have opened := isIn.opened
    unfold EndsBefore at behind
    omega

/-- The body of a lambda comes behind something else of the lambda. -/
theorem IsLaidOut.startWithoutBody (laidOut : node.IsLaidOut source)
    (isLambda : node.form = .lambda) (nonempty : node.children ≠ []) :
    StartWithoutBody node.children := by
  rcases (laidOut.admits nonempty).bodies.lambda isLambda with
    ⟨front, last, children_eq, some, onlyLast⟩
  rcases List.exists_cons_of_ne_nil some with ⟨first, rest, rfl⟩
  rw [children_eq, List.cons_append, startWithoutBody_cons]
  exact onlyLast first List.mem_cons_self

/-- What is searched besides a body that a node finds stands apart from the body, or inside of it
and behind its first character. -/
theorem FindsBody.visits (finds : node.FindsBody source region body)
    (searched : node.IsSearched source region)
    (visited : .visit inner part ∈ node.outlineSteps source region) :
    body.span.Apart part.span ∨ body.span.contains part.span = true ∧
      ∀ one : Scoping, one.item ∈ part.outline source inner → body.span.start + 1 < one.opens := by
  have laidOut := searched.laidOut
  cases finds with
  | lambda _ isLambda span_eq visits =>
    rw [span_eq]
    refine .inr ⟨contains_of_mem_outlineSteps laidOut visited, fun one deeper => ?_⟩
    rcases visits inner part visited with ⟨isChild, isBody⟩
    have starts := laidOut.startWithoutBody isLambda (List.ne_nil_of_mem isChild)
    have behind := laidOut.start_lt_body starts isChild isBody
    have opened := (isIn_of_visited searched visited deeper).opened
    omega
  | @part around body' _ _ visited' opened span_eq =>
    rw [span_eq]
    by_cases same : OutlineStep.visit inner part = .visit (.statement around) body'
    · rw [OutlineStep.visit.injEq] at same
      rcases same with ⟨rfl, rfl⟩
      exact .inr ⟨Span.contains_self _, fun one deeper =>
        lt_opens_of_opened (searched.of_mem_outlineSteps visited) opened deeper⟩
    · have apart : body'.span.Apart part.span :=
        (pairwise_apart_outlineSteps laidOut region).forall visited' visited (Ne.symm same)
      exact .inl apart

theorem FindsBody.others {other : BodyScope} (finds : node.FindsBody source region body)
    (finds' : node.FindsBody source region other) (laidOut : node.IsLaidOut source) :
    body.span = other.span ∨ body.span.Apart other.span := by
  cases finds with
  | lambda region_eq _ span_eq =>
    cases finds' with
    | lambda _ _ span_eq' => exact .inl (span_eq.trans span_eq'.symm)
    | part noLambda => exact absurd region_eq (noLambda _)
  | @part around part noLambda _ visited _ span_eq =>
    cases finds' with
    | lambda region_eq => exact absurd region_eq (noLambda _)
    | @part around' part' _ _ visited' _ span_eq' =>
      rw [span_eq, span_eq']
      by_cases same : OutlineStep.visit (.statement around) part = .visit (.statement around') part'
      · rw [OutlineStep.visit.injEq] at same
        exact .inl (congrArg span same.2)
      · exact .inr ((pairwise_apart_outlineSteps laidOut region).forall visited visited' same)

/-- A local or a body that a node finds by itself, and something that is opened later there. -/
theorem contains_of_found (searched : node.IsSearched source region)
    (isStep : .found one.item ∈ node.outlineSteps source region)
    (isOther : other.item ∈ node.outline source region) (visible : one.IsVisibleAt offset)
    (visible' : other.IsVisibleAt offset) : one.scope.contains other.scope = true := by
  have bounds := visible.bounds
  have bounds' := visible'.bounds
  cases one with
  | declared found =>
    have outerIs := outer?_of_declared isStep
    rcases (isIn_of_mem_outline searched isOther).scope with inside | shared
    · exact Span.contains_trans (searched.outer _ outerIs) inside
    · rw [outerIs, Option.some.injEq] at shared
      rw [← shared]
      exact Span.contains_self _
  | body body =>
    have finds := findsBody_of_mem_outlineSteps searched isStep
    have noOuter := finds.noOuter
    rcases mem_outline_iff.mp isOther with isStep' | ⟨inner, part, visited, deeper⟩
    · cases other with
      | declared found => simp [outer?_of_declared isStep'] at noOuter
      | body body' =>
        have finds' := findsBody_of_mem_outlineSteps searched isStep'
        rcases finds.others finds' searched.laidOut with same | apart
        · exact Span.contains_iff.mpr (by simp [same])
        · simp only [Span.Apart, Scoping.scope_body] at apart bounds bounds'
          omega
    · have isIn := (isIn_of_visited searched visited deeper).scope
      have inside := isIn.resolve_right (by simp [noOuter])
      rcases finds.visits searched visited with apart | ⟨contains, -⟩
      · rw [Span.contains_iff] at inside
        simp only [Span.Apart, Scoping.scope_body] at apart bounds bounds' inside
        omega
      · exact Span.contains_trans contains inside

/-- Something that is found in a node, and a local or a body that the node finds by itself and that
is opened later. -/
theorem contains_of_found_later (searched : node.IsSearched source region)
    (visited : .visit inner part ∈ node.outlineSteps source region)
    (deeper : one.item ∈ part.outline source inner)
    (isStep : .found other.item ∈ node.outlineSteps source region)
    (visible : one.IsVisibleAt offset) (visible' : other.IsVisibleAt offset)
    (le : one.opens ≤ other.opens) : one.scope.contains other.scope = true := by
  have bounds := visible.bounds
  have bounds' := visible'.bounds
  have isIn := isIn_of_visited searched visited deeper
  have opened := isIn.opened
  cases other with
  | declared found =>
    have outerIs := outer?_of_declared isStep
    rcases isIn.scope with inside | shared
    · -- the local becomes visible in front of the part or behind it
      have outside := (visibleFrom_of_mem_outlineSteps searched.laidOut isStep).2 inner part visited
      have from_ := visible'.2
      rw [Span.contains_iff] at inside
      rw [Scoping.opens_declared] at le
      omega
    · rw [outerIs, Option.some.injEq] at shared
      rw [← shared]
      exact Span.contains_self _
  | body body =>
    have finds := findsBody_of_mem_outlineSteps searched isStep
    have inside := isIn.scope.resolve_right (by simp [finds.noOuter])
    rcases finds.visits searched visited with apart | ⟨-, later⟩
    · rw [Span.contains_iff] at inside
      simp only [Span.Apart, Scoping.scope_body] at apart bounds bounds' inside
      omega
    · have := later one deeper
      rw [Scoping.opens_body] at le
      omega

/-- Of two scopes around a position, the one that is opened later lies within the other one. -/
theorem contains_of_mem_outline (searched : node.IsSearched source region)
    (isOne : one.item ∈ node.outline source region)
    (isOther : other.item ∈ node.outline source region) (visible : one.IsVisibleAt offset)
    (visible' : other.IsVisibleAt offset) (le : one.opens ≤ other.opens) :
    one.scope.contains other.scope = true := by
  induction region, node using outline_induction source with
  | step region node ih =>
    rcases mem_outline_iff.mp isOne with isStep | ⟨inner, part, visited, deeper⟩
    · exact contains_of_found searched isStep isOther visible visible'
    rcases mem_outline_iff.mp isOther with isStep | ⟨inner', part', visited', deeper'⟩
    · exact contains_of_found_later searched visited deeper isStep visible visible' le
    by_cases same : OutlineStep.visit inner part = .visit inner' part'
    · rw [OutlineStep.visit.injEq] at same
      rw [← same.1, ← same.2] at deeper'
      exact ih inner part visited (searched.of_mem_outlineSteps visited) deeper deeper'
    · have apart : part.span.Apart part'.span :=
        (pairwise_apart_outlineSteps searched.laidOut region).forall visited visited' same
      refine (isIn_of_visited searched visited deeper).contains_of_apart
        (isIn_of_visited searched visited' deeper') apart (fun scope outerIs => ?_) visible visible'
        le
      exact Span.contains_trans (searched.outer scope outerIs)
        (contains_of_mem_outlineSteps searched.laidOut visited')

end Node

/-- The declarations open a scope. -/
def Declarations.Opens (declarations : Declarations) : Scoping → Prop
  | .declared found => found ∈ declarations.locals
  | .body around => around ∈ declarations.bodies

namespace Node

variable {source : String} {node item : Node} {one : Scoping}

theorem IsDocument.isSearched (isDocument : node.IsDocument source)
    (isItem : item ∈ node.children) :
    item.IsSearched source (.declaration none node.span) where
  laidOut := isDocument.laidOut item isItem
  function := nofun
  outer scope outerIs := by
    rcases Region.eq_of_outer?_declaration outerIs with rfl | rfl
    · exact Span.contains_self _
    · exact isDocument.contains isItem

/-- What is found in an item of a document is visible there, or in all of the document. -/
theorem IsDocument.isIn (isDocument : node.IsDocument source) (isItem : item ∈ node.children)
    (inside : one.item ∈ item.outline source (.declaration none node.span)) :
    one.IsIn item.span (some node.span) := by
  rcases isIn_of_mem_outline (isDocument.isSearched isItem) inside with ⟨opened, scope⟩
  refine ⟨opened, ?_⟩
  rcases scope with contains | outerIs
  · exact .inl contains
  · rcases Region.eq_of_outer?_declaration outerIs with own | whole
    · exact .inl (own ▸ Span.contains_self _)
    · exact .inr (congrArg some whole.symm)

end Node

namespace ParsedDocument

variable {source : String} {node : Node} {one other : Scoping} {offset : Nat}

theorem mem_outline_of_opens (isDocument : node.IsDocument source)
    (isOpened : (ofNode source node).declarations.Opens one) :
    ∃ item ∈ node.children, one.item ∈ item.outline source (.declaration none node.span) := by
  have member : one.item ∈ node.outline source (.declaration none node.span) := by
    cases one with
    | declared found => exact Node.mem_localsIn_iff_mem_outline.mp isOpened
    | body body =>
      rcases List.mem_filterMap.mp isOpened with ⟨item, isItem, isBody⟩
      cases item <;> simp_all [OutlineItem.body?, Scoping.item]
  rcases Node.mem_outline_iff.mp member with isStep | ⟨inner, part, visited, deeper⟩
  · simp [isDocument.outlineSteps_eq] at isStep
  · simp only [isDocument.outlineSteps_eq, List.mem_map, OutlineStep.visit.injEq] at visited
    rcases visited with ⟨item, isItem, rfl, rfl⟩
    exact ⟨item, isItem, deeper⟩

/-- Of two scopes around a position of a document, the one that is opened later lies within the
other one. -/
theorem contains_of_opens (isDocument : node.IsDocument source)
    (isOne : (ofNode source node).declarations.Opens one)
    (isOther : (ofNode source node).declarations.Opens other) (visible : one.IsVisibleAt offset)
    (visible' : other.IsVisibleAt offset) (le : one.opens ≤ other.opens) :
    one.scope.contains other.scope = true := by
  rcases mem_outline_of_opens isDocument isOne with ⟨item, isItem, inside⟩
  rcases mem_outline_of_opens isDocument isOther with ⟨item', isItem', inside'⟩
  by_cases same : item = item'
  · rw [← same] at inside'
    exact Node.contains_of_mem_outline (isDocument.isSearched isItem) inside inside' visible
      visible' le
  · have apart := Node.apart_of_ordered isDocument.ordered isItem isItem' same
    refine (isDocument.isIn isItem inside).contains_of_apart (isDocument.isIn isItem' inside') apart
      ?_ visible visible' le
    rintro _ ⟨⟩
    exact isDocument.contains isItem'

end ParsedDocument

end AssertionLint
