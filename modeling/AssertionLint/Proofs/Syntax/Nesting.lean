import AssertionLint.CSharp.Document
import AssertionLint.Proofs.Syntax.Visits

/-!
# Nesting of expressions

The outermost expressions of a document are collected from many places, and some of them stand
inside others: in the block of a lambda, in the initializer of an object, in a form that analysis
does not look into. What is found inside an expression stands beside or strictly within each
expression of its tree (`Node.isClearOf_of_mem_rootsIn`), and what is found in different steps
stands apart. So the spans of a document are well nested (`ParsedDocument.isWellNested_ofNode`).
-/

namespace AssertionLint

/-- The span stands beside or strictly within every expression of the tree. -/
def Expr.IsClearOf (expr : Expr) (inner : Span) : Prop :=
  ∀ part ∈ expr.walk, ∃ outer, part.span = some outer ∧ (outer.Apart inner ∨ outer.Surrounds inner)

namespace RootExpression

/-- The expression is the conversion of a node within the span. -/
def IsFrom (source : String) (span : Span) (found : RootExpression) : Prop :=
  ∃ node : Node, node.IsLegible source ∧ span.contains node.span = true ∧
    found.expression = node.toExpr source

/-- The second expression stands inside of the first one and is no part of its tree. -/
structure Nests (outer inner : RootExpression) : Prop where
  contains : outer.span.contains inner.span = true
  clear : outer.expression.IsClearOf inner.span

/-- The expressions stand apart, or one of them inside of the other one. -/
def Compatible (one other : RootExpression) : Prop :=
  one.span.Apart other.span ∨ one.Nests other ∨ other.Nests one

theorem Compatible.symm {one other : RootExpression} (compatible : one.Compatible other) :
    other.Compatible one := by
  rcases compatible with apart | nests | nests
  · exact .inl apart.symm
  · exact .inr (.inr nests)
  · exact .inr (.inl nests)

theorem span_of_expression {source : String} {found : RootExpression} {node : Node}
    (expression_eq : found.expression = node.toExpr source) : found.span = node.span := by
  simp [span, expression_eq, Node.span_toExpr]

theorem IsFrom.contains {source : String} {outer : Span} {found : RootExpression}
    (isFrom : found.IsFrom source outer) : outer.contains found.span = true := by
  rcases isFrom with ⟨node, -, inside, expression_eq⟩
  rw [span_of_expression expression_eq]
  exact inside

end RootExpression

/-- The outermost expressions that a step finds. -/
def OutlineStep.roots (source : String) (step : OutlineStep) : List RootExpression :=
  (step.items source).filterMap OutlineItem.root?

namespace Node

variable {source : String} {region inner : Region} {node part : Node} {found : RootExpression}
  {around : Surroundings}

/-- The outermost expressions that are found in a region. -/
def rootsIn (source : String) (region : Region) (node : Node) : List RootExpression :=
  (node.outline source region).filterMap OutlineItem.root?

theorem rootsIn_eq_flatMap (source : String) (region : Region) (node : Node) :
    node.rootsIn source region =
      (node.outlineSteps source region).flatMap (OutlineStep.roots source) := by
  rw [rootsIn, outline_eq_flatMap, List.filterMap_flatMap]
  rfl

/-- An outermost expression is the node itself, or it is found in a node that is searched next. -/
theorem exists_visit_of_mem_rootsIn (member : found ∈ node.rootsIn source region) :
    (∃ around, region = .root around ∧ .root found ∈ node.rootItems source around) ∨
      ∃ inner part, .visit inner part ∈ node.outlineSteps source region ∧
        found ∈ part.rootsIn source inner := by
  rw [rootsIn_eq_flatMap, List.mem_flatMap] at member
  rcases member with ⟨step, isStep, member⟩
  cases step with
  | found item =>
    cases item with
    | root other =>
      have same : found = other := by simpa [OutlineStep.roots, OutlineItem.root?] using member
      rw [same]
      exact .inl (mem_rootItems_of_mem_outlineSteps isStep)
    | body scope => simp [OutlineStep.roots, OutlineItem.root?] at member
    | declared local_ => simp [OutlineStep.roots, OutlineItem.root?] at member
  | visit inner part => exact .inr ⟨inner, part, isStep, member⟩

theorem expression_of_mem_rootItems (member : .root found ∈ node.rootItems source around) :
    found.expression = node.toExpr source := by
  unfold rootItems at member
  split at member <;> simp at member
  rw [member]

theorem contains_of_mem_outlineSteps (laidOut : node.IsLaidOut source)
    (visited : .visit inner part ∈ node.outlineSteps source region) :
    node.span.contains part.span = true := by
  rcases hasPart_of_mem_outlineSteps visited with ⟨rfl, -⟩ | isPart
  · exact Span.contains_self _
  · exact Span.contains_iff.mpr (isPart.within laidOut)

theorem isLaidOut_of_mem_outlineSteps (laidOut : node.IsLaidOut source)
    (visited : .visit inner part ∈ node.outlineSteps source region) : part.IsLaidOut source := by
  rcases hasPart_of_mem_outlineSteps visited with ⟨rfl, -⟩ | isPart
  · exact laidOut
  · exact isPart.isLaidOut laidOut

/-- Everything that is found in a node is the conversion of a node that is reached from visit to
visit. -/
theorem exists_reached_of_mem_rootsIn (reached : Region → Node → Prop)
    (start : reached region node)
    (step : ∀ outer node inner part, reached outer node →
      .visit inner part ∈ node.outlineSteps source outer → reached inner part)
    (member : found ∈ node.rootsIn source region) :
    ∃ around inner, reached (.root around) inner ∧ found.expression = inner.toExpr source := by
  induction region, node using outline_induction source with
  | step region node ih =>
    rcases exists_visit_of_mem_rootsIn member with
      ⟨around, rfl, isRoot⟩ | ⟨inner, part, visited, member⟩
    · exact ⟨around, node, start, expression_of_mem_rootItems isRoot⟩
    · exact ih inner part visited (step region node inner part start visited) member

/-- Everything that is found in a node is the conversion of the node or of one of its parts. -/
theorem exists_holds_of_mem_rootsIn (member : found ∈ node.rootsIn source region) :
    ∃ inner, node.Holds inner ∧ found.expression = inner.toExpr source := by
  rcases exists_reached_of_mem_rootsIn (fun _ inner => node.Holds inner) (.inl rfl)
    (fun _ _ _ _ holds visited =>
      holds.trans ((hasPart_of_mem_outlineSteps visited).imp_left (·.1))) member with
    ⟨_, inner, holds, expression_eq⟩
  exact ⟨inner, holds, expression_eq⟩

/-- The node may be searched in the region, and it stands within the span. -/
structure IsSearchable (node : Node) (source : String) (span : Span) (region : Region) : Prop where
  laidOut : node.IsLaidOut source
  isOperand : region.wantsOperand = true → node.IsOperand
  inside : span.contains node.span = true

theorem IsSearchable.of_mem_outlineSteps {span : Span}
    (searchable : node.IsSearchable source span region)
    (visited : .visit inner part ∈ node.outlineSteps source region) :
    part.IsSearchable source span inner where
  laidOut := isLaidOut_of_mem_outlineSteps searchable.laidOut visited
  isOperand := isOperand_of_mem_outlineSteps searchable.laidOut searchable.isOperand visited
  inside := Span.contains_trans searchable.inside
    (contains_of_mem_outlineSteps searchable.laidOut visited)

/-- Everything that is found in a node is the conversion of a node within. -/
theorem isFrom_of_mem_rootsIn (laidOut : node.IsLaidOut source)
    (isOperand : region.wantsOperand = true → node.IsOperand)
    (member : found ∈ node.rootsIn source region) : found.IsFrom source node.span := by
  rcases exists_reached_of_mem_rootsIn
    (fun region inner => inner.IsSearchable source node.span region)
    ⟨laidOut, isOperand, Span.contains_self _⟩
    (fun _ _ _ _ searchable visited => searchable.of_mem_outlineSteps visited) member with
    ⟨around, inner, searchable, expression_eq⟩
  exact ⟨inner, ⟨searchable.laidOut, searchable.isOperand rfl⟩, searchable.inside, expression_eq⟩

/-- A bare mark is never taken for an expression, however it is searched. -/
theorem ne_root_of_mem_outlineSteps (bare : node.children = [])
    (noExpression : node.form.isExpression = false)
    (visited : .visit inner part ∈ node.outlineSteps source region) : inner ≠ .root around := by
  have noPart : ¬node.HasPart part := by
    intro isPart
    rcases isPart.outermost with ⟨child, isChild, -⟩
    simp [bare] at isChild
  rintro rfl
  cases region with
  | inside around => simp [outlineSteps, bare] at visited
  | root around => simp [outlineSteps] at visited
  | operand around =>
    rcases hasPart_of_mem_operandSteps visited with ⟨-, regionIs⟩ | isPart
    · cases regionIs
    · exact noPart isPart
  | statement around =>
    rw [outlineSteps, if_neg (by simp [noExpression])] at visited
    simp only [statementSteps, bare] at visited
    split at visited
    · simp at visited
    · simp at visited
    · simp at visited
    · simp at visited
    · split at visited <;> simp at visited
  | function parameters typeParameters isStatic => simp [outlineSteps, bare] at visited
  | accessors parameters isStatic => simp [outlineSteps, bare] at visited
  | declaration owner span =>
    simp only [outlineSteps, declarationSteps, bare] at visited
    split at visited <;> simp at visited

theorem rootsIn_bare (bare : node.children = []) (noExpression : node.form.isExpression = false)
    (noRoot : ∀ around, region ≠ .root around) : found ∉ node.rootsIn source region := by
  induction region, node using outline_induction source with
  | step region node ih =>
    intro member
    rcases exists_visit_of_mem_rootsIn member with
      ⟨around, rfl, -⟩ | ⟨inner, part, visited, deeper⟩
    · exact noRoot around rfl
    · rcases hasPart_of_mem_outlineSteps visited with ⟨rfl, -⟩ | isPart
      · exact ih inner part visited bare noExpression
          (fun _ => ne_root_of_mem_outlineSteps bare noExpression visited) deeper
      · rcases isPart.outermost with ⟨child, isChild, -⟩
        simp [bare] at isChild

/-- The search of an operand takes no part but an expression for an outermost one. -/
theorem isExpression_of_root_mem_outlineSteps
    (isInner : region.isInner = true)
    (visited : .visit (.root around) part ∈ node.outlineSteps source region) :
    part.form.isExpression = true := by
  cases region <;> simp only [Region.isInner, Bool.false_eq_true] at isInner
  · simp only [outlineSteps, operandSteps] at visited
    split at visited
    case h_5 =>
      simp [lambdaSteps] at visited
      rcases visited with ⟨child, -, -, visited⟩
      split at visited <;> simp at visited
    all_goals simp at visited
  · simp only [outlineSteps, List.mem_map, OutlineStep.visit.injEq] at visited
    rcases visited with ⟨child, isChild, regionIs, rfl⟩
    unfold regionInside at regionIs
    split at regionIs
    · cases regionIs
    · split at regionIs
      · assumption
      · cases regionIs

theorem isFrom_of_visited (laidOut : node.IsLaidOut source)
    (isOperand : region.wantsOperand = true → node.IsOperand)
    (visited : .visit inner part ∈ node.outlineSteps source region)
    (member : found ∈ part.rootsIn source inner) : found.IsFrom source part.span :=
  isFrom_of_mem_rootsIn (isLaidOut_of_mem_outlineSteps laidOut visited)
    (isOperand_of_mem_outlineSteps laidOut isOperand visited) member

/-- What is found inside of an operand covers less than the operand. -/
theorem surrounds_of_mem_rootsIn (legible : node.IsLegible source)
    (isInner : region.isInner = true) (member : found ∈ node.rootsIn source region) :
    node.span.Surrounds found.span := by
  induction region, node using outline_induction source with
  | step region node ih =>
    rcases exists_visit_of_mem_rootsIn member with
      ⟨around, rfl, -⟩ | ⟨inner, part, visited, deeper⟩
    · cases isInner
    rcases hasPart_of_mem_outlineSteps visited with ⟨rfl, lower⟩ | isPart
    · exact ih inner part visited legible (Region.isInner_of_rank_lt isInner lower) deeper
    · rcases isPart.surrounds legible.laidOut legible.isOperand with
        surrounds | ⟨-, bare, noExpression, -⟩
      · have isFrom := isFrom_of_visited legible.laidOut (fun _ => legible.isOperand) visited deeper
        exact surrounds.of_contains isFrom.contains
      · refine absurd deeper (rootsIn_bare bare noExpression ?_)
        rintro around rfl
        rw [isExpression_of_root_mem_outlineSteps isInner visited] at noExpression
        cases noExpression

/-- What is found inside of an operand keeps clear of the expressions of its tree. -/
theorem isClearOf_of_mem_rootsIn (legible : node.IsLegible source)
    (member : found ∈ node.rootsIn source (.operand around)) :
    (node.toExpr source).IsClearOf found.span := by
  induction node using operandInduction generalizing around with
  | step node ih =>
    intro expr inTree
    rw [walk_toExpr, List.mem_cons, List.mem_flatMap] at inTree
    rcases inTree with rfl | ⟨operand, isOperand, below⟩
    · exact ⟨_, span_toExpr source node, .inr (surrounds_of_mem_rootsIn legible rfl member)⟩
    rcases exists_visit_of_mem_rootsIn member with ⟨_, isRoot, -⟩ | ⟨inner, part, visited, deeper⟩
    · cases isRoot
    have operandLegible := legible.of_mem_operands isOperand
    obtain ⟨around', searched⟩ :
        ∃ around', .visit (.operand around') operand ∈ node.operandSteps source around :=
      mem_operandSteps_of_mem_operands isOperand
    -- the operand is searched by a step of its own, and all other steps stay apart from it
    by_cases same : OutlineStep.visit inner part = .visit (.operand around') operand
    · rw [OutlineStep.visit.injEq] at same
      rw [same.1, same.2] at deeper
      exact ih operand isOperand operandLegible deeper expr below
    · have apart : operand.span.Apart part.span :=
        (pairwise_apart_outlineSteps legible.laidOut (.operand around)).forall searched visited
          (Ne.symm same)
      have isFrom := isFrom_of_visited legible.laidOut (fun _ => legible.isOperand) visited deeper
      rcases operandLegible.exists_of_mem_walk below with ⟨node', -, inside, rfl⟩
      exact ⟨_, span_toExpr source node', .inl (apart.of_contains inside isFrom.contains)⟩

theorem roots_found_eq_nil {item : OutlineItem} (noRoot : ∀ around, region ≠ .root around)
    (isStep : .found item ∈ node.outlineSteps source region) :
    OutlineStep.roots source (.found item) = [] := by
  cases item with
  | root found =>
    rcases mem_rootItems_of_mem_outlineSteps isStep with ⟨around, isRoot, -⟩
    exact absurd isRoot (noRoot around)
  | body scope => rfl
  | declared variable_ => rfl

theorem pairwise_compatible_root (legible : node.IsLegible source)
    (inner : (node.rootsIn source (.operand around)).Pairwise RootExpression.Compatible) :
    (node.rootsIn source (.root around)).Pairwise RootExpression.Compatible := by
  have split_eq : node.rootsIn source (.root around) =
      (node.rootItems source around).filterMap OutlineItem.root? ++
        node.rootsIn source (.operand around) := by
    rw [rootsIn, outline, List.filterMap_append]
    rfl
  rw [split_eq, List.pairwise_append]
  refine ⟨?_, inner, ?_⟩
  · unfold rootItems
    split <;> simp [OutlineItem.root?]
  · intro outer isOuter found member
    rcases List.mem_filterMap.mp isOuter with ⟨item, isItem, isRoot⟩
    cases item <;> simp only [OutlineItem.root?, reduceCtorEq, Option.some.injEq] at isRoot
    subst isRoot
    have expression_eq := expression_of_mem_rootItems isItem
    refine .inr (.inl ⟨?_, ?_⟩)
    · rw [RootExpression.span_of_expression expression_eq]
      exact (surrounds_of_mem_rootsIn legible rfl member).1
    · rw [expression_eq]
      exact isClearOf_of_mem_rootsIn legible member

/-- Outermost expressions that are found in one region stand apart or inside each other. -/
theorem pairwise_compatible_rootsIn (laidOut : node.IsLaidOut source)
    (isOperand : region.wantsOperand = true → node.IsOperand) :
    (node.rootsIn source region).Pairwise RootExpression.Compatible := by
  induction region, node using outline_induction source with
  | step region node ih =>
    have visits (inner : Region) (part : Node)
        (visited : .visit inner part ∈ node.outlineSteps source region) :=
      ih inner part visited (isLaidOut_of_mem_outlineSteps laidOut visited)
        (isOperand_of_mem_outlineSteps laidOut isOperand visited)
    -- a root has all else inside of it; the steps of other regions only pass on what is found
    by_cases isRoot : ∃ around, region = .root around
    · rcases isRoot with ⟨around, rfl⟩
      exact pairwise_compatible_root ⟨laidOut, isOperand rfl⟩
        (visits (.operand around) node (by simp [outlineSteps]))
    have noRoot : ∀ around, region ≠ .root around := not_exists.mp isRoot
    rw [rootsIn_eq_flatMap, List.pairwise_flatMap]
    -- within one step by induction, between two steps because the parts that they visit stand apart
    constructor
    · intro step isStep
      cases step with
      | found item =>
        rw [roots_found_eq_nil noRoot isStep]
        exact .nil
      | visit inner part => exact visits inner part isStep
    · apply (pairwise_apart_outlineSteps laidOut region).imp_of_mem
      intro left right isLeft isRight apart one isOne other isOther
      cases left with
      | found item =>
        rw [roots_found_eq_nil noRoot isLeft] at isOne
        cases isOne
      | visit inner part =>
        cases right with
        | found item =>
          rw [roots_found_eq_nil noRoot isRight] at isOther
          cases isOther
        | visit inner' part' =>
          have inLeft := isFrom_of_visited laidOut isOperand isLeft isOne
          have inRight := isFrom_of_visited laidOut isOperand isRight isOther
          exact .inl (Span.Apart.of_contains apart inLeft.contains inRight.contains)

namespace IsDocument

theorem contains (isDocument : node.IsDocument source) {item : Node}
    (isItem : item ∈ node.children) : node.span.contains item.span = true :=
  Span.contains_iff.mpr (isDocument.within item isItem)

/-- The parts of a document are laid out. -/
theorem isLaidOut (isDocument : node.IsDocument source) (isPart : node.HasPart part) :
    part.IsLaidOut source := by
  rcases isPart.outermost with ⟨item, isItem, rfl | inner⟩
  · exact isDocument.laidOut _ isItem
  · exact inner.isLaidOut (isDocument.laidOut item isItem)

theorem outlineSteps_eq (isDocument : node.IsDocument source) (span : Span) :
    node.outlineSteps source (.declaration none span) =
      node.children.map fun item => .visit (.declaration none span) item := by
  simp [outlineSteps, declarationSteps, isDocument.form_eq]

theorem rootsIn_eq (isDocument : node.IsDocument source) (span : Span) :
    node.rootsIn source (.declaration none span) =
      node.children.flatMap (·.rootsIn source (.declaration none span)) := by
  rw [rootsIn_eq_flatMap, isDocument.outlineSteps_eq, List.flatMap_map]
  rfl

/-- Each outermost expression of a document is the conversion of a node, and all of them stand
apart or inside each other. -/
theorem compatible_rootsIn (isDocument : node.IsDocument source) (span : Span) :
    (∀ found ∈ node.rootsIn source (.declaration none span),
        ∃ outer, found.IsFrom source outer) ∧
      (node.rootsIn source (.declaration none span)).Pairwise RootExpression.Compatible := by
  have laidOut := isDocument.laidOut
  have noOperand {item : Node} :
      (Region.declaration none span).wantsOperand = true → item.IsOperand := by
    intro wants
    cases wants
  rw [isDocument.rootsIn_eq, List.pairwise_flatMap]
  refine ⟨?_, fun item isItem => pairwise_compatible_rootsIn (laidOut item isItem) noOperand, ?_⟩
  · intro found member
    rcases List.mem_flatMap.mp member with ⟨item, isItem, inside⟩
    exact ⟨_, isFrom_of_mem_rootsIn (laidOut item isItem) noOperand inside⟩
  · apply isDocument.ordered.imp_of_mem
    intro left right isLeft isRight before one isOne other isOther
    have inLeft := isFrom_of_mem_rootsIn (laidOut left isLeft) noOperand isOne
    have inRight := isFrom_of_mem_rootsIn (laidOut right isRight) noOperand isOther
    exact .inl (before.apart.of_contains inLeft.contains inRight.contains)

end IsDocument

end Node

/-- The first expression ends where the second one starts or in front of it. -/
def Expr.EndsBefore (left right : Expr) : Prop :=
  ∃ one other, left.span = some one ∧ right.span = some other ∧ one.stop ≤ other.start

theorem Expr.NotWithin.span_ne {expr other : Expr} (notWithin : expr.NotWithin other) :
    expr.span ≠ other.span := by
  rcases notWithin with ⟨inner, outer, span_eq, span_eq', outside⟩
  rw [span_eq, span_eq']
  rintro same
  cases same
  rw [Span.contains_self] at outside
  cases outside

namespace RootExpression

variable {source : String} {one other : RootExpression} {outer outer' : Span}

theorem notBehind_iff : one.notBehind other = true ↔ one.span.start < other.span.start ∨
    (one.span.start = other.span.start ∧ other.span.stop ≤ one.span.stop) := by
  simp [notBehind]

theorem IsFrom.exists_of_mem_walk (isFrom : one.IsFrom source outer) {expr : Expr}
    (member : expr ∈ one.expression.walk) :
    ∃ node : Node, node.IsLegible source ∧ one.span.contains node.span = true ∧
      expr = node.toExpr source := by
  rcases isFrom with ⟨node, legible, -, expression_eq⟩
  rw [expression_eq] at member
  rw [span_of_expression expression_eq]
  exact legible.exists_of_mem_walk member

theorem IsFrom.pairwise_walk (isFrom : one.IsFrom source outer) :
    one.expression.walk.Pairwise Expr.NotWithin := by
  rcases isFrom with ⟨node, legible, -, expression_eq⟩
  rw [expression_eq]
  exact legible.pairwise_walk

theorem IsFrom.covers (isFrom : one.IsFrom source outer) : one.span.start < one.span.stop := by
  rcases isFrom with ⟨node, legible, -, expression_eq⟩
  rw [span_of_expression expression_eq]
  exact legible.laidOut.covers

theorem IsFrom.expression_span (isFrom : one.IsFrom source outer) :
    one.expression.span = some one.span := by
  rcases isFrom with ⟨node, legible, -, expression_eq⟩
  rw [span_of_expression expression_eq, expression_eq, Node.span_toExpr]

/-- What stands inside of another expression comes behind it. -/
theorem Nests.notBehind (nests : other.Nests one) (isFrom : one.IsFrom source outer)
    (isFrom' : other.IsFrom source outer') : one.notBehind other = false := by
  rcases nests.clear other.expression (Expr.mem_walk_self _) with ⟨whole, whole_eq, clear⟩
  rw [isFrom'.expression_span, Option.some.injEq] at whole_eq
  rw [← whole_eq] at clear
  have contains := Span.contains_iff.mp nests.contains
  have covers := isFrom.covers
  rw [Bool.eq_false_iff, ne_eq, notBehind_iff]
  rcases clear with apart | surrounds
  · unfold Span.Apart at apart
    omega
  · have outside := surrounds.not_contains
    rw [Bool.eq_false_iff, ne_eq, Span.contains_iff] at outside
    omega

/-- If one outermost expression comes in front of another, none of its expressions stands within an
expression of the other one. -/
theorem notWithin_of_mem_walk (isFrom : one.IsFrom source outer)
    (isFrom' : other.IsFrom source outer') (compatible : one.Compatible other)
    (inFront : one.notBehind other = true) {left right : Expr}
    (isLeft : left ∈ one.expression.walk) (isRight : right ∈ other.expression.walk) :
    left.NotWithin right := by
  rcases isFrom.exists_of_mem_walk isLeft with ⟨node, legible, inOne, rfl⟩
  rcases isFrom'.exists_of_mem_walk isRight with ⟨node', -, inOther, rfl⟩
  refine ⟨_, _, Node.span_toExpr source node, Node.span_toExpr source node', ?_⟩
  have covers := legible.laidOut.covers
  rcases compatible with apart | nests | nests
  · exact (apart.of_contains inOne inOther).not_contains covers
  · rcases nests.clear _ isLeft with ⟨whole, whole_eq, clear⟩
    rw [Node.span_toExpr, Option.some.injEq] at whole_eq
    rw [← whole_eq] at clear
    rcases clear with apart | surrounds
    · exact (apart.of_contains (Span.contains_self _) inOther).not_contains covers
    · exact (surrounds.of_contains inOther).not_contains
  · rw [nests.notBehind isFrom isFrom'] at inFront
    cases inFront

end RootExpression

namespace SyntaxTree

/-- The spans of a document are well nested: the parts of an expression stand one behind the other
within it, outermost expressions are disjoint or one stands inside the other, they come in the order
of their starts, the longer ones first, and no call comes in front of a call around it. -/
structure IsWellNested (tree : SyntaxTree) : Prop extends tree.IsWellSpanned where
  partsOrdered : ∀ expr ∈ tree.expressions, expr.children.Pairwise Expr.EndsBefore
  rootsNested : tree.roots.Pairwise fun one other =>
    one.span.Apart other.span ∨ one.span.contains other.span = true
  rootsSorted : tree.roots.Pairwise fun one other => one.span.start < other.span.start ∨
    (one.span.start = other.span.start ∧ other.span.stop ≤ one.span.stop)
  callsOutsideIn : tree.invocations.Pairwise fun one other => one.1.NotWithin other.1

theorem invocations_eq (tree : SyntaxTree) :
    tree.invocations.map Prod.fst = tree.expressions.filter Expr.isInvocation := by
  simp [invocations, expressions, List.map_flatMap, List.filter_flatMap, Function.comp_def]

variable {source : String} {roots : List RootExpression}

theorem pairwise_expressions (isFrom : ∀ found ∈ roots, ∃ outer, found.IsFrom source outer)
    (compatible : roots.Pairwise RootExpression.Compatible)
    (sorted : roots.Pairwise fun one other => one.notBehind other = true) :
    (SyntaxTree.mk source roots).expressions.Pairwise Expr.NotWithin := by
  rw [expressions, List.pairwise_flatMap]
  constructor
  · intro root isRoot
    rcases isFrom root isRoot with ⟨outer, isFrom⟩
    exact isFrom.pairwise_walk
  · apply (compatible.and sorted).imp_of_mem
    intro one other isOne isOther both left isLeft right isRight
    rcases isFrom one isOne with ⟨outer, isFrom'⟩
    rcases isFrom other isOther with ⟨outer', isFrom''⟩
    exact RootExpression.notWithin_of_mem_walk isFrom' isFrom'' both.1 both.2 isLeft isRight

theorem isWellNested_of_compatible
    (isFrom : ∀ found ∈ roots, ∃ outer, found.IsFrom source outer)
    (compatible : roots.Pairwise RootExpression.Compatible)
    (sorted : roots.Pairwise fun one other => one.notBehind other = true) :
    (SyntaxTree.mk source roots).IsWellNested := by
  have ordered := pairwise_expressions isFrom compatible sorted
  have converted : ∀ expr ∈ (SyntaxTree.mk source roots).expressions,
      ∃ node : Node, node.IsLegible source ∧ expr = node.toExpr source := by
    intro expr member
    rcases mem_expressions.mp member with ⟨root, isRoot, inTree⟩
    rcases isFrom root isRoot with ⟨outer, isFrom⟩
    rcases isFrom.exists_of_mem_walk inTree with ⟨node, legible, -, expr_eq⟩
    exact ⟨node, legible, expr_eq⟩
  constructor
  · constructor
    · intro expr member span spanIs
      rcases converted expr member with ⟨node, legible, rfl⟩
      rw [Node.span_toExpr, Option.some.injEq] at spanIs
      rw [← spanIs]
      exact legible.laidOut.fits
    · intro expr member
      rcases converted expr member with ⟨node, legible, rfl⟩
      refine ⟨node.span, Node.span_toExpr source node, ?_⟩
      intro child isChild inner spanIs
      rw [Node.children_toExpr] at isChild
      rcases List.mem_map.mp isChild with ⟨operand, isOperand, rfl⟩
      rw [Node.span_toExpr, Option.some.injEq] at spanIs
      rw [← spanIs]
      exact (legible.surrounds isOperand).1
    · rw [List.nodup_iff_pairwise_ne, List.pairwise_map]
      exact ordered.imp Expr.NotWithin.span_ne
  · intro expr member
    rcases converted expr member with ⟨node, legible, rfl⟩
    rw [Node.children_toExpr, List.pairwise_map]
    exact legible.pairwise_operands.imp fun before =>
      ⟨_, _, Node.span_toExpr source _, Node.span_toExpr source _, before⟩
  · apply (compatible.and sorted).imp_of_mem
    intro one other isOne isOther both
    rcases isFrom one isOne with ⟨outer, isFrom'⟩
    rcases isFrom other isOther with ⟨outer', isFrom''⟩
    rcases both.1 with apart | nests | nests
    · exact .inl apart
    · exact .inr nests.contains
    · have behind := nests.notBehind isFrom' isFrom''
      rw [both.2] at behind
      cases behind
  · exact sorted.imp RootExpression.notBehind_iff.mp
  · have calls := ordered.filter Expr.isInvocation
    rw [← invocations_eq, List.pairwise_map] at calls
    exact calls

end SyntaxTree

namespace ParsedDocument

variable {source : String} {node : Node}

/-- Every expression of a document is the conversion of a node of its concrete syntax. -/
theorem exists_holds_of_mem_expressions {expr : Expr}
    (member : expr ∈ (ofNode source node).tree.expressions) :
    ∃ part, node.Holds part ∧ expr = part.toExpr source := by
  rcases SyntaxTree.mem_expressions.mp member with ⟨root, isRoot, inside⟩
  have found : root ∈ node.rootsIn source (.declaration none node.span) :=
    List.mem_mergeSort.mp isRoot
  rcases Node.exists_holds_of_mem_rootsIn found with ⟨outer, holds, expression_eq⟩
  rw [expression_eq] at inside
  rcases Node.exists_holds_of_mem_walk inside with ⟨part, holds', expr_eq⟩
  exact ⟨part, holds.trans holds', expr_eq⟩

/-- Every expression of a document is the conversion of a part of its concrete syntax. -/
theorem exists_hasPart_of_mem_expressions (isDocument : node.IsDocument source) {expr : Expr}
    (member : expr ∈ (ofNode source node).tree.expressions) :
    ∃ part, node.HasPart part ∧ expr = part.toExpr source := by
  rcases SyntaxTree.mem_expressions.mp member with ⟨root, isRoot, inside⟩
  have found : root ∈ node.rootsIn source (.declaration none node.span) :=
    List.mem_mergeSort.mp isRoot
  rw [isDocument.rootsIn_eq, List.mem_flatMap] at found
  rcases found with ⟨item, isItem, found⟩
  rcases Node.exists_holds_of_mem_rootsIn found with ⟨outer, holds, expression_eq⟩
  rw [expression_eq] at inside
  rcases Node.exists_holds_of_mem_walk inside with ⟨part, holds', expr_eq⟩
  exact ⟨part, (Node.HasPart.child isItem).of_holds (holds.trans holds'), expr_eq⟩

/-- Each root of a document is the conversion of a node, all of them stand apart or inside each
other, and they come in the order of the text. -/
theorem compatible_roots (isDocument : node.IsDocument source) :
    (∀ found ∈ (ofNode source node).tree.roots, ∃ outer, found.IsFrom source outer) ∧
      (ofNode source node).tree.roots.Pairwise RootExpression.Compatible ∧
      (ofNode source node).tree.roots.Pairwise fun one other => one.notBehind other = true := by
  rcases isDocument.compatible_rootsIn node.span with ⟨isFrom, compatible⟩
  refine ⟨?_, ?_, ?_⟩
  · intro found member
    exact isFrom found (List.mem_mergeSort.mp member)
  · exact (List.mergeSort_perm _ _).symm.pairwise compatible fun compatible => compatible.symm
  · apply List.pairwise_mergeSort
    · intro one other third before behind
      rw [RootExpression.notBehind_iff] at before behind ⊢
      omega
    · intro one other
      rw [Bool.or_eq_true, RootExpression.notBehind_iff, RootExpression.notBehind_iff]
      omega

theorem nodup_spans (isDocument : node.IsDocument source) :
    ((ofNode source node).tree.expressions.map Expr.span).Nodup := by
  rcases compatible_roots isDocument with ⟨isFrom, compatible, sorted⟩
  rw [List.nodup_iff_pairwise_ne, List.pairwise_map]
  exact (SyntaxTree.pairwise_expressions isFrom compatible sorted).imp Expr.NotWithin.span_ne

/-- The spans of every document without errors are well nested. -/
theorem isWellNested_ofNode (isTree : node.IsTreeOf source) (noErrors : node.hasError = false) :
    (ofNode source node).tree.IsWellNested := by
  rcases compatible_roots (isTree noErrors) with ⟨isFrom, compatible, sorted⟩
  exact SyntaxTree.isWellNested_of_compatible isFrom compatible sorted

/-- A call of a lambda whose block has a call in it, behind a call with a call as its argument. -/
def nestedCalls : String :=
  "class C \x7b void M() \x7b F(G(1)); Run(() => \x7b H(2); \x7d); \x7d \x7d"

theorem isWellNested_nestedCalls :
    (Node.ofSource nestedCalls).hasError = false ∧
      (ofSource nestedCalls).tree.roots.map RootExpression.span =
        [⟨21, 28⟩, ⟨30, 50⟩, ⟨42, 46⟩] ∧
      (ofSource nestedCalls).tree.IsWellNested := by
  obtain ⟨noErrors, sorted, spans⟩ : (Node.ofSource nestedCalls).hasError = false ∧
      ((Node.ofSource nestedCalls).rootsIn nestedCalls
        (.declaration none (Node.ofSource nestedCalls).span)).Pairwise
          (fun one other => one.notBehind other = true) ∧
      ((Node.ofSource nestedCalls).rootsIn nestedCalls
        (.declaration none (Node.ofSource nestedCalls).span)).map RootExpression.span =
          [⟨21, 28⟩, ⟨30, 50⟩, ⟨42, 46⟩] := by
    decide +kernel
  refine ⟨noErrors, ?_, isWellNested_ofNode (Node.isTreeOf_ofSource nestedCalls) noErrors⟩
  change (((Node.ofSource nestedCalls).rootsIn nestedCalls _).mergeSort _).map _ = _
  rw [List.mergeSort_of_pairwise sorted, spans]

end ParsedDocument

end AssertionLint
