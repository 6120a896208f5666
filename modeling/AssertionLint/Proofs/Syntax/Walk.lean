import AssertionLint.Proofs.Syntax.Layout
import AssertionLint.Proofs.Syntax.Outline
import AssertionLint.Proofs.Syntax.Search

/-!
# Expressions of laid out nodes

The sub-expressions of a converted node are its converted operands (`Node.children_toExpr`). The
operands of a laid out node stand one behind the other and within the node, and none of them covers
all of it. So in the order of the tree no expression stands within a later one
(`Node.IsLegible.pairwise_walk`), and no two expressions have the same span.
-/

namespace AssertionLint

namespace Span

/-- One of the spans ends where the other one starts or in front of it. -/
def Apart (one other : Span) : Prop :=
  one.stop ≤ other.start ∨ other.stop ≤ one.start

/-- The first span contains the second one and more. -/
def Surrounds (outer inner : Span) : Prop :=
  outer.contains inner = true ∧ inner ≠ outer

variable {one other part rest : Span}

theorem Apart.symm (apart : one.Apart other) : other.Apart one :=
  Or.symm apart

theorem Apart.of_contains (apart : one.Apart other) (inOne : one.contains part = true)
    (inOther : other.contains rest = true) : part.Apart rest := by
  rw [contains_iff] at inOne inOther
  unfold Apart at apart ⊢
  omega

theorem Apart.not_contains (apart : one.Apart other) (covers : one.start < one.stop) :
    other.contains one = false := by
  rw [Bool.eq_false_iff, ne_eq, contains_iff]
  unfold Apart at apart
  omega

theorem Surrounds.not_contains (surrounds : one.Surrounds other) :
    other.contains one = false := by
  rcases surrounds with ⟨contains, ne⟩
  rw [Bool.eq_false_iff, ne_eq]
  intro back
  rw [contains_iff] at contains back
  apply ne
  cases one
  cases other
  simp only [mk.injEq] at contains back ⊢
  omega

theorem Surrounds.of_contains (surrounds : one.Surrounds other)
    (inOther : other.contains part = true) : one.Surrounds part := by
  refine ⟨contains_trans surrounds.1 inOther, ?_⟩
  rintro rfl
  rw [surrounds.not_contains] at inOther
  cases inOther

end Span

/-- The first expression does not stand within the second one. -/
def Expr.NotWithin (expr other : Expr) : Prop :=
  ∃ inner outer, expr.span = some inner ∧ other.span = some outer ∧ outer.contains inner = false

/-- The parts of a view whose conversions are the sub-expressions of its conversion. -/
def ExprView.operands : ExprView → List Node
  | invocation target list => target :: list.arguments.map (·.value)
  | objectCreation _ list => list.toList.flatMap fun list => list.arguments.map (·.value)
  | view => view.parts

namespace Node

variable {source : String} {node part : Node}

/-- The nodes whose conversions are the sub-expressions of the conversion of a node. -/
def operands (node : Node) : List Node := node.view.operands

theorem span_toExpr (source : String) (node : Node) :
    (node.toExpr source).span = some node.span := by
  rw [toExpr]
  split <;> rfl

theorem children_toExpr (source : String) (node : Node) :
    (node.toExpr source).children = node.operands.map (·.toExpr source) := by
  rw [toExpr, operands]
  split <;> rename_i view_eq
  case h_4 => simp [view_eq, Expr.children, toArgument, ExprView.operands]
  case h_12 =>
    rename_i arguments
    cases arguments <;> simp [view_eq, Expr.children, toArgument, ExprView.operands]
  case h_16 =>
    rename_i body
    cases body <;> simp [view_eq, Expr.children, ExprView.operands, ExprView.parts]
  all_goals simp [view_eq, Expr.children, ExprView.operands, ExprView.parts]

/-- Where the operands of a node stand: among its parts, in the list of its arguments, or in its
initializer. -/
inductive HasOperands (node : Node) : List Node → Prop
  | direct {operands : List Node} (among : operands.Sublist node.children)
      (asked : ∀ operand ∈ operands,
        (node.form.holdsOperands = true ∧ 2 ≤ node.children.length) ∨
          (node.form = .lambda ∧ operand.role = some .body)) : HasOperands node operands
  | listed {front : List Node} {list : Node} (among : (front ++ [list]).Sublist node.children)
      (asked : ∀ operand ∈ front, node.form.holdsOperands = true) :
      HasOperands node (front ++ list.arguments.map (·.value))
  | initial {initializer : Node} (isChild : initializer ∈ node.children)
      (isInitializer : initializer.form = .initializer) :
      HasOperands node initializer.namedChildren

theorem HasOperands.nil (node : Node) : node.HasOperands [] :=
  .direct (List.nil_sublist _) (by simp)

theorem hasOperands_initializerElements (node : Node) :
    node.HasOperands node.initializerElements := by
  unfold initializerElements
  split
  · rename_i initializer found
    have isInitializer : initializer.form = .initializer := by
      simpa using List.find?_some found
    exact .initial (childOfForm?_mem found) isInitializer
  · exact .nil node

theorem hasOperands_operands (node : Node) : node.HasOperands node.operands := by
  have ofHolds {operands parts : List Node} (holds : node.form.holdsOperands = true)
      (children_eq : node.children = parts) (more : 2 ≤ parts.length)
      (among : operands.Sublist parts) : node.HasOperands operands := by
    subst children_eq
    exact .direct among fun _ _ => .inl ⟨holds, more⟩
  -- a node whose parts are not those of its form has no operands
  unfold operands view
  split
  case h_7 mark inner mark' form_eq children_eq =>
    split
    · apply ofHolds (by rw [form_eq]; rfl) children_eq (by simp)
      exact .cons _ (.cons_cons _ (List.nil_sublist _))
    · exact .nil node
  case h_8 target mark member form_eq children_eq =>
    apply ofHolds (by rw [form_eq]; rfl) children_eq (by simp)
    exact .cons_cons _ (List.nil_sublist _)
  case h_9 target list form_eq children_eq =>
    have among : ([target] ++ [list]).Sublist node.children := by
      rw [children_eq]
      exact .refl _
    exact .listed among fun _ _ => by rw [form_eq]; rfl
  case h_10 left operator right form_eq children_eq =>
    split
    · split
      · apply ofHolds (by rw [form_eq]; rfl) children_eq (by simp)
        exact .cons_cons _ (.cons _ (.refl _))
      · exact .nil node
    · exact .nil node
  case h_11 operator operand form_eq children_eq =>
    split
    · split
      · apply ofHolds (by rw [form_eq]; rfl) children_eq (by simp)
        exact .cons _ (.refl _)
      · exact .nil node
    · exact .nil node
  case h_12 mark type mark' operand form_eq children_eq =>
    apply ofHolds (by rw [form_eq]; rfl) children_eq (by simp)
    exact .cons _ (.cons _ (.cons _ (.refl _)))
  case h_13 condition mark whenTrue mark' whenFalse form_eq children_eq =>
    apply ofHolds (by rw [form_eq]; rfl) children_eq (by simp)
    exact .cons_cons _ (.cons _ (.cons_cons _ (.cons _ (.refl _))))
  case h_14 =>
    split
    · rename_i type _
      cases found : node.childOfForm? .argumentList with
      | none => exact .nil node
      | some list =>
        have among : ([] ++ [list]).Sublist node.children :=
          List.singleton_sublist.mpr (childOfForm?_mem found)
        simpa [ExprView.operands] using HasOperands.listed among (by simp)
    · exact .nil node
  case h_15 => exact hasOperands_initializerElements node
  case h_16 => exact hasOperands_initializerElements node
  case h_17 => split <;> exact .nil node
  case h_18 form_eq =>
    simp only [ExprView.operands, ExprView.parts]
    cases found : (node.child? .body).filter (·.form != .block) with
    | none => exact .nil node
    | some body =>
      have isBody := Option.eq_some_of_filter_eq_some found
      refine .direct (List.singleton_sublist.mpr (child?_mem isBody)) ?_
      rintro operand member
      rw [Option.toList_some, List.mem_singleton] at member
      refine .inr ⟨form_eq, ?_⟩
      simpa [member] using List.find?_some isBody
  all_goals exact .nil node

theorem IsLaidOut.contains (laidOut : node.IsLaidOut source) (isChild : part ∈ node.children) :
    node.span.contains part.span = true :=
  Span.contains_iff.mpr (laidOut.within part isChild)

theorem HasPart.isLaidOut (isPart : node.HasPart part) (laidOut : node.IsLaidOut source) :
    part.IsLaidOut source := by
  induction isPart with
  | child isChild => exact laidOut.parts _ isChild
  | deeper _ isChild ih => exact ih.parts _ isChild

theorem HasPart.within (isPart : node.HasPart part) (laidOut : node.IsLaidOut source) :
    node.span.start ≤ part.span.start ∧ part.span.stop ≤ node.span.stop := by
  induction isPart with
  | child isChild => exact laidOut.within _ isChild
  | deeper outer isChild ih =>
    have inner := (outer.isLaidOut laidOut).within _ isChild
    omega

theorem HasPart.outermost (isPart : node.HasPart part) :
    ∃ child ∈ node.children, part = child ∨ child.HasPart part := by
  induction isPart with
  | child isChild => exact ⟨_, isChild, .inl rfl⟩
  | deeper _ isChild ih =>
    rcases ih with ⟨child, isOuter, rfl | inner⟩
    · exact ⟨_, isOuter, .inr (.child isChild)⟩
    · exact ⟨child, isOuter, .inr (inner.deeper isChild)⟩

/-- A child that has siblings does not cover the whole node. -/
theorem IsLaidOut.span_ne_of_siblings (laidOut : node.IsLaidOut source) {child : Node}
    (isChild : child ∈ node.children) (siblings : node.children ≠ [child]) :
    child.span ≠ node.span := by
  have within := laidOut.within
  have ordered := laidOut.ordered
  have covers : ∀ part ∈ node.children, part.span.start < part.span.stop :=
    fun part isPart => (laidOut.parts part isPart).covers
  rcases List.append_of_mem isChild with ⟨front, back, children_eq⟩
  rw [children_eq] at within ordered covers siblings
  intro same
  rcases List.eq_nil_or_concat front with rfl | ⟨front, other, rfl⟩
  · cases back with
    | nil => exact siblings rfl
    | cons other back =>
      have behind := (List.pairwise_cons.mp ordered).1 other (by simp)
      have inside := within other (by simp)
      have positive := covers other (by simp)
      rw [← same] at inside
      unfold EndsBefore at behind
      omega
  · have before := (List.pairwise_append.mp ordered).2.2 other (by simp) child (by simp)
    have inside := within other (by simp)
    have positive := covers other (by simp)
    rw [← same] at inside
    unfold EndsBefore at before
    omega

/-- A body that is not the first part of a node starts behind the start of the node. -/
theorem IsLaidOut.start_lt_body (laidOut : node.IsLaidOut source)
    (starts : StartWithoutBody node.children) (isChild : part ∈ node.children)
    (isBody : part.role = some .body) : node.span.start < part.span.start := by
  rcases List.exists_cons_of_ne_nil (List.ne_nil_of_mem isChild) with ⟨first, rest, children_eq⟩
  have isFirst : first ∈ node.children := by simp [children_eq]
  have within := laidOut.within first isFirst
  have covers := (laidOut.parts first isFirst).covers
  have ordered := laidOut.ordered
  rw [children_eq] at starts isChild ordered
  rcases List.mem_cons.mp isChild with rfl | isBehind
  · exact absurd isBody (startWithoutBody_cons.mp starts)
  · have behind := List.rel_of_pairwise_cons ordered isBehind
    unfold EndsBefore at behind
    omega

/-- A part of an operand covers less than the operand, unless it is a bare mark and the only part
of it. -/
theorem HasPart.surrounds (isPart : node.HasPart part) (laidOut : node.IsLaidOut source)
    (isOperand : node.IsOperand) :
    node.span.Surrounds part.span ∨ (node.children = [part] ∧ part.children = [] ∧
      part.form.isExpression = false ∧ node.form ≠ .lambda) := by
  rcases isPart.outermost with ⟨child, isChild, outer⟩
  by_cases only : node.children = [child]
  · have bare := isOperand.spread child only
    rcases outer with rfl | deeper
    · exact .inr ⟨only, bare⟩
    · rcases deeper.outermost with ⟨between, isGrandchild, -⟩
      simp [bare.1] at isGrandchild
  · left
    have outside : node.span.Surrounds child.span :=
      ⟨laidOut.contains isChild, laidOut.span_ne_of_siblings isChild only⟩
    rcases outer with rfl | deeper
    · exact outside
    · exact outside.of_contains (Span.contains_iff.mpr (deeper.within (laidOut.parts _ isChild)))

theorem isOperand_of_isExpression (laidOut : node.IsLaidOut source)
    (isExpression : node.form.isExpression = true) : node.IsOperand := by
  have notAccessor : node.form ≠ .accessorList ∧ node.form ≠ .accessor := by
    constructor <;> intro same <;> simp [same, Form.isExpression] at isExpression
  refine ⟨?_, notAccessor⟩
  intro only children_eq
  have admits := laidOut.admits (by simp [children_eq])
  exact (admits.operand isExpression).spread only children_eq

theorem form_of_mem_arguments_go {nodes : List Node} {start : Nat} {view : ArgumentView}
    (member : view ∈ arguments.go start nodes) : view.node.form = .argument := by
  induction nodes generalizing start with
  | nil => simp [arguments.go] at member
  | cons child following ih =>
    unfold arguments.go at member
    split at member
    · rename_i isArgument
      split at member
      · rcases List.mem_cons.mp member with rfl | member
        · exact eq_of_beq isArgument
        · exact ih member
      · exact ih member
    · exact ih member

theorem isOperand_of_mem_arguments {list : Node} {view : ArgumentView}
    (laidOut : list.IsLaidOut source) (member : view ∈ list.arguments) :
    view.value.IsOperand := by
  rcases mem_arguments_go member with ⟨isChild, found⟩
  have isPart := argumentValue?_mem found
  have admits := (laidOut.parts _ isChild).admits (List.ne_nil_of_mem isPart)
  rw [form_of_mem_arguments_go member] at admits
  exact admits.operands rfl _ isPart

theorem EndsBefore.of_parts {left right one other : Node} (before : left.EndsBefore right)
    (inLeft : one.span.stop ≤ left.span.stop) (inRight : right.span.start ≤ other.span.start) :
    one.EndsBefore other := by
  unfold EndsBefore at before ⊢
  omega

/-- The expressions of the arguments stand in the order of the arguments. -/
theorem pairwise_arguments_go {nodes : List Node} {start : Nat}
    (laidOut : ∀ node ∈ nodes, node.IsLaidOut source) (ordered : nodes.Pairwise EndsBefore) :
    ((arguments.go start nodes).map (·.value)).Pairwise EndsBefore := by
  induction nodes generalizing start with
  | nil => exact .nil
  | cons child following ih =>
    rw [List.pairwise_cons] at ordered
    rw [List.forall_mem_cons] at laidOut
    have behind (start : Nat) :
        ((arguments.go start following).map (·.value)).Pairwise EndsBefore :=
      ih laidOut.2 ordered.2
    unfold arguments.go
    split
    · split
      · rename_i value found
        rw [List.map_cons, List.pairwise_cons]
        refine ⟨?_, behind _⟩
        intro other member
        rcases List.mem_map.mp member with ⟨view, isView, rfl⟩
        rcases mem_arguments_go isView with ⟨isChild, found'⟩
        have inner := laidOut.1.within _ (argumentValue?_mem found)
        have outer := (laidOut.2 _ isChild).within _ (argumentValue?_mem found')
        exact (ordered.1 _ isChild).of_parts inner.2 outer.1
      · exact behind _
    · exact behind _

variable {parts : List Node}

theorem HasOperands.hasPart (has : node.HasOperands parts) : ∀ part ∈ parts, node.HasPart part := by
  intro part member
  cases has with
  | direct among => exact .child (among.subset member)
  | listed among =>
    rcases List.mem_append.mp member with member | member
    · exact .child (among.subset (List.mem_append_left _ member))
    · rcases List.mem_map.mp member with ⟨view, isArgument, rfl⟩
      have isChild := among.subset (List.mem_append_right _ (List.mem_singleton_self _))
      exact (HasPart.child isChild).trans (hasPart_of_mem_arguments isArgument)
  | initial isChild => exact .deeper (.child isChild) (List.mem_filter.mp member).1

theorem HasOperands.isOperand (has : node.HasOperands parts) (laidOut : node.IsLaidOut source) :
    ∀ part ∈ parts, part.IsOperand := by
  have ofHolds {child : Node} (holds : node.form.holdsOperands = true)
      (isChild : child ∈ node.children) : child.IsOperand :=
    (laidOut.admits (List.ne_nil_of_mem isChild)).operands holds child isChild
  intro part member
  cases has with
  | direct among asked =>
    have isChild := among.subset member
    rcases asked part member with ⟨holds, -⟩ | ⟨-, isBody⟩
    · exact ofHolds holds isChild
    · exact (laidOut.parts part isChild).inRole isBody rfl
  | listed among asked =>
    rcases List.mem_append.mp member with member | member
    · exact ofHolds (asked part member) (among.subset (List.mem_append_left _ member))
    · rcases List.mem_map.mp member with ⟨view, isArgument, rfl⟩
      have isChild := among.subset (List.mem_append_right _ (List.mem_singleton_self _))
      exact isOperand_of_mem_arguments (laidOut.parts _ isChild) isArgument
  | initial isChild isInitializer =>
    have isGrandchild := (List.mem_filter.mp member).1
    have admits := (laidOut.parts _ isChild).admits (List.ne_nil_of_mem isGrandchild)
    rw [isInitializer] at admits
    exact admits.operands rfl part isGrandchild

theorem HasOperands.pairwise (has : node.HasOperands parts) (laidOut : node.IsLaidOut source) :
    parts.Pairwise EndsBefore := by
  cases has with
  | direct among => exact laidOut.ordered.sublist among
  | @listed front list among =>
    have isChild := among.subset (List.mem_append_right _ (List.mem_singleton_self _))
    have listLaidOut := laidOut.parts _ isChild
    rcases List.pairwise_append.mp (laidOut.ordered.sublist among) with ⟨ordered, -, before⟩
    rw [List.pairwise_append]
    refine ⟨ordered, pairwise_arguments_go listLaidOut.parts listLaidOut.ordered, ?_⟩
    intro one isOne other member
    rcases List.mem_map.mp member with ⟨view, isArgument, rfl⟩
    have inside := (hasPart_of_mem_arguments isArgument).within listLaidOut
    exact (before one isOne list (by simp)).of_parts (Nat.le_refl _) inside.1
  | initial isChild =>
    exact ((laidOut.parts _ isChild).ordered).sublist List.filter_sublist

theorem HasOperands.surrounds (has : node.HasOperands parts) (laidOut : node.IsLaidOut source)
    (isOperand : node.IsOperand) : ∀ part ∈ parts, node.span.Surrounds part.span := by
  intro part member
  rcases (has.hasPart part member).surrounds laidOut isOperand with
    surrounds | ⟨only, bare, -, noLambda⟩
  · exact surrounds
  exfalso
  cases has with
  | direct among asked =>
    rcases asked part member with ⟨-, more⟩ | ⟨isLambda, -⟩
    · simp [only] at more
    · exact noLambda isLambda
  | @listed front list among =>
    rw [only] at among
    have isOnly : list = part := by simpa using among.subset (by simp : list ∈ front ++ [list])
    have count := among.length_le
    rcases List.mem_append.mp member with member | member
    · have := List.length_pos_of_mem member
      simp only [List.length_append, List.length_singleton] at count
      omega
    · rcases List.mem_map.mp member with ⟨view, isArgument, value_eq⟩
      have isChild := (mem_arguments_go isArgument).1
      simp [isOnly, bare] at isChild
  | initial isChild =>
    rw [only, List.mem_singleton] at isChild
    simp [namedChildren, isChild, bare] at member

theorem walk_toExpr (source : String) (node : Node) :
    (node.toExpr source).walk =
      node.toExpr source :: node.operands.flatMap fun operand => (operand.toExpr source).walk := by
  rw [Expr.walk_eq, children_toExpr, List.flatMap_map]

/-- What holds of a node once it holds of its operands holds of every node. -/
theorem operandInduction {motive : Node → Prop}
    (step : ∀ node, (∀ operand ∈ node.operands, motive operand) → motive node) (node : Node) :
    motive node :=
  step node fun operand _ => operandInduction step operand
termination_by sizeOf node
decreasing_by exact (node.hasOperands_operands.hasPart _ ‹_›).sizeOf_lt

/-- Every expression of the tree is the conversion of a node that is reached from operand to
operand. -/
theorem exists_reached_of_mem_walk {reached : Node → Prop} {expr : Expr} (start : reached node)
    (step : ∀ outer operand, reached outer → operand ∈ outer.operands → reached operand)
    (member : expr ∈ (node.toExpr source).walk) :
    ∃ inner, reached inner ∧ expr = inner.toExpr source := by
  induction node using operandInduction with
  | step node ih =>
    rw [walk_toExpr, List.mem_cons, List.mem_flatMap] at member
    rcases member with rfl | ⟨operand, isOperand, below⟩
    · exact ⟨node, start, rfl⟩
    · exact ih operand isOperand (step node operand start isOperand) below

/-- Every expression of the tree is the conversion of the node or of one of its parts. -/
theorem exists_holds_of_mem_walk {expr : Expr} (member : expr ∈ (node.toExpr source).walk) :
    ∃ inner, node.Holds inner ∧ expr = inner.toExpr source := by
  refine exists_reached_of_mem_walk (.inl rfl) ?_ member
  intro outer operand holds isOperand
  exact holds.trans (.inr (outer.hasOperands_operands.hasPart _ isOperand))

/-- The node is laid out and may stand where an expression is looked for. -/
structure IsLegible (source : String) (node : Node) : Prop where
  laidOut : node.IsLaidOut source
  isOperand : node.IsOperand

namespace IsLegible

variable {expr : Expr} {operand : Node}

theorem of_mem_operands (legible : node.IsLegible source) (member : operand ∈ node.operands) :
    operand.IsLegible source :=
  ⟨(node.hasOperands_operands.hasPart _ member).isLaidOut legible.laidOut,
    node.hasOperands_operands.isOperand legible.laidOut _ member⟩

theorem surrounds (legible : node.IsLegible source) (member : operand ∈ node.operands) :
    node.span.Surrounds operand.span :=
  node.hasOperands_operands.surrounds legible.laidOut legible.isOperand _ member

theorem pairwise_operands (legible : node.IsLegible source) :
    node.operands.Pairwise EndsBefore :=
  node.hasOperands_operands.pairwise legible.laidOut

/-- Every expression of the tree is the conversion of a node within the node. -/
theorem exists_of_mem_walk (legible : node.IsLegible source)
    (member : expr ∈ (node.toExpr source).walk) :
    ∃ inner : Node, inner.IsLegible source ∧ node.span.contains inner.span = true ∧
      expr = inner.toExpr source := by
  simp only [← and_assoc]
  refine exists_reached_of_mem_walk ⟨legible, Span.contains_self _⟩ ?_ member
  rintro outer operand ⟨legible, inside⟩ isOperand
  have surrounds := legible.surrounds isOperand
  exact ⟨legible.of_mem_operands isOperand, Span.contains_trans inside surrounds.1⟩

/-- In the order of the tree no expression stands within a later one. -/
theorem pairwise_walk (legible : node.IsLegible source) :
    (node.toExpr source).walk.Pairwise Expr.NotWithin := by
  induction node using operandInduction with
  | step node ih =>
    rw [walk_toExpr, List.pairwise_cons, List.pairwise_flatMap]
    refine ⟨?_, fun operand member => ih operand member (legible.of_mem_operands member), ?_⟩
    · intro expr member
      rcases List.mem_flatMap.mp member with ⟨operand, isOperand, below⟩
      rcases (legible.of_mem_operands isOperand).exists_of_mem_walk below with
        ⟨inner, -, inside, rfl⟩
      have surrounds := (legible.surrounds isOperand).of_contains inside
      exact ⟨_, _, span_toExpr source node, span_toExpr source inner, surrounds.not_contains⟩
    · apply legible.pairwise_operands.imp_of_mem
      intro one other isOne isOther before left isLeft right isRight
      rcases (legible.of_mem_operands isOne).exists_of_mem_walk isLeft with
        ⟨inner, legible', inside, rfl⟩
      rcases (legible.of_mem_operands isOther).exists_of_mem_walk isRight with
        ⟨inner', -, inside', rfl⟩
      have apart := Span.Apart.of_contains (.inl before) inside inside'
      exact ⟨_, _, span_toExpr source inner, span_toExpr source inner',
        apart.not_contains legible'.laidOut.covers⟩

end IsLegible

end Node

end AssertionLint
