import AssertionLint.Proofs.Syntax.Walk
import Mathlib.Data.List.Pairwise
import Mathlib.Data.List.TakeWhile

/-!
# Visits of the outline

The nodes that one step of the outline searches next are parts of the node that stand apart from
each other (`Node.pairwise_apart_outlineSteps`), and where an expression is looked for, the step
goes to a part that may stand there (`Node.isOperand_of_mem_outlineSteps`).
-/

namespace AssertionLint

namespace OutlineStep

/-- A node that is searched next stands within the span. -/
def Within (span : Span) : OutlineStep → Prop
  | found _ => True
  | visit _ node => span.contains node.span = true

/-- Nodes that are searched next stand apart from each other. -/
def Apart : OutlineStep → OutlineStep → Prop
  | visit _ one, visit _ other => one.span.Apart other.span
  | _, _ => True

@[simp]
theorem apart_found (item : OutlineItem) (step : OutlineStep) : (found item).Apart step := by
  trivial

@[simp]
theorem found_apart (step : OutlineStep) (item : OutlineItem) : step.Apart (found item) := by
  cases step <;> trivial

theorem Apart.symm {left right : OutlineStep} (apart : left.Apart right) : right.Apart left := by
  cases left with
  | found item => exact found_apart _ _
  | visit region node =>
    cases right with
    | found item => exact apart_found _ _
    | visit region node => exact Span.Apart.symm apart

instance : Std.Symm Apart := ⟨fun _ _ => Apart.symm⟩

theorem Within.apart {one other : Span} {left right : OutlineStep} (apart : one.Apart other)
    (inOne : left.Within one) (inOther : right.Within other) : left.Apart right := by
  cases left with
  | found item => exact apart_found _ _
  | visit region node =>
    cases right with
    | found item => exact found_apart _ _
    | visit region node => exact apart.of_contains inOne inOther

theorem Within.mono {outer inner : Span} {step : OutlineStep} (within : step.Within inner)
    (inside : outer.contains inner = true) : step.Within outer := by
  cases step with
  | found item => trivial
  | visit region node => exact Span.contains_trans inside within

end OutlineStep

namespace Region

/-- An expression is looked for at the node itself. -/
def wantsOperand : Region → Bool
  | root _ | operand _ => true
  | declaration .. | accessors .. | function .. | statement _ | inside _ => false

/-- The inside of an expression is searched. -/
def isInner : Region → Bool
  | operand _ | inside _ => true
  | declaration .. | accessors .. | function .. | statement _ | root _ => false

theorem isInner_of_rank_lt {region inner : Region} (isInner : region.isInner = true)
    (lower : inner.rank < region.rank) : inner.isInner = true := by
  cases region <;> simp only [Region.isInner, Bool.false_eq_true] at isInner
  all_goals cases inner <;> simp [rank, Region.isInner] at lower ⊢

end Region

namespace Node

variable {source : String} {node : Node} {around : Surroundings}

theorem EndsBefore.apart {left right : Node} (before : left.EndsBefore right) :
    left.span.Apart right.span :=
  .inl before

theorem apart_of_ordered {nodes : List Node} (ordered : nodes.Pairwise EndsBefore)
    {one other : Node} (isOne : one ∈ nodes) (isOther : other ∈ nodes) (ne : one ≠ other) :
    one.span.Apart other.span := by
  have : Std.Symm fun one other : Node => one.span.Apart other.span :=
    ⟨fun _ _ => Span.Apart.symm⟩
  exact (ordered.imp EndsBefore.apart).forall isOne isOther ne

theorem IsLaidOut.apart (laidOut : node.IsLaidOut source) {one other : Node}
    (isOne : one ∈ node.children) (isOther : other ∈ node.children) (ne : one ≠ other) :
    one.span.Apart other.span :=
  apart_of_ordered laidOut.ordered isOne isOther ne

/-- Steps that are collected from nodes one behind the other, each within its node. -/
theorem pairwise_apart_flatMap {nodes : List Node} {steps : Node → List OutlineStep}
    (ordered : nodes.Pairwise EndsBefore)
    (within : ∀ node ∈ nodes, ∀ step ∈ steps node, step.Within node.span)
    (each : ∀ node ∈ nodes, (steps node).Pairwise OutlineStep.Apart) :
    (nodes.flatMap steps).Pairwise OutlineStep.Apart := by
  rw [List.pairwise_flatMap]
  refine ⟨each, ?_⟩
  apply ordered.imp_of_mem
  intro one other isOne isOther before left isLeft right isRight
  exact (within one isOne left isLeft).apart before.apart (within other isOther right isRight)

theorem pairwise_apart_map {nodes : List Node} {region : Node → Region}
    (ordered : nodes.Pairwise EndsBefore) :
    (nodes.map fun node => OutlineStep.visit (region node) node).Pairwise OutlineStep.Apart := by
  rw [List.pairwise_map]
  exact ordered.imp EndsBefore.apart

theorem pairwise_apart_found (items : List OutlineItem) :
    (items.map OutlineStep.found).Pairwise OutlineStep.Apart := by
  rw [List.pairwise_map]
  exact List.pairwise_of_forall fun _ _ => OutlineStep.apart_found _ _

/-- What a step finds by itself stands in no one's way. -/
theorem pairwise_apart_insert {front back : List OutlineStep} (items : List OutlineItem)
    (apart : (front ++ back).Pairwise OutlineStep.Apart) :
    (front ++ items.map OutlineStep.found ++ back).Pairwise OutlineStep.Apart := by
  rcases List.pairwise_append.mp apart with ⟨ordered, ordered', across⟩
  rw [List.append_assoc, List.pairwise_append, List.pairwise_append]
  refine ⟨ordered, ⟨pairwise_apart_found items, ordered', ?_⟩, ?_⟩
  · intro left isLeft right _
    rcases List.mem_map.mp isLeft with ⟨item, -, rfl⟩
    exact OutlineStep.apart_found _ _
  · intro left isLeft right isRight
    rcases List.mem_append.mp isRight with isRight | isRight
    · rcases List.mem_map.mp isRight with ⟨item, -, rfl⟩
      exact OutlineStep.found_apart _ _
    · exact across left isLeft right isRight

theorem within_of_mem_ite {chosen : Bool} {region : Region} {step : OutlineStep}
    (member : step ∈ if chosen then [OutlineStep.visit region node] else []) :
    step.Within node.span := by
  split at member
  · rw [List.mem_singleton] at member
    rw [member]
    exact Span.contains_self _
  · simp at member

/-- Nodes of a kind are searched, at most one step for each. -/
theorem pairwise_apart_filter {nodes : List Node} {chosen : Node → Bool} {region : Node → Region}
    (ordered : nodes.Pairwise EndsBefore) :
    (nodes.flatMap fun node => if chosen node then [.visit (region node) node] else []).Pairwise
      OutlineStep.Apart := by
  apply pairwise_apart_flatMap ordered fun _ _ _ => within_of_mem_ite
  intro node _
  split <;> simp

theorem within_of_mem_valueSteps {declarator : Node} (laidOut : declarator.IsLaidOut source)
    {step : OutlineStep} (member : step ∈ declarator.valueSteps around) :
    step.Within declarator.span := by
  unfold valueSteps at member
  split at member
  · rename_i value isPart _
    rw [List.mem_singleton] at member
    rw [member]
    exact laidOut.contains isPart
  · simp at member

theorem pairwise_apart_valueSteps (declarator : Node) :
    (declarator.valueSteps around).Pairwise OutlineStep.Apart := by
  unfold valueSteps
  split <;> simp

theorem within_of_mem_bodySteps {scope : BodyScope} {body : Node} {step : OutlineStep}
    (member : step ∈ body.bodySteps scope) : step.Within body.span := by
  simp only [bodySteps, List.mem_cons, List.not_mem_nil, or_false] at member
  rcases member with rfl | rfl
  · trivial
  · exact Span.contains_self _

theorem pairwise_apart_bodySteps (scope : BodyScope) (body : Node) :
    (body.bodySteps scope).Pairwise OutlineStep.Apart := by
  simp [bodySteps]

theorem within_of_mem_accessorSteps {parameters : List ParameterDecl} {isStatic : Bool}
    {child : Node} {step : OutlineStep} (member : step ∈ child.accessorSteps parameters isStatic) :
    step.Within child.span := by
  unfold accessorSteps at member
  split at member
  · rw [List.mem_singleton] at member
    rw [member]
    exact Span.contains_self _
  · rw [List.mem_singleton] at member
    rw [member]
    exact Span.contains_self _
  · exact within_of_mem_bodySteps member
  · simp at member

theorem pairwise_apart_accessorSteps (parameters : List ParameterDecl) (isStatic : Bool)
    (child : Node) : (child.accessorSteps parameters isStatic).Pairwise OutlineStep.Apart := by
  unfold accessorSteps
  split
  · simp
  · simp
  · exact pairwise_apart_bodySteps _ _
  · exact .nil

/-- What a declaration with accessors searches in them stands apart. -/
theorem pairwise_apart_accessors (laidOut : node.IsLaidOut source)
    (parameters : List ParameterDecl) (isStatic : Bool) :
    (node.children.flatMap (accessorSteps parameters isStatic)).Pairwise OutlineStep.Apart :=
  pairwise_apart_flatMap laidOut.ordered (fun _ _ _ => within_of_mem_accessorSteps)
    fun child _ => pairwise_apart_accessorSteps parameters isStatic child

/-- The steps of parts of two kinds that no part belongs to at once. -/
theorem pairwise_apart_append (laidOut : node.IsLaidOut source)
    {first second : Node → List OutlineStep}
    (ordered : (node.children.flatMap first).Pairwise OutlineStep.Apart)
    (ordered' : (node.children.flatMap second).Pairwise OutlineStep.Apart)
    (within : ∀ child, ∀ step ∈ first child, step.Within child.span)
    (within' : ∀ child, ∀ step ∈ second child, step.Within child.span)
    (distinct : ∀ child ∈ node.children, first child = [] ∨ second child = []) :
    (node.children.flatMap first ++ node.children.flatMap second).Pairwise OutlineStep.Apart := by
  rw [List.pairwise_append]
  refine ⟨ordered, ordered', ?_⟩
  intro left isLeft right isRight
  rcases List.mem_flatMap.mp isLeft with ⟨one, isOne, isLeft⟩
  rcases List.mem_flatMap.mp isRight with ⟨other, isOther, isRight⟩
  have ne : one ≠ other := by
    rintro rfl
    rcases distinct one isOne with none | none <;> simp_all
  have apart := laidOut.apart isOne isOther ne
  exact (within one left isLeft).apart apart (within' other right isRight)

theorem childOfForm?_of_view {type : Node} {list : Option Node}
    (view_eq : node.view = .objectCreation type list) :
    list = node.childOfForm? .argumentList := by
  cases hasView_of_view_eq view_eq
  rfl

theorem body_of_view {body : Option Node} (view_eq : node.view = .lambda body) :
    body = (node.child? .body).filter (·.form != .block) := by
  cases hasView_of_view_eq view_eq
  rfl

theorem within_of_mem_lambdaSteps {child : Node} {step : OutlineStep}
    (member : step ∈ child.lambdaSteps around) : step.Within child.span := by
  unfold lambdaSteps at member
  split at member
  · split at member <;>
      (rw [List.mem_singleton] at member; rw [member]; exact Span.contains_self _)
  · simp at member

theorem pairwise_apart_lambdaSteps (child : Node) :
    (child.lambdaSteps around).Pairwise OutlineStep.Apart := by
  unfold lambdaSteps
  split
  · split <;> simp
  · exact .nil

theorem pairwise_apart_operandSteps (laidOut : node.IsLaidOut source) :
    (node.operandSteps source around).Pairwise OutlineStep.Apart := by
  have operands : (node.operands.map fun operand =>
      OutlineStep.visit (.operand around) operand).Pairwise OutlineStep.Apart :=
    pairwise_apart_map (node.hasOperands_operands.pairwise laidOut)
  unfold Node.operands at operands
  unfold operandSteps
  split <;> rename_i view_eq
  · simp
  · simp
  · rw [view_eq, ExprView.operands, List.map_cons, List.map_map] at operands
    exact operands
  · rename_i list
    rw [List.pairwise_append]
    rw [view_eq, ExprView.operands, List.map_flatMap] at operands
    simp only [List.map_map] at operands
    refine ⟨operands, pairwise_apart_filter laidOut.ordered, ?_⟩
    intro left isLeft right isRight
    rcases List.mem_flatMap.mp isLeft with ⟨outer, isOuter, isLeft⟩
    rcases List.mem_map.mp isLeft with ⟨view, isArgument, rfl⟩
    rcases List.mem_flatMap.mp isRight with ⟨child, isChild, isRight⟩
    have found : node.childOfForm? .argumentList = some outer := by
      rw [← childOfForm?_of_view view_eq]
      exact Option.mem_toList.mp isOuter
    have isList : outer ∈ node.children := childOfForm?_mem found
    have ne : outer ≠ child := by
      rintro rfl
      have form_eq : outer.form = .argumentList := by simpa using List.find?_some found
      simp [form_eq] at isRight
    have inside := (hasPart_of_mem_arguments isArgument).within (laidOut.parts _ isList)
    have withinOuter : (OutlineStep.visit (.operand around) view.value).Within outer.span :=
      Span.contains_iff.mpr inside
    exact withinOuter.apart (laidOut.apart isList isChild ne) (within_of_mem_ite isRight)
  · rw [List.pairwise_cons]
    refine ⟨fun _ _ => OutlineStep.apart_found _ _, ?_⟩
    exact pairwise_apart_flatMap laidOut.ordered (fun _ _ _ => within_of_mem_lambdaSteps)
      fun child _ => pairwise_apart_lambdaSteps child
  · rename_i noCall noCreation noLambda
    cases view_eq' : node.view <;> simp_all [ExprView.operands]

/-- Every operand of a node is searched as an operand. -/
theorem mem_operandSteps_of_mem_operands {operand : Node} (member : operand ∈ node.operands) :
    ∃ around', .visit (.operand around') operand ∈ node.operandSteps source around := by
  unfold Node.operands at member
  unfold operandSteps
  split <;> rename_i view_eq
  · simp [view_eq, ExprView.operands, ExprView.parts] at member
  · simp [view_eq, ExprView.operands, ExprView.parts] at member
  · rw [view_eq, ExprView.operands] at member
    refine ⟨around, ?_⟩
    rcases List.mem_cons.mp member with rfl | member
    · exact List.mem_cons_self
    · rcases List.mem_map.mp member with ⟨view, isArgument, rfl⟩
      exact List.mem_cons_of_mem _ (List.mem_map.mpr ⟨view, isArgument, rfl⟩)
  · rw [view_eq, ExprView.operands] at member
    refine ⟨around, List.mem_append_left _ ?_⟩
    rcases List.mem_flatMap.mp member with ⟨list, isList, member⟩
    rcases List.mem_map.mp member with ⟨view, isArgument, rfl⟩
    exact List.mem_flatMap.mpr ⟨list, isList, List.mem_map.mpr ⟨view, isArgument, rfl⟩⟩
  · rename_i body
    simp only [view_eq, ExprView.operands, ExprView.parts, Option.mem_toList] at member
    rw [body_of_view view_eq] at member
    have isBody := Option.eq_some_of_filter_eq_some member
    have inRole : (operand.role == some .body) = true := by
      simpa using List.find?_some isBody
    have noBlock : ¬(operand.form == .block) = true := by
      simpa using (Option.filter_eq_some_iff.mp member).2
    refine ⟨{ around with inMethodBody := true, scope := operand.span }, ?_⟩
    apply List.mem_cons_of_mem
    rw [List.mem_flatMap]
    refine ⟨operand, child?_mem isBody, ?_⟩
    rw [lambdaSteps, if_pos inRole, if_neg noBlock]
    exact List.mem_singleton_self _
  · rename_i noCall noCreation noLambda
    refine ⟨around, List.mem_map.mpr ⟨operand, ?_, rfl⟩⟩
    cases view_eq : node.view <;> simp_all [ExprView.operands]

theorem pairwise_apart_statementSteps (laidOut : node.IsLaidOut source) :
    (node.statementSteps source around).Pairwise OutlineStep.Apart := by
  unfold statementSteps
  split
  · apply pairwise_apart_flatMap laidOut.ordered
    · intro declarator isChild step member
      split at member
      · rcases List.mem_append.mp member with member | member
        · exact within_of_mem_valueSteps (laidOut.parts _ isChild) member
        · rcases List.mem_map.mp member with ⟨item, -, rfl⟩
          trivial
      · simp at member
    · intro declarator isChild
      split
      · rw [← List.append_nil (_ ++ _)]
        apply pairwise_apart_insert
        rw [List.append_nil]
        exact pairwise_apart_valueSteps declarator
      · exact .nil
  · apply pairwise_apart_insert
    apply pairwise_apart_append laidOut (pairwise_apart_filter laidOut.ordered)
      (pairwise_apart_filter laidOut.ordered) (fun _ _ => within_of_mem_ite)
      (fun _ _ => within_of_mem_ite)
    intro child _
    by_cases isRight : child.role = some .right
    · simp [isRight]
    · simp [isRight]
  · simp
  · exact .nil
  · split
    · exact .nil
    · exact pairwise_apart_map laidOut.ordered

theorem pairwise_apart_declarationSteps (laidOut : node.IsLaidOut source) (owner : Option Bool)
    (span : Span) : (node.declarationSteps source owner span).Pairwise OutlineStep.Apart := by
  unfold declarationSteps
  split
  · exact pairwise_apart_map laidOut.ordered
  · exact pairwise_apart_filter laidOut.ordered
  · split
    · exact .nil
    · exact pairwise_apart_filter laidOut.ordered
  · exact pairwise_apart_map laidOut.ordered
  case h_11 =>
    apply pairwise_apart_append laidOut (pairwise_apart_accessors laidOut _ _)
      (pairwise_apart_filter laidOut.ordered) (fun _ _ => within_of_mem_accessorSteps)
      (fun _ _ => within_of_mem_ite)
    intro child isChild
    by_cases isValue : child.role = some .value
    · have isOperand := (laidOut.parts child isChild).inRole isValue rfl
      have notAccessor := isOperand.notAccessor
      unfold accessorSteps
      split <;> simp_all
    · simp [isValue]
  case h_12 =>
    apply pairwise_apart_flatMap laidOut.ordered
    · intro declaration isChild step member
      split at member
      · rcases List.mem_flatMap.mp member with ⟨declarator, isPart, member⟩
        have outer := laidOut.parts _ isChild
        have inside := within_of_mem_valueSteps (outer.parts _ isPart) member
        exact inside.mono (outer.contains isPart)
      · simp at member
    · intro declaration isChild
      split
      · exact pairwise_apart_flatMap (laidOut.parts _ isChild).ordered
          (fun declarator isPart _ =>
            within_of_mem_valueSteps ((laidOut.parts _ isChild).parts declarator isPart))
          fun declarator _ => pairwise_apart_valueSteps declarator
      · exact .nil
  case h_13 => exact pairwise_apart_map laidOut.ordered
  all_goals simp

/-- The nodes that a step searches next stand apart from each other. -/
theorem pairwise_apart_outlineSteps (laidOut : node.IsLaidOut source) (region : Region) :
    (node.outlineSteps source region).Pairwise OutlineStep.Apart := by
  cases region with
  | inside around => exact pairwise_apart_map laidOut.ordered
  | root around =>
    rw [outlineSteps, ← List.nil_append (List.map _ _)]
    apply pairwise_apart_insert
    simp
  | operand around => exact pairwise_apart_operandSteps laidOut
  | statement around =>
    rw [outlineSteps]
    split
    · simp
    · exact pairwise_apart_statementSteps laidOut
  | function parameters typeParameters isStatic =>
    apply pairwise_apart_flatMap laidOut.ordered
    · intro child _ step member
      split at member
      · exact within_of_mem_bodySteps member
      · simp at member
    · intro child _
      split
      · exact pairwise_apart_bodySteps _ _
      · exact .nil
  | accessors parameters isStatic => exact pairwise_apart_accessors laidOut parameters isStatic
  | declaration owner span => exact pairwise_apart_declarationSteps laidOut owner span

theorem exists_equals_of_declaredValue? {value : { value // value ∈ node.children }}
    (found : node.declaredValue? = some value) :
    ∃ mark ∈ node.children, mark.form = .token "=" := by
  by_contra none
  have skipped : node.children.attach.dropWhile (fun child => !child.1.isToken "=") = [] := by
    rw [List.dropWhile_eq_nil_iff]
    intro child _
    simp only [Bool.not_eq_true', isToken, beq_eq_false_iff_ne]
    exact fun isMark => none ⟨child.1, child.2, isMark⟩
  simp [declaredValue?, skipped] at found

/-- A value that is searched stands behind the equals sign of a declarator. -/
theorem isOperand_of_mem_valueSteps {declarator part : Node} {inner : Region}
    (laidOut : declarator.IsLaidOut source)
    (form : declarator.form = .declarator ∨ declarator.form.isType = true ∨
      declarator.children = [])
    (visited : .visit inner part ∈ declarator.valueSteps around) : part.IsOperand := by
  unfold valueSteps at visited
  split at visited
  · rename_i value isPart found
    rw [List.mem_singleton, OutlineStep.visit.injEq] at visited
    have admits := laidOut.admits (List.ne_nil_of_mem isPart)
    rcases exists_equals_of_declaredValue? found with ⟨mark, isMark, mark_eq⟩
    rcases form with isDeclarator | isType | none
    · rw [isDeclarator] at admits
      rw [visited.2]
      exact admits.operands rfl value isPart
    · exact absurd mark_eq (admits.untyped isType mark isMark)
    · simp [none] at isPart
  · simp at visited

theorem isOperand_of_mem_operandSteps {part : Node} {inner : Region}
    (laidOut : node.IsLaidOut source)
    (visited : .visit inner part ∈ node.operandSteps source around)
    (wants : inner.wantsOperand = true) : part.IsOperand := by
  have operands := node.hasOperands_operands.isOperand laidOut
  unfold Node.operands at operands
  unfold operandSteps at visited
  split at visited <;> rename_i view_eq
  · rw [List.mem_singleton, OutlineStep.visit.injEq] at visited
    rw [visited.1] at wants
    cases wants
  · rw [List.mem_singleton, OutlineStep.visit.injEq] at visited
    rw [visited.1] at wants
    cases wants
  · rw [view_eq, ExprView.operands] at operands
    apply operands
    simp only [List.mem_cons, OutlineStep.visit.injEq, List.mem_map] at visited ⊢
    rcases visited with ⟨-, rfl⟩ | ⟨view, isArgument, -, rfl⟩
    · exact .inl rfl
    · exact .inr ⟨view, isArgument, rfl⟩
  · rw [view_eq, ExprView.operands] at operands
    rcases List.mem_append.mp visited with visited | visited
    · apply operands
      simp only [List.mem_flatMap, OutlineStep.visit.injEq, List.mem_map] at visited ⊢
      rcases visited with ⟨list, isList, view, isArgument, -, rfl⟩
      exact ⟨list, isList, view, isArgument, rfl⟩
    · simp only [List.mem_flatMap, List.mem_ite_nil_right, List.mem_singleton,
        OutlineStep.visit.injEq] at visited
      rcases visited with ⟨child, -, -, rfl, -⟩
      cases wants
  · simp only [List.mem_cons, reduceCtorEq, false_or, List.mem_flatMap, lambdaSteps,
      List.mem_ite_nil_right, beq_iff_eq] at visited
    rcases visited with ⟨child, isChild, isBody, visited⟩
    have isPart : part = child := by
      split at visited <;> simp_all
    rw [isPart]
    exact (laidOut.parts child isChild).inRole isBody rfl
  · rename_i noCall noCreation noLambda
    apply operands
    simp only [List.mem_map, OutlineStep.visit.injEq] at visited
    rcases visited with ⟨operand, member, -, rfl⟩
    cases view_eq : node.view <;> simp_all [ExprView.operands]

theorem wantsOperand_of_mem_bodySteps {scope : BodyScope} {body part : Node} {inner : Region}
    (visited : .visit inner part ∈ body.bodySteps scope) : inner.wantsOperand = false := by
  simp only [bodySteps, List.mem_cons, reduceCtorEq, OutlineStep.visit.injEq, false_or,
    List.not_mem_nil, or_false] at visited
  rw [visited.1]
  rfl

theorem wantsOperand_of_mem_accessorSteps {parameters : List ParameterDecl} {isStatic : Bool}
    {child part : Node} {inner : Region}
    (visited : .visit inner part ∈ child.accessorSteps parameters isStatic) :
    inner.wantsOperand = false := by
  unfold accessorSteps at visited
  split at visited
  · rw [List.mem_singleton, OutlineStep.visit.injEq] at visited
    rw [visited.1]
    rfl
  · rw [List.mem_singleton, OutlineStep.visit.injEq] at visited
    rw [visited.1]
    rfl
  · exact wantsOperand_of_mem_bodySteps visited
  · simp at visited

theorem isOperand_of_mem_statementSteps {part : Node} {inner : Region}
    (laidOut : node.IsLaidOut source)
    (visited : .visit inner part ∈ node.statementSteps source around)
    (wants : inner.wantsOperand = true) : part.IsOperand := by
  unfold statementSteps at visited
  split at visited
  · simp only [List.mem_flatMap, List.mem_ite_nil_right, List.mem_append, List.mem_map,
      reduceCtorEq, and_false, exists_false, or_false, beq_iff_eq] at visited
    rcases visited with ⟨declarator, isChild, isDeclarator, visited⟩
    exact isOperand_of_mem_valueSteps (laidOut.parts _ isChild) (.inl isDeclarator) visited
  · simp only [List.mem_append, List.mem_flatMap, List.mem_ite_nil_right, List.mem_singleton,
      OutlineStep.visit.injEq, List.mem_map, reduceCtorEq, and_false, exists_false, or_false,
      beq_iff_eq] at visited
    rcases visited with ⟨child, isChild, isRight, -, rfl⟩ | ⟨child, -, -, rfl, -⟩
    · exact (laidOut.parts _ isChild).inRole isRight rfl
    · cases wants
  · rw [List.mem_singleton, OutlineStep.visit.injEq] at visited
    rw [visited.1] at wants
    cases wants
  · simp at visited
  · split at visited
    · simp at visited
    · simp only [List.mem_map, OutlineStep.visit.injEq] at visited
      rcases visited with ⟨child, -, rfl, -⟩
      cases wants

theorem isOperand_of_mem_declarationSteps {owner : Option Bool} {span : Span} {part : Node}
    {inner : Region} (laidOut : node.IsLaidOut source)
    (visited : .visit inner part ∈ node.declarationSteps source owner span)
    (wants : inner.wantsOperand = true) : part.IsOperand := by
  unfold declarationSteps at visited
  split at visited
  case h_11 =>
    rcases List.mem_append.mp visited with visited | visited
    · rcases List.mem_flatMap.mp visited with ⟨child, -, visited⟩
      rw [wantsOperand_of_mem_accessorSteps visited] at wants
      cases wants
    · simp only [List.mem_flatMap, List.mem_ite_nil_right, Bool.and_eq_true, beq_iff_eq,
        List.mem_singleton, OutlineStep.visit.injEq] at visited
      rcases visited with ⟨child, isChild, ⟨isValue, -⟩, -, rfl⟩
      exact (laidOut.parts _ isChild).inRole isValue rfl
  case h_12 =>
    simp only [List.mem_flatMap, List.mem_ite_nil_right, beq_iff_eq] at visited
    rcases visited with ⟨declaration, isChild, isVariables, declarator, isPart, visited⟩
    have outer := laidOut.parts _ isChild
    have declared := (outer.admits (List.ne_nil_of_mem isPart)).declared isVariables _ isPart
    exact isOperand_of_mem_valueSteps (outer.parts _ isPart) declared visited
  all_goals simp at visited
  all_goals grind [Region.wantsOperand]

/-- Where an expression is looked for, a step goes to a part that may stand there. -/
theorem isOperand_of_mem_outlineSteps {region inner : Region} {part : Node}
    (laidOut : node.IsLaidOut source) (isOperand : region.wantsOperand = true → node.IsOperand)
    (visited : .visit inner part ∈ node.outlineSteps source region)
    (wants : inner.wantsOperand = true) : part.IsOperand := by
  cases region with
  | inside around =>
    simp only [outlineSteps, List.mem_map, OutlineStep.visit.injEq] at visited
    rcases visited with ⟨child, isChild, rfl, rfl⟩
    unfold regionInside at wants
    split at wants
    · cases wants
    · split at wants
      · rename_i isExpression
        exact isOperand_of_isExpression (laidOut.parts _ isChild) isExpression
      · cases wants
  | root around =>
    simp only [outlineSteps, List.mem_append, List.mem_map, reduceCtorEq, and_false, exists_false,
      false_or, List.mem_singleton, OutlineStep.visit.injEq] at visited
    rw [visited.2]
    exact isOperand rfl
  | operand around => exact isOperand_of_mem_operandSteps laidOut visited wants
  | statement around =>
    simp only [outlineSteps] at visited
    split at visited
    · rename_i isExpression
      rw [List.mem_singleton, OutlineStep.visit.injEq] at visited
      rw [visited.2]
      exact isOperand_of_isExpression laidOut isExpression
    · exact isOperand_of_mem_statementSteps laidOut visited wants
  | function parameters typeParameters isStatic =>
    simp only [outlineSteps, List.mem_flatMap, List.mem_ite_nil_right] at visited
    rcases visited with ⟨child, -, -, visited⟩
    rw [wantsOperand_of_mem_bodySteps visited] at wants
    cases wants
  | accessors parameters isStatic =>
    rcases List.mem_flatMap.mp visited with ⟨child, -, visited⟩
    rw [wantsOperand_of_mem_accessorSteps visited] at wants
    cases wants
  | declaration owner span => exact isOperand_of_mem_declarationSteps laidOut visited wants

end Node

end AssertionLint
