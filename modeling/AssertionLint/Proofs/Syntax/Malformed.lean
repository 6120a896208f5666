import AssertionLint.Assertions.CallShape
import AssertionLint.Proofs.Syntax.Outline

/-!
# Malformed statements

A statement or a field with a syntax error spoils every outermost expression inside of it, however
deep it stands in blocks and lambdas, as long as no local function stands between them: the walk
carries the mark along, and only the body of a function starts without it. A malformed argument is
no syntax error. It spoils the outermost expression around it alone, and what is found inside a
block of this expression is taken for well-formed.
-/

namespace AssertionLint

namespace Region

/-- What surrounds the region is marked as malformed. -/
def isMalformed : Region → Bool
  | statement around | root around | operand around | inside around => around.hasErrors
  | declaration .. | accessors .. | function .. => false

end Region

namespace Node

/-- A node of the form stands somewhere in the node. -/
def holdsForm (form : Form) (node : Node) : Bool :=
  node.form == form || node.children.attach.any fun ⟨child, _⟩ => child.holdsForm form
termination_by sizeOf node
decreasing_by exact sizeOf_lt_of_mem_children ‹_›

theorem holdsForm_of_child {form : Form} {node child : Node} (isChild : child ∈ node.children)
    (free : node.holdsForm form = false) : child.holdsForm form = false := by
  rw [holdsForm] at free
  simp only [Bool.or_eq_false_iff, List.any_eq_false] at free
  have := free.2 ⟨child, isChild⟩ (List.mem_attach _ _)
  simpa using this

theorem HasPart.holdsForm_eq_false {form : Form} {node part : Node} (isPart : node.HasPart part)
    (free : node.holdsForm form = false) : part.holdsForm form = false := by
  induction isPart with
  | child isChild => exact holdsForm_of_child isChild free
  | deeper _ isChild ih => exact holdsForm_of_child isChild ih

theorem form_ne_of_holdsForm {form : Form} {node : Node} (free : node.holdsForm form = false) :
    node.form ≠ form := by
  rw [holdsForm] at free
  intro same
  simp [same] at free

theorem hasErrors_of_mem_rootItems {source : String} {around : Surroundings} {node : Node}
    {found : RootExpression} (member : .root found ∈ node.rootItems source around) :
    found.hasErrors = (around.hasErrors || node.hasError || node.hasMalformedArgument) := by
  unfold rootItems at member
  split at member <;> simp at member
  rw [member]

/-- The parts of a statement that marks its parts are searched as malformed. -/
theorem isMalformed_of_mem_statementSteps {source : String} {around : Surroundings}
    {inner : Region} {node part : Node} (marks : (node.surroundParts around).hasErrors = true)
    (form : node.form ≠ .localFunction)
    (visited : .visit inner part ∈ node.statementSteps source around) :
    inner.isMalformed = true := by
  simp only [statementSteps] at visited
  split at visited
  · simp at visited
    rcases visited with ⟨child, -, -, visited⟩
    unfold valueSteps at visited
    split at visited <;> simp at visited
    rw [visited.1]
    exact marks
  · simp only [List.mem_append, List.mem_flatMap, List.mem_map, List.mem_ite_nil_right,
      List.mem_singleton, OutlineStep.visit.injEq, reduceCtorEq, and_false, exists_false,
      or_false] at visited
    rcases visited with ⟨-, -, -, regionIs, -⟩ | ⟨-, -, -, regionIs, -⟩ <;>
      (rw [regionIs]; exact marks)
  · contradiction
  · simp at visited
  · split at visited <;> simp at visited
    rw [← visited.2]
    exact marks

/-- A step of a malformed region passes the mark on. -/
theorem isMalformed_of_mem_outlineSteps {source : String} {region inner : Region}
    {node part : Node} (malformed : region.isMalformed = true) (form : node.form ≠ .localFunction)
    (visited : .visit inner part ∈ node.outlineSteps source region) :
    inner.isMalformed = true := by
  -- only a local function starts anew, without the mark of what is around it
  cases region with
  | inside around =>
    simp only [outlineSteps, List.mem_map, OutlineStep.visit.injEq] at visited
    rcases visited with ⟨child, -, regionIs, -⟩
    rw [← regionIs]
    unfold regionInside
    split
    · exact malformed
    · split <;> exact malformed
  | root around =>
    simp [outlineSteps] at visited
    rw [visited.1]
    exact malformed
  | operand around =>
    simp only [outlineSteps, operandSteps] at visited
    split at visited
    case h_5 =>
      simp [lambdaSteps] at visited
      rcases visited with ⟨child, -, -, visited⟩
      split at visited <;> simp at visited <;> (rw [visited.1]; exact malformed)
    all_goals
      simp at visited
      grind [Region.isMalformed]
  | statement around =>
    simp only [outlineSteps] at visited
    split at visited
    · simp at visited
      rw [visited.1]
      exact malformed
    · apply isMalformed_of_mem_statementSteps ?_ form visited
      simp only [Region.isMalformed] at malformed
      simp [surroundParts, malformed]
  | function | accessors | declaration => simp [Region.isMalformed] at malformed

variable {source : String} {found : RootExpression}

/-- Everything that is found in a malformed region without local functions is marked. -/
theorem hasErrors_of_mem_outline {region : Region} {node : Node}
    (malformed : region.isMalformed = true) (plain : node.holdsForm .localFunction = false)
    (member : .root found ∈ node.outline source region) : found.hasErrors = true := by
  induction region, node using outline_induction source with
  | step region node ih =>
    rw [outline_eq_flatMap, List.mem_flatMap] at member
    rcases member with ⟨step, isStep, member⟩
    cases step with
    | found item =>
      rw [OutlineStep.items_found, List.mem_singleton] at member
      subst member
      rcases mem_rootItems_of_mem_outlineSteps isStep with ⟨around, rfl, isRoot⟩
      rw [hasErrors_of_mem_rootItems isRoot]
      simp only [Region.isMalformed] at malformed
      simp [malformed]
    | visit inner part =>
      have marked := isMalformed_of_mem_outlineSteps malformed (form_ne_of_holdsForm plain) isStep
      apply ih inner part isStep marked ?_ member
      rcases hasPart_of_mem_outlineSteps isStep with ⟨rfl, -⟩ | isPart
      · exact plain
      · exact isPart.holdsForm_eq_false plain

theorem isExpression_of_isStatement {form : Form} (isStatement : form.isStatement = true) :
    form.isExpression = false := by
  cases form <;> simp_all [Form.isStatement, Form.isExpression]

/-- A syntax error anywhere in the node spoils all of it: it is a statement, also one at the top of
the document, or a field. -/
def isSpoiledWhole (region : Region) (node : Node) : Bool :=
  match region with
  | .statement _ => node.form.isStatement
  | .declaration owner _ =>
    node.form == .globalStatement || (owner.isSome && node.form == .fieldDeclaration)
  | _ => false

/-- The parts of a spoiled node are searched as malformed. -/
theorem isMalformed_of_isSpoiledWhole {region inner : Region} {node part : Node}
    (spoiled : node.isSpoiledWhole region = true) (broken : node.hasError = true)
    (form : node.form ≠ .localFunction)
    (visited : .visit inner part ∈ node.outlineSteps source region) :
    inner.isMalformed = true := by
  cases region with
  | statement around =>
    have isStatement : node.form.isStatement = true := spoiled
    have marks : (node.surroundParts around).hasErrors = true := by
      simp [surroundParts, isStatement, broken]
    simp only [outlineSteps, isExpression_of_isStatement isStatement] at visited
    exact isMalformed_of_mem_statementSteps marks form visited
  | declaration owner span =>
    simp only [isSpoiledWhole, Bool.or_eq_true, Bool.and_eq_true, beq_iff_eq] at spoiled
    rcases spoiled with isGlobal | ⟨isMember, isField⟩
    · simp only [outlineSteps, declarationSteps, isGlobal, List.mem_map,
        OutlineStep.visit.injEq] at visited
      rcases visited with ⟨-, -, regionIs, -⟩
      rw [← regionIs]
      exact broken
    · rcases Option.isSome_iff_exists.mp isMember with ⟨static, rfl⟩
      simp only [outlineSteps, declarationSteps, isField, List.mem_flatMap, List.mem_ite_nil_right]
        at visited
      rcases visited with ⟨-, -, -, declarator, -, visited⟩
      unfold valueSteps at visited
      split at visited
      · simp only [List.mem_singleton, OutlineStep.visit.injEq] at visited
        rw [visited.1]
        exact broken
      · simp at visited
  | _ => cases spoiled

/-- In a region that is marked, such as the initializer of a broken property, and in a statement or
a field with a syntax error everything that is found is marked, so no call in it is ever read as an
assertion. -/
theorem hasErrors_of_broken_statement {region : Region} {node : Node}
    (spoiled : region.isMalformed = true ∨
      (node.isSpoiledWhole region = true ∧ node.hasError = true))
    (plain : node.holdsForm .localFunction = false)
    (member : .root found ∈ node.outline source region) :
    found.hasErrors = true ∧ ∀ call (model : SemanticModel Id),
      CallShape.classify? call found model = none := by
  have marked : found.hasErrors = true := by
    rcases spoiled with malformed | ⟨spoiled, broken⟩
    · exact hasErrors_of_mem_outline malformed plain member
    rcases mem_outline_iff.mp member with isStep | ⟨inner, part, isStep, member⟩
    · rcases mem_rootItems_of_mem_outlineSteps isStep with ⟨around, rfl, -⟩
      cases spoiled
    · have malformed := isMalformed_of_isSpoiledWhole spoiled broken (form_ne_of_holdsForm plain)
        isStep
      apply hasErrors_of_mem_outline malformed ?_ member
      rcases hasPart_of_mem_outlineSteps isStep with ⟨rfl, -⟩ | isPart
      · exact plain
      · exact isPart.holdsForm_eq_false plain
  refine ⟨marked, ?_⟩
  intro call model
  unfold CallShape.classify?
  split
  · rfl
  · simp [marked]
    rfl

/-- The statement `lock (a) { one two three; Check(); }`. -/
def brokenLock : Node :=
  .branch .statement
    [.leaf (.token "lock") ⟨0, 4⟩, .leaf (.token "(") ⟨5, 6⟩, .leaf (.identifier "a") ⟨6, 7⟩,
      .leaf (.token ")") ⟨7, 8⟩,
      .branch .block
        [.leaf (.token "\x7b") ⟨9, 10⟩,
          .branch .error
            [.leaf (.token "one") ⟨11, 14⟩, .leaf (.token "two") ⟨15, 18⟩,
              .leaf (.token "three") ⟨19, 24⟩, .leaf (.token ";") ⟨24, 25⟩],
          .branch .statement
            [.branch .invocation
                [.leaf (.identifier "Check") ⟨26, 31⟩,
                  .branch .argumentList
                    [.leaf (.token "(") ⟨31, 32⟩, .leaf (.token ")") ⟨32, 33⟩]],
              .leaf (.token ";") ⟨33, 34⟩],
          .leaf (.token "\x7d") ⟨35, 36⟩]]

theorem hasErrors_of_brokenLock :
    (brokenLock.outline "" (.statement ⟨true, false, ⟨0, 36⟩⟩)).length = 1 ∧
      brokenLock.form.isStatement = true ∧ brokenLock.hasError = true ∧
      brokenLock.holdsForm .localFunction = false ∧
      ∀ found, .root found ∈ brokenLock.outline "" (.statement ⟨true, false, ⟨0, 36⟩⟩) →
        found.hasErrors = true ∧ ∀ call (model : SemanticModel Id),
          CallShape.classify? call found model = none := by
  obtain ⟨single, broken, plain⟩ :
      (brokenLock.outline "" (.statement ⟨true, false, ⟨0, 36⟩⟩)).length = 1 ∧
      brokenLock.hasError = true ∧ brokenLock.holdsForm .localFunction = false := by
    decide +kernel
  refine ⟨single, rfl, broken, plain, ?_⟩
  intro found member
  exact hasErrors_of_broken_statement (.inr ⟨rfl, broken⟩) plain member

end Node

namespace ParsedDocument

/-- The outer call has the malformed argument `one two`, and the call of `Check` inside of it is
taken for well-formed. -/
theorem exists_wellFormed_in_malformed :
    ∃ source, ∃ outer ∈ (ofSource source).tree.roots, ∃ inner ∈ (ofSource source).tree.roots,
      outer.hasErrors = true ∧ outer.span.contains inner.span = true ∧
        inner.inMethodBody = true ∧ inner.hasErrors = false := by
  let source := "Run(one two, () => { Check(value); });"
  let node := Node.ofSource source
  let items := node.outline source (.declaration none node.span)
  have exposed : (items.filterMap OutlineItem.root?).any (fun outer =>
      (items.filterMap OutlineItem.root?).any fun inner =>
        outer.hasErrors && outer.span.contains inner.span && inner.inMethodBody &&
          !inner.hasErrors) = true := by
    decide +kernel
  simp only [List.any_eq_true, Bool.and_eq_true, Bool.not_eq_true'] at exposed
  rcases exposed with ⟨outer, isOuter, inner, isInner, ⟨⟨flagged, contains⟩, inBody⟩, unflagged⟩
  have listed {found : RootExpression} (member : found ∈ items.filterMap OutlineItem.root?) :
      found ∈ (ofSource source).tree.roots := by
    unfold ofSource ofNode
    exact List.mem_mergeSort.mpr member
  exact ⟨source, outer, listed isOuter, inner, listed isInner, flagged, contains, inBody,
    unflagged⟩

end ParsedDocument

end AssertionLint
