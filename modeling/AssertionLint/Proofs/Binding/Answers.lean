import AssertionLint.Proofs.Binding.Counter
import AssertionLint.Proofs.Syntax.Search
import Mathlib.Data.List.Forall2

/-!
# Answers of the model of a document

The model of a document remembers what it has bound and binds only up to a fixed depth. If no two
expressions of the document have the same span, and binding without memory stays below this depth,
then neither shows: every answer is that of binding without memory and without a limit, whatever has
been asked before (`ParsedDocument.answers_eq_plain`). Nor does it show whether the depth is handed
on or counted beside the memory, and the counter is back at its start after every question.
-/

namespace AssertionLint

/-- The computation gives this result. -/
def StepRelation.defined : StepRelation Option Id where
  Rel computation result := computation = some (Id.run result)
  pure _ := rfl
  bind := by
    rintro α β _ result next rest rfl then_
    exact then_ (Id.run result)

/-- The expressions that locals take their values from, with all their parts. -/
def Declarations.localExpressions (declarations : Declarations) : List Expr :=
  (declarations.locals.filterMap (·.value.expr?)).flatMap Expr.walk

namespace ParsedDocument

/-- Every expression of a document: those of its tree, and those that locals take their values
from. -/
def expressions (document : ParsedDocument) : List Expr :=
  document.tree.expressions ++ document.declarations.localExpressions

/-- The answers of binding without memory; there is none if bindings nest deeper than `depth`. -/
def plainModel (document : ParsedDocument) (depth : Nat) : SemanticModel Option :=
  (document.table.plainBinder depth).toModel

/-- The answers of a binder that counts how deep bindings nest. -/
def countingModel (document : ParsedDocument) (rounds : Nat) :
    SemanticModel (StateM CountedBindings) :=
  (document.table.countingBinder rounds).toModel

/-- Binding without memory stays within the limit on the depth. -/
def IsWithinDepth (document : ParsedDocument) : Prop :=
  ∀ expr ∈ document.expressions, (document.table.bindPlain TypeTable.maxBindDepth expr).isSome

theorem isClosed_expressions (document : ParsedDocument) :
    document.table.IsClosed (· ∈ document.expressions) where
  child := by
    intro expr child member isChild
    rcases List.mem_append.mp member with inTree | inLocal
    · rcases List.mem_flatMap.mp inTree with ⟨root, isRoot, inside⟩
      exact List.mem_append_left _
        (List.mem_flatMap.mpr ⟨root, isRoot, Expr.child_mem_walk inside isChild⟩)
    · rcases List.mem_flatMap.mp inLocal with ⟨value, isValue, inside⟩
      exact List.mem_append_right _
        (List.mem_flatMap.mpr ⟨value, isValue, Expr.child_mem_walk inside isChild⟩)
  value := by
    intro found value declared valueIs
    refine List.mem_append_right _ (List.mem_flatMap.mpr ⟨value, ?_, Expr.mem_walk_self value⟩)
    exact List.mem_filterMap.mpr ⟨found, declared, valueIs⟩

/-- Binding without memory, with nothing known of an expression that nests too deep. -/
def totalBinder (document : ParsedDocument) : Binder Id :=
  ⟨document.table, fun expr =>
    (document.table.bindPlain TypeTable.maxBindDepth expr).getD .unknown⟩

variable {document : ParsedDocument}

theorem related_totalBinder (within : document.IsWithinDepth) :
    Binder.Related .defined (· ∈ document.expressions)
      (document.table.plainBinder TypeTable.maxBindDepth) document.totalBinder := by
  refine ⟨rfl, document.isClosed_expressions, fun {expr} member => ?_⟩
  rcases Option.isSome_iff_exists.mp (within expr member) with ⟨bound, bindsTo⟩
  change document.table.bindPlain _ expr = some (Option.getD _ _)
  rw [bindsTo]
  rfl

/-- Binding without memory has an answer to each question about the document, and at every greater
depth the same one. -/
theorem ask_plainModel (within : document.IsWithinDepth) {question : Question}
    (asked : question.expr ∈ document.expressions) {depth : Nat}
    (deep : TypeTable.maxBindDepth ≤ depth) :
    question.ask (document.plainModel depth) =
      some (Id.run (question.ask document.totalBinder.toModel)) :=
  (TypeTable.related_plainBinder deep).ask _ trivial _ ((related_totalBinder within).ask _ asked)

/-- Several questions in a row have the answers of binding without memory. -/
theorem run_mapM_ask_model (distinct : SpansAreDistinct (· ∈ document.expressions))
    (within : document.IsWithinDepth) {questions : List Question}
    (asked : ∀ question ∈ questions, question.expr ∈ document.expressions) :
    ((questions.mapM (Question.ask document.model)).run {}).1 =
      questions.map fun question => Id.run (question.ask document.totalBinder.toModel) := by
  have remembers : Binder.Related
      (.answersAs (Bindings.Agree document.table (· ∈ document.expressions)))
      (· ∈ document.expressions) (document.table.rememberingBinder TypeTable.maxBindDepth)
      (document.table.plainBinder TypeTable.maxBindDepth) :=
    ⟨rfl, document.isClosed_expressions, fun member _ bindsTo =>
      TypeTable.ensures_bindWithin document.isClosed_expressions distinct member bindsTo⟩
  have plain := StepRelation.defined.mapM fun question member =>
    (related_totalBinder within).ask question (asked question member)
  have remembered := (StepRelation.answersAs _).mapM fun question member =>
    remembers.ask question (asked question member)
  have same := (remembered _ plain {} (Bindings.agree_empty _ _)).1
  rw [List.idRun_mapM] at same
  exact same

/-- Every answer of the model of a document is the one of binding without memory and without a
limit, whatever has been asked before. A counter of the depth gives the same answers, and after each
question it is where it was. -/
theorem answers_eq_plain (document : ParsedDocument)
    (distinct : SpansAreDistinct (· ∈ document.expressions)) (within : document.IsWithinDepth)
    (questions : List Question)
    (asked : ∀ question ∈ questions, question.expr ∈ document.expressions) :
    ∃ answers bindings,
      (questions.mapM (Question.ask document.model)).run {} = (answers, bindings) ∧
      List.Forall₂ (fun question answer => ∀ depth, TypeTable.maxBindDepth ≤ depth →
        question.ask (document.plainModel depth) = some answer) questions answers ∧
      ∀ rounds, TypeTable.maxBindDepth ≤ rounds →
        (questions.mapM (Question.ask (document.countingModel rounds))).run {} =
          (answers, ⟨bindings, 0⟩) ∧
        ∀ (question : Question) (counted : CountedBindings),
          ((question.ask (document.countingModel rounds)).run counted).2.depth = counted.depth := by
  have same := run_mapM_ask_model distinct within asked
  rcases runs : (questions.mapM (Question.ask document.model)).run {} with ⟨answers, bindings⟩
  rw [runs] at same
  dsimp only at same
  refine ⟨answers, bindings, rfl, ?_, ?_⟩
  · rw [same, List.forall₂_map_right_iff, List.forall₂_same]
    intro question member depth deep
    exact ask_plainModel within (asked question member) deep
  · intro rounds enough
    refine ⟨?_, ?_⟩
    · have counts := TypeTable.related_countingBinder document.table 0 enough
      exact (StepRelation.countingFrom 0).mapM
        (fun question _ => counts.ask question trivial) {} _ _ runs
    · rintro question ⟨bindings, depth⟩
      have counts := TypeTable.related_countingBinder document.table depth
        (Nat.le_add_right_of_le enough)
      have counted := counts.ask question trivial bindings _ _ rfl
      exact congrArg (fun run => run.2.depth) counted

/-- A document in which locals take their values from other locals. -/
def chainedLocals : ParsedDocument where
  tree :=
    { source := "var a = 1; var b = (a); var c = new[] \x7b b \x7d;"
      roots := [⟨one, true, false⟩, ⟨copy, true, false⟩, ⟨elements, true, false⟩] }
  declarations :=
    { Declarations.empty with
      locals :=
        [⟨"a", none, .initializer one, ⟨0, 44⟩, 9⟩, ⟨"b", none, .initializer copy, ⟨0, 44⟩, 22⟩,
          ⟨"c", none, .initializer elements, ⟨0, 44⟩, 43⟩] }
where
  one := .literal ⟨.integer, "1"⟩ (some ⟨8, 9⟩)
  copy := .parenthesized (.name (.ofIdentifier "a") (some ⟨20, 21⟩)) (some ⟨19, 22⟩)
  elements := .arrayCreation none [.name (.ofIdentifier "b") (some ⟨40, 41⟩)] (some ⟨32, 43⟩)

theorem mem_expressions_chainedLocals {expr : Expr} :
    expr ∈ chainedLocals.expressions ↔
      expr = chainedLocals.one ∨ expr = chainedLocals.copy ∨
        expr = .name (.ofIdentifier "a") (some ⟨20, 21⟩) ∨ expr = chainedLocals.elements ∨
        expr = .name (.ofIdentifier "b") (some ⟨40, 41⟩) := by
  simp [expressions, chainedLocals, chainedLocals.one, chainedLocals.copy, chainedLocals.elements,
    SyntaxTree.expressions, Declarations.localExpressions, LocalValue.expr?, Expr.walk_eq,
    Expr.children]
  tauto

theorem spansAreDistinct_chainedLocals : SpansAreDistinct (· ∈ chainedLocals.expressions) := by
  intro first second span firstMember secondMember firstSpan secondSpan
  rw [mem_expressions_chainedLocals] at firstMember secondMember
  rcases firstMember with rfl | rfl | rfl | rfl | rfl <;> cases firstSpan <;>
    rcases secondMember with rfl | rfl | rfl | rfl | rfl <;>
    simp_all [Expr.span, chainedLocals.one, chainedLocals.copy, chainedLocals.elements]

theorem isWithinDepth_chainedLocals : chainedLocals.IsWithinDepth := by
  intro expr member
  rw [mem_expressions_chainedLocals] at member
  rcases member with rfl | rfl | rfl | rfl | rfl <;> rfl

/-- Questions about `chainedLocals`, one of them asked twice and one about the value of a local that
no root has been asked about, are answered as without memory. -/
theorem answers_chainedLocals :
    SpansAreDistinct (· ∈ chainedLocals.expressions) ∧ chainedLocals.IsWithinDepth ∧
      let questions : List Question :=
        [.typeOf chainedLocals.elements, .isConstant chainedLocals.copy,
          .symbolInfo (.name (.ofIdentifier "b") (some ⟨40, 41⟩)),
          .classifyConversion chainedLocals.copy .nullLiteral, .typeOf chainedLocals.elements]
      (∀ question ∈ questions, question.expr ∈ chainedLocals.expressions) ∧
      ∃ answers bindings,
        (questions.mapM (Question.ask chainedLocals.model)).run {} = (answers, bindings) ∧
        List.Forall₂ (fun question answer => ∀ depth, TypeTable.maxBindDepth ≤ depth →
          question.ask (chainedLocals.plainModel depth) = some answer) questions answers ∧
        ∀ rounds, TypeTable.maxBindDepth ≤ rounds →
          (questions.mapM (Question.ask (chainedLocals.countingModel rounds))).run {} =
            (answers, ⟨bindings, 0⟩) ∧
          ∀ (question : Question) (counted : CountedBindings),
            ((question.ask (chainedLocals.countingModel rounds)).run counted).2.depth =
              counted.depth := by
  have asked : ∀ question ∈ ([.typeOf chainedLocals.elements, .isConstant chainedLocals.copy,
      .symbolInfo (.name (.ofIdentifier "b") (some ⟨40, 41⟩)),
      .classifyConversion chainedLocals.copy .nullLiteral, .typeOf chainedLocals.elements] :
        List Question), question.expr ∈ chainedLocals.expressions := by
    simp [mem_expressions_chainedLocals, Question.expr]
  exact ⟨spansAreDistinct_chainedLocals, isWithinDepth_chainedLocals, asked,
    answers_eq_plain chainedLocals spansAreDistinct_chainedLocals isWithinDepth_chainedLocals _
      asked⟩

end ParsedDocument

end AssertionLint
