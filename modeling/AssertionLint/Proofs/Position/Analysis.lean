import AssertionLint.Proofs.FixAll.Document
import AssertionLint.Proofs.Position.FixedCall

/-!
# Analysis behind a text

Blanks and line breaks in front of a document move its diagnostics and change nothing else about
them, and fixing all leaves them in front of the fixed text (`ParsedDocument.analysis_behind`).
-/

namespace AssertionLint

variable (front : String)

namespace SyntaxTree

variable (tree : SyntaxTree)

@[simp]
theorem invocations_behind :
    (tree.behind front).invocations =
      tree.invocations.map (Prod.map (Expr.behind front) (RootExpression.behind front)) := by
  simp [invocations, List.flatMap_map, List.map_flatMap, List.filter_map, Function.comp_def]

@[simp]
theorem findInvocation?_behind (span : Span) :
    (tree.behind front).findInvocation? (span.behind front) =
      (tree.findInvocation? span).map
        (Prod.map (Expr.behind front) (RootExpression.behind front)) := by
  simp only [findInvocation?, behind_roots, List.findSome?_map, List.map_findSome?]
  congr 1
  funext root
  simp only [Function.comp_apply, RootExpression.behind_expression, Expr.findBySpan?_behind]
  cases root.expression.findBySpan? span with
  | none => rfl
  | some expr =>
    simp only [Option.map_some, Expr.isInvocation_behind]
    split <;> rfl

end SyntaxTree

/-- The same diagnostic once a text stands in front of the source. -/
@[simps]
def Diagnostic.behind (diagnostic : Diagnostic) : Diagnostic where
  span := diagnostic.span.behind front
  observation := diagnostic.observation.behind front
  message := diagnostic.message
  severity := diagnostic.severity

@[simp]
theorem Diagnostic.id_behind (diagnostic : Diagnostic) :
    (diagnostic.behind front).id = diagnostic.id := by
  simp [id]

@[simp]
theorem Diagnostic.notAfter_behind (left right : Diagnostic) :
    (left.behind front).notAfter (right.behind front) = left.notAfter right := by
  simp [notAfter]

/-- The same action once a text stands in front of the source. -/
@[simps]
def CodeAction.behind (action : CodeAction) : CodeAction where
  title := action.title
  equivalenceKey := action.equivalenceKey
  edit := action.edit.behind front

@[simp]
theorem CodeAction.ofFixedCall?_behind (source : String) (span : Span) (title key : String)
    (fixed : Option Expr) :
    ofFixedCall? (front ++ source) (span.behind front) title key (fixed.map (Expr.behind front)) =
      (ofFixedCall? source span title key fixed).map (behind front) := by
  cases fixed with
  | none => rfl
  | some fixed => simp [ofFixedCall?, Expr.render_behind, TextEdit.minimized_behind, behind]

@[simp]
theorem Configuration.report?_behind (configuration : Configuration) (finding : Finding) :
    configuration.report? (finding.behind front) =
      (configuration.report? finding).map (Diagnostic.behind front) := by
  simp [report?, Function.comp_def, Diagnostic.behind]

theorem Configuration.acceptEdits_behind (source : String) (previous : Option TextEdit)
    (edits : List TextEdit) :
    acceptEdits (front ++ source) (previous.map (TextEdit.behind front))
        (edits.map (TextEdit.behind front)) =
      (acceptEdits source previous edits).map (TextEdit.behind front) := by
  induction edits generalizing previous with
  | nil => rfl
  | cons edit rest ih =>
    have kept := ih previous
    have taken := ih (some edit)
    have same (last : TextEdit) : (last.behind front == edit.behind front) = (last == edit) := by
      rw [Bool.eq_iff_iff]
      simp
    rw [Option.map_some] at taken
    simp only [List.map_cons, acceptEdits, TextEdit.isNoop_behind, Option.any_map,
      same, TextEdit.span_behind, Span.start_behind, Span.stop_behind,
      Text.behind_lt_behind, kept, taken]
    split <;> rfl

namespace SemanticModel.MovesTo

variable {front} {one other : SemanticModel (StateM Bindings)} (moves : MovesTo front one other)
  (configuration : Configuration) (tree : SyntaxTree) (token : CancellationToken)

include moves

theorem actionsOfCall (shape : CallShape) (observation : Observation) (source : String)
    (settings : FixSettings) :
    Moves front (List.map (CodeAction.behind front))
      (CodeAction.ofCall shape observation one source settings)
      (CodeAction.ofCall (shape.behind front) (observation.behind front) other (front ++ source)
        settings) := by
  have listed (title key : String) (fixed : Option Expr) :
      (CodeAction.ofFixedCall? (front ++ source) (shape.behind front).span title key
          (fixed.map (Expr.behind front))).toList =
        (CodeAction.ofFixedCall? source shape.span title key fixed).toList.map
          (CodeAction.behind front) := by
    rw [CallShape.behind_span, CodeAction.ofFixedCall?_behind]
    cases CodeAction.ofFixedCall? source shape.span title key fixed <;> rfl
  cases observation with
  | classic rule hasTolerance =>
    refine (moves.classic? shape rule hasTolerance).bind fun full => .ite ?_ (.pure (listed _ _ _))
    refine (moves.condensed? shape).bind fun condensed => .pure ?_
    rw [listed, listed, List.map_append]
  | condition rule constraint swapOperands =>
    exact (moves.fixedCondition? shape).bind fun _ => .pure (listed _ _ _)
  | formatString => exact (moves.fixedFormatString? shape).bind fun _ => .pure (listed _ _ _)
  | nullConstraint | sameAsOnValueType => exact .pure rfl

theorem diagnoseCall (call : Expr × RootExpression) :
    Moves front (List.map (Diagnostic.behind front)) (configuration.diagnoseCall one call)
      (configuration.diagnoseCall other
        (call.map (Expr.behind front) (RootExpression.behind front))) := by
  refine (moves.classify? call.1 call.2).bind fun shape => ?_
  cases shape with
  | none => exact .pure rfl
  | some shape =>
    refine (moves.findingsOfCall shape).bind fun findings => .pure ?_
    simp [List.filterMap_map, List.map_filterMap]

theorem diagnoseCalls (calls : List (Expr × RootExpression)) :
    Moves front (Except.map (List.map (Diagnostic.behind front)))
      (configuration.diagnoseCalls one token calls)
      (configuration.diagnoseCalls other token
        (calls.map (Prod.map (Expr.behind front) (RootExpression.behind front)))) := by
  induction calls with
  | nil => exact .pure rfl
  | cons call rest ih =>
    rw [List.map_cons]
    unfold Configuration.diagnoseCalls
    cases token.check with
    | error error => exact .pure rfl
    | ok =>
      refine (moves.diagnoseCall configuration call).bind fun found =>
        ih.bind fun others => .pure ?_
      cases others with
      | error error => rfl
      | ok others => simp [Except.map]

/-- The diagnostics of a document move with it. -/
theorem analyze :
    Moves front (Except.map (List.map (Diagnostic.behind front)))
      (configuration.analyze tree one token)
      (configuration.analyze (tree.behind front) other token) := by
  unfold Configuration.analyze
  rw [SyntaxTree.invocations_behind]
  refine (moves.diagnoseCalls configuration token tree.invocations).bind fun found => .pure ?_
  cases found with
  | error error => rfl
  | ok diagnostics =>
    simp only [Except.map, Except.ok.injEq]
    symm
    apply List.map_mergeSort
    intro left _ right _
    simp

theorem actionsFor (diagnostic : Diagnostic) :
    Moves front (List.map (CodeAction.behind front)) (configuration.actionsFor tree one diagnostic)
      (configuration.actionsFor (tree.behind front) other (diagnostic.behind front)) := by
  rcases diagnostic with ⟨span, observation, message, severity⟩
  cases observation with
  | nullConstraint => exact .pure rfl
  | sameAsOnValueType rename replacement => exact .pure rfl
  | classic | condition | formatString =>
    simp only [Configuration.actionsFor, Diagnostic.behind, Observation.behind,
      SyntaxTree.findInvocation?_behind]
    cases tree.findInvocation? span with
    | none => exact .pure rfl
    | some call =>
      refine (moves.classify? call.1 call.2).bind fun shape => ?_
      cases shape with
      | none => exact .pure rfl
      | some shape => exact moves.actionsOfCall shape _ tree.source configuration.fixes

theorem offeredEdits (equivalenceKey : String) (diagnostics : List Diagnostic) :
    Moves front (Except.map (List.map (TextEdit.behind front)))
      (configuration.offeredEdits tree one equivalenceKey token diagnostics)
      (configuration.offeredEdits (tree.behind front) other equivalenceKey token
        (diagnostics.map (Diagnostic.behind front))) := by
  induction diagnostics with
  | nil => exact .pure rfl
  | cons diagnostic rest ih =>
    rw [List.map_cons]
    unfold Configuration.offeredEdits
    cases token.check with
    | error error => exact .pure rfl
    | ok =>
      refine (moves.actionsFor configuration tree diagnostic).bind fun actions =>
        ih.bind fun others => .pure ?_
      cases others with
      | error error => rfl
      | ok others => simp [Except.map, List.filter_map, Function.comp_def]

end SemanticModel.MovesTo

theorem Configuration.applyOffered_behind {source fixed : String} {offered : List TextEdit}
    (applied : applyOffered source offered = .ok fixed) :
    applyOffered (front ++ source) (offered.map (TextEdit.behind front)) =
      .ok (front ++ fixed) := by
  have sorted : (offered.map (TextEdit.behind front)).mergeSort
        (fun left right => left.span.notAfter right.span) =
      (offered.mergeSort fun left right => left.span.notAfter right.span).map
        (TextEdit.behind front) := by
    symm
    apply List.map_mergeSort
    intro left _ right _
    simp
  have accepted := acceptEdits_behind front source none
    (offered.mergeSort fun left right => left.span.notAfter right.span)
  rw [Option.map_none] at accepted
  unfold applyOffered at applied ⊢
  rw [sorted, accepted]
  generalize acceptEdits source none _ = edits at applied ⊢
  cases result : TextEdit.applyAll source edits with
  | error fault =>
    rw [result] at applied
    cases applied
  | ok text =>
    rw [result] at applied
    cases applied
    rw [TextEdit.applyAll_behind front source result]
    rfl

/-- A fixed text stays the same behind a text. -/
theorem SemanticModel.MovesTo.run_fixAll {front : String}
    {one other : SemanticModel (StateM Bindings)} (moves : MovesTo front one other)
    (configuration : Configuration) (tree : SyntaxTree) {token : CancellationToken}
    {diagnostics : List Diagnostic} {equivalenceKey fixed : String} {bindings : Bindings}
    (isFixed : ((configuration.fixAll tree one diagnostics equivalenceKey token).run bindings).1 =
      .ok fixed) :
    ((configuration.fixAll (tree.behind front) other (diagnostics.map (Diagnostic.behind front))
      equivalenceKey token).run (bindings.behind front)).1 = .ok (front ++ fixed) := by
  have offered := congrArg Prod.fst
    (moves.offeredEdits configuration tree token equivalenceKey diagnostics bindings)
  rw [Configuration.run_fixAll_eq_bind] at isFixed ⊢
  rw [offered, Prod.map_fst]
  cases collected : ((configuration.offeredEdits tree one equivalenceKey token diagnostics).run
      bindings).1 with
  | error error =>
    rw [collected] at isFixed
    cases isFixed
  | ok edits =>
    rw [collected] at isFixed
    exact Configuration.applyOffered_behind front isFixed

namespace ParsedDocument

/-- A text in front of a document moves all answers of its model. -/
theorem moves_model (front source : String) (node : Node) :
    SemanticModel.MovesTo front (ofNode source node).model
      (ofNode (front ++ source) (node.behind front)).model := by
  have tableIs : ((ofNode source node).behind front).table =
      (ofNode source node).table.behind front :=
    TypeTable.ofDeclarations_behind front Reference.declarations _
  rw [ofNode_behind]
  unfold model
  rw [tableIs]
  exact TypeTable.moves_model front (ofNode source node).table

/-- If a text in front of a document only moves its concrete syntax, as blanks and line breaks do,
then analysis reports the same diagnostics at spans moved by the length of the text, and fixing all
under any key leaves the text in front of the fixed one. -/
theorem analysis_behind (configuration : Configuration) {token : CancellationToken}
    (uncancelled : token.isCancelled = false) {front source : String} {node moved : Node}
    (spansFit : node.SpansFit source) (isMoved : moved = node.behind front) :
    ∃ diagnostics bindings,
      (configuration.analyze (ofNode source node).tree (ofNode source node).model token).run {} =
        (.ok diagnostics, bindings) ∧
      (configuration.analyze (ofNode (front ++ source) moved).tree
          (ofNode (front ++ source) moved).model token).run {} =
        (.ok (diagnostics.map (Diagnostic.behind front)), bindings.behind front) ∧
      ∀ equivalenceKey, ∃ fixed,
        ((configuration.fixAll (ofNode source node).tree (ofNode source node).model diagnostics
          equivalenceKey token).run bindings).1 = .ok fixed ∧
        ((configuration.fixAll (ofNode (front ++ source) moved).tree
          (ofNode (front ++ source) moved).model (diagnostics.map (Diagnostic.behind front))
          equivalenceKey token).run (bindings.behind front)).1 = .ok (front ++ fixed) := by
  subst isMoved
  have moves := moves_model front source node
  have treeIs : (ofNode (front ++ source) (node.behind front)).tree =
      (ofNode source node).tree.behind front := by
    rw [ofNode_behind]
    rfl
  rcases exists_fixAll_of_analyze configuration uncancelled spansFit (ofNode source node).model {}
    with ⟨diagnostics, found, fixes⟩
  have analyzed := moves.analyze configuration (ofNode source node).tree token {}
  rw [← treeIs] at analyzed
  refine ⟨diagnostics, _, Prod.ext found rfl, ?_, ?_⟩
  · rw [Bindings.behind_nil] at analyzed
    rw [analyzed, Prod.ext_iff]
    simp [found, Except.map]
  · intro equivalenceKey
    rcases fixes equivalenceKey _ with ⟨fixed, isFixed⟩
    refine ⟨fixed, isFixed, ?_⟩
    rw [treeIs]
    exact moves.run_fixAll configuration (ofNode source node).tree isFixed

/-- A test with a classic call. -/
def classicTest : String :=
  "using NUnit.Framework.Legacy;\n" ++
    "class C \x7b void M(bool a) \x7b ClassicAssert.IsTrue(a); \x7d \x7d"

/-- Behind a line break and two blanks, the call of `classicTest` is reported three places further
on, and its fix leaves them in front. -/
theorem analysis_behind_lineBreak :
    let call (span : Span) : Diagnostic :=
      ⟨span, .classic .isTrue false, (Observation.classic .isTrue false).message, .info⟩
    let fixed : String := "using NUnit.Framework.Legacy;\n" ++
      "class C \x7b void M(bool a) \x7b Assert.That(a, Is.True); \x7d \x7d"
    ({} : CancellationToken).isCancelled = false ∧
    (Node.ofSource classicTest).SpansFit classicTest ∧
    Node.ofSource ("\n  " ++ classicTest) = (Node.ofSource classicTest).behind "\n  " ∧
    ∃ bindings,
      (Configuration.analyze {} (ofSource classicTest).tree (ofSource classicTest).model {}).run
          {} =
        (.ok [call ⟨57, 80⟩], bindings) ∧
      (Configuration.analyze {} (ofSource ("\n  " ++ classicTest)).tree
          (ofSource ("\n  " ++ classicTest)).model {}).run {} =
        (.ok [call ⟨60, 83⟩], bindings.behind "\n  ") ∧
      ((Configuration.fixAll {} (ofSource classicTest).tree (ofSource classicTest).model
        [call ⟨57, 80⟩] "TransformToConstraintModel" {}).run bindings).1 = .ok fixed ∧
      ((Configuration.fixAll {} (ofSource ("\n  " ++ classicTest)).tree
        (ofSource ("\n  " ++ classicTest)).model [call ⟨60, 83⟩]
        "TransformToConstraintModel" {}).run (bindings.behind "\n  ")).1 =
          .ok ("\n  " ++ fixed) := by
  intro call fixed
  have uncancelled : ({} : CancellationToken).isCancelled = false := rfl
  have spansFit := Node.spansFit_ofSource classicTest
  have isMoved : Node.ofSource ("\n  " ++ classicTest) =
      (Node.ofSource classicTest).behind "\n  " :=
    Node.ofSource_behind (List.all_eq_true.mp (by decide)) classicTest
  refine ⟨uncancelled, spansFit, isMoved, ?_⟩
  rcases analysis_behind {} uncancelled spansFit isMoved with
    ⟨diagnostics, bindings, found, foundBehind, fixes⟩
  rcases fixes "TransformToConstraintModel" with ⟨text, isFixed, isFixedBehind⟩
  let first := (Configuration.analyze {} (ofSource classicTest).tree
    (ofSource classicTest).model {}).run {}
  obtain ⟨reported, computed⟩ : first.1 = .ok [call ⟨57, 80⟩] ∧
      ((Configuration.fixAll {} (ofSource classicTest).tree (ofSource classicTest).model
        [call ⟨57, 80⟩] "TransformToConstraintModel" {}).run first.2).1 = .ok fixed := by
    decide +kernel
  have diagnostics_eq : diagnostics = [call ⟨57, 80⟩] :=
    Except.ok.inj ((congrArg Prod.fst found).symm.trans reported)
  have bindings_eq : first.2 = bindings := congrArg Prod.snd found
  have text_eq : text = fixed := by
    rw [← bindings_eq, diagnostics_eq] at isFixed
    exact Except.ok.inj (isFixed.symm.trans computed)
  subst diagnostics_eq text_eq
  exact ⟨bindings, found, foundBehind, isFixed, isFixedBehind⟩

end ParsedDocument

end AssertionLint
