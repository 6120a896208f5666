import AssertionLint.Proofs.Analysis.ClassicArguments
import AssertionLint.Proofs.Constraint.Segments
import AssertionLint.Proofs.FixAll.Batch
import AssertionLint.Proofs.Syntax.Nesting

/-!
# Fixing what analysis reports

The expressions of a document and the names that they end with are parts of its text. So the names
that analysis records are parts of the text too, whatever the model answers, and fixing all that it
reports never fails (`ParsedDocument.exists_fixAll_of_analyze`).
-/

namespace AssertionLint

variable {σ : Type} {source : String}

/-- The name that an expression ends with is a part of the source, if it has a span. -/
def Expr.HasValidName (expr : Expr) (source : String) : Prop :=
  ∀ name span, expr.trailingName? = some name → name.span = some span → span.FitsIn source

namespace Node

variable {node : Node}

/-- The node and its parts stand at boundaries of the source. -/
def SpansFit (node : Node) (source : String) : Prop :=
  ∀ part, node.Holds part → part.span.FitsIn source

theorem SpansFit.of_holds (fits : node.SpansFit source) {part : Node} (holds : node.Holds part) :
    part.SpansFit source :=
  fun inner isInner => fits inner (holds.trans isInner)

theorem hasValidName_toExpr (fits : node.SpansFit source) :
    (node.toExpr source).HasValidName source := by
  induction node using operandInduction with
  | step node ih =>
    intro name span found spanIs
    rw [toExpr] at found
    split at found
    case h_1 =>
      cases found
      cases spanIs
      exact fits node (.inl rfl)
    case h_3 target member view_eq =>
      cases found
      cases spanIs
      cases hasView_of_view_eq view_eq with
      | memberAccess _ children_eq => exact fits _ (.inr (.child (by simp [children_eq])))
    case h_4 target arguments view_eq =>
      have isOperand : target ∈ node.operands := by simp [operands, ExprView.operands, view_eq]
      have isPart := node.hasOperands_operands.hasPart _ isOperand
      exact ih target isOperand (fits.of_holds (.inr isPart)) name span found spanIs
    all_goals cases found

/-- The items of a document stand at boundaries of the source, and so does the document. -/
theorem IsDocument.spansFit (isDocument : node.IsDocument source) (fits : node.span.FitsIn source) :
    node.SpansFit source := by
  rintro part (rfl | isPart)
  · exact fits
  · exact (isDocument.isLaidOut isPart).fits

theorem spansFit_ofSource (source : String) : (ofSource source).SpansFit source := by
  refine (isDocument_ofSource source).spansFit ⟨?_, ?_, ?_⟩
  · have cut := congrArg Text.byteSize
      (List.takeWhile_append_dropWhile (l := source.toList) (p := Token.isGap))
    rw [Text.byteSize_append] at cut
    exact Nat.le.intro cut
  · exact ⟨_, _, (List.takeWhile_append_dropWhile).symm, rfl⟩
  · exact ⟨source.toList, [], (List.append_nil _).symm, rfl⟩

end Node

namespace ParsedDocument

variable {node : Node}

theorem hasValidSpans_ofNode (fits : node.SpansFit source) :
    (ofNode source node).tree.HasValidSpans := by
  intro expr member span spanIs
  rcases exists_holds_of_mem_expressions member with ⟨part, holds, rfl⟩
  rw [Node.span_toExpr] at spanIs
  cases spanIs
  exact fits part holds

theorem hasValidName_of_mem_expressions (fits : node.SpansFit source) {expr : Expr}
    (member : expr ∈ (ofNode source node).tree.expressions) : expr.HasValidName source := by
  rcases exists_holds_of_mem_expressions member with ⟨part, holds, rfl⟩
  exact Node.hasValidName_toExpr (fits.of_holds holds)

end ParsedDocument

/-- The names in the target and in the arguments of a call are parts of the source. -/
structure CallShape.HasValidNames (shape : CallShape) (source : String) : Prop where
  target : shape.target.HasValidName source
  arguments : ∀ argument ∈ shape.arguments, ∀ part ∈ argument.expression.walk,
    part.HasValidName source

namespace CallShape

variable {shape : CallShape}

theorem hasValidNames_of_bind? {call : Expr} {method : MethodSymbol}
    (valid : ∀ part ∈ call.walk, part.HasValidName source)
    (bound : bind? call method = some shape) : shape.HasValidNames source := by
  simp only [bind?, bind, pure, Option.bind_eq_some_iff, Option.some.injEq] at bound
  rcases bound with ⟨span, -, ⟨target, list⟩, isCall, assigned, read, rfl⟩
  cases call with
  | invocation target' list' span' =>
    cases isCall
    have below (child : Expr) (isChild : child ∈ (Expr.invocation target list span').children) :
        ∀ part ∈ child.walk, part.HasValidName source :=
      fun part inside => valid part (Expr.mem_walk_of_mem_children isChild inside)
    refine ⟨below target (by simp [Expr.children]) target (Expr.mem_walk_self target), ?_⟩
    intro argument member
    rw [arguments, map_argument_of_assign? read] at member
    apply below
    rw [Expr.children]
    exact List.mem_cons_of_mem _ (List.mem_map_of_mem member)
  | _ => cases isCall

theorem ensures_hasValidNames (root : RootExpression) (model : SemanticModel (StateM σ))
    {call : Expr} (valid : ∀ part ∈ call.walk, part.HasValidName source) :
    Ensures (fun _ => True) (fun found => ∀ shape ∈ found, shape.HasValidNames source)
      (classify? call root model) := by
  unfold classify?
  split
  · exact .pure (by simp)
  · split
    · exact .pure (by simp)
    · apply Ensures.bind (.always _)
      rintro (_ | method) -
      · exact .pure (by simp)
      · dsimp only
        split
        · exact .pure fun shape bound => hasValidNames_of_bind? valid bound
        · exact .pure (by simp)

theorem HasValidNames.of_argument? {parameter : String} {argument : Argument}
    (valid : shape.HasValidNames source) (found : shape.argument? parameter = some argument) :
    ∀ part ∈ argument.expression.walk, part.HasValidName source := by
  rcases Option.map_eq_some_iff.mp found with ⟨entry, isBound, rfl⟩
  have isAssigned := (List.mem_filter.mp (List.mem_of_find?_eq_some isBound)).1
  exact valid.arguments _ (List.mem_map_of_mem isAssigned)

end CallShape

/-- A name that a finding records is a part of the source, and only the equality of two values has a
tolerance. -/
structure Finding.IsRecorded (finding : Finding) (source : String) : Prop where
  rename : ∀ rename replacement, finding.observation = .sameAsOnValueType rename replacement →
    rename.FitsIn source
  tolerance : ∀ rule, finding.observation = .classic rule true → rule = .areEqual

namespace Finding

variable {shape : CallShape} (model : SemanticModel (StateM σ))

theorem ensures_condition? (shape : CallShape) :
    Ensures (fun _ => True) (fun found => ∀ finding ∈ found, finding.IsRecorded source)
      (condition? shape model) := by
  apply Ensures.bind (.always _)
  rintro (_ | condition) -
  · exact .pure (by simp)
  · apply Ensures.bind (.always _)
    rintro (_ | found) -
    · exact .pure (by simp)
    · refine .pure ?_
      rintro _ ⟨⟩
      exact ⟨nofun, nofun⟩

theorem ensures_nullConstraints (shape : CallShape) :
    Ensures (fun _ => True) (fun found => ∀ finding ∈ found, finding.IsRecorded source)
      (nullConstraints shape model) := by
  unfold nullConstraints
  split
  · split
    · exact .pure (by simp)
    · apply Ensures.bind (.always _)
      intro constraint _
      split
      · exact .pure (by simp)
      · apply Ensures.bind (.always _)
        intro type _
        split
        · refine .pure ?_
          intro finding member
          rcases List.mem_filterMap.mp member with ⟨part, -, found⟩
          split at found
          · rcases Option.map_eq_some_iff.mp found with ⟨span, -, rfl⟩
            exact ⟨nofun, nofun⟩
          · cases found
        · exact .pure (by simp)
  · exact .pure (by simp)

theorem ensures_sameAsParts (actualIsValue : Bool) {parts : List ConstraintPart}
    (valid : ∀ part ∈ parts, ∀ root ∈ part.root, root.HasValidName source) :
    Ensures (fun _ => True) (fun found => ∀ finding ∈ found, finding.IsRecorded source)
      (sameAsParts model actualIsValue parts) := by
  induction parts with
  | nil => exact .pure (by simp)
  | cons part rest ih =>
    rcases List.forall_mem_cons.mp valid with ⟨ofPart, ofRest⟩
    have here : ∀ finding ∈ (ofSameAsPart? part).toList, finding.IsRecorded source := by
      intro finding member
      simp only [Option.mem_toList, ofSameAsPart?, bind, pure, Option.bind_eq_some_iff,
        Option.some.injEq] at member
      rcases member with ⟨root, isRoot, name, named, place, placeIs, span, -, rfl⟩
      refine ⟨?_, by rintro _ ⟨⟩⟩
      rintro _ _ ⟨⟩
      exact ofPart root isRoot name place named placeIs
    have append {first others : List Finding}
        (fromFirst : ∀ finding ∈ first, finding.IsRecorded source)
        (fromOthers : ∀ finding ∈ others, finding.IsRecorded source) :
        ∀ finding ∈ first ++ others, finding.IsRecorded source :=
      List.forall_mem_append.mpr ⟨fromFirst, fromOthers⟩
    unfold sameAsParts
    dsimp only
    split
    · apply Ensures.bind (.always _)
      intro compares _
      split
      · exact (Ensures.pure here).bind fun first isFirst =>
          (ih ofRest).bind fun others areOthers => .pure (append isFirst areOthers)
      · exact (ih ofRest).bind fun others areOthers => .pure areOthers
    · exact (ih ofRest).bind fun others areOthers => .pure areOthers

theorem ensures_sameAsCall? (valid : shape.HasValidNames source) (replacement : String) :
    Ensures (fun _ => True) (fun found => ∀ finding ∈ found, finding.IsRecorded source)
      (sameAsCall? shape model replacement) := by
  have reported : ∀ finding, (shape.memberName?.bind (·.span)).map (fun rename =>
      (⟨shape.span, .sameAsOnValueType rename replacement⟩ : Finding)) = some finding →
        finding.IsRecorded source := by
    intro finding found
    rcases Option.map_eq_some_iff.mp found with ⟨place, placeIs, rfl⟩
    rcases Option.bind_eq_some_iff.mp placeIs with ⟨name, named, spanIs⟩
    refine ⟨?_, nofun⟩
    rintro _ _ ⟨⟩
    exact valid.target name place named spanIs
  have unreported : ∀ finding : Finding, none = some finding → finding.IsRecorded source := by
    simp
  unfold sameAsCall?
  dsimp only
  split
  · apply Ensures.bind (.always _)
    rintro (_ | _) -
    · apply Ensures.bind (.always _)
      rintro (_ | _) -
      · exact .pure unreported
      · exact .pure reported
    · exact .pure reported
  · exact .pure unreported

theorem ensures_sameAs (valid : shape.HasValidNames source) :
    Ensures (fun _ => True) (fun found => ∀ finding ∈ found, finding.IsRecorded source)
      (sameAs shape model) := by
  have ofCall (replacement : String) :
      Ensures (fun _ => True) (fun found => ∀ finding ∈ found, finding.IsRecorded source)
        (do pure (← sameAsCall? shape model replacement).toList) := by
    apply Ensures.bind (ensures_sameAsCall? model valid replacement)
    intro found isValid
    exact .pure fun finding member => isValid finding (by simpa using member)
  unfold sameAs
  split
  · split
    · exact .pure (by simp)
    · rename_i actual expr isCall
      have inExpr : ∀ part ∈ expr.walk, part.HasValidName source := by
        simp only [constraintCall?, bind, pure, Option.bind_eq_some_iff, Option.some.injEq,
          Prod.mk.injEq] at isCall
        rcases isCall with ⟨first, -, constraint, isConstraint, -, rfl⟩
        exact valid.of_argument? isConstraint
      apply Ensures.bind (.always _)
      intro actualIsValue _
      apply Ensures.bind (ConstraintExpr.ensures_root_mem_walk model expr)
      intro constraint inWalk
      exact ensures_sameAsParts model actualIsValue fun part isPart root isRoot =>
        inExpr root (inWalk part isPart root isRoot)
  · exact ofCall "AreEqual"
  · exact ofCall "AreNotEqual"
  · exact .pure (by simp)

theorem ensures_ofCall (valid : shape.HasValidNames source) :
    Ensures (fun _ => True) (fun found => ∀ finding ∈ found, finding.IsRecorded source)
      (ofCall shape model) := by
  apply Ensures.bind (ensures_condition? model shape)
  intro condition fromCondition
  apply Ensures.bind (ensures_nullConstraints model shape)
  intro nulls fromNulls
  apply Ensures.bind (ensures_sameAs model valid)
  intro references fromReferences
  refine .pure ?_
  intro finding member
  simp only [List.mem_append, Option.mem_toList, or_assoc] at member
  rcases member with classic | found | found | found | format
  · rcases classic?_eq_some_iff.mp classic with ⟨rule, -, -, rfl⟩
    refine ⟨nofun, fun other observed => ?_⟩
    simp only [Observation.classic.injEq, Bool.and_eq_true, beq_iff_eq] at observed
    exact observed.1 ▸ observed.2.1
  · exact fromCondition finding found
  · exact fromNulls finding found
  · exact fromReferences finding found
  · rcases formatString?_eq_some_iff.mp format with ⟨-, -, -, -, rfl⟩
    exact ⟨nofun, nofun⟩

end Finding

namespace Configuration

variable {tree : SyntaxTree} {token : CancellationToken}

theorem ensures_diagnoseCalls (configuration : Configuration) (model : SemanticModel (StateM σ))
    {calls : List (Expr × RootExpression)} (uncancelled : token.isCancelled = false)
    (valid : ∀ call ∈ calls, ∀ part ∈ call.1.walk, part.HasValidName source) :
    Ensures (fun _ => True) (fun result => ∃ diagnostics, result = .ok diagnostics ∧
        ∀ diagnostic ∈ diagnostics,
          Finding.IsRecorded ⟨diagnostic.span, diagnostic.observation⟩ source)
      (configuration.diagnoseCalls model token calls) := by
  induction calls with
  | nil => exact .pure ⟨[], rfl, by simp⟩
  | cons call rest ih =>
    rcases List.forall_mem_cons.mp valid with ⟨ofCall, ofRest⟩
    have diagnosed : Ensures (fun _ => True) (fun found =>
        ∀ diagnostic ∈ found,
          Finding.IsRecorded ⟨diagnostic.span, diagnostic.observation⟩ source)
          (configuration.diagnoseCall model call) := by
      apply Ensures.bind (CallShape.ensures_hasValidNames call.2 model ofCall)
      rintro (_ | shape) isValid
      · exact .pure (by simp)
      · apply Ensures.bind (Finding.ensures_ofCall model (isValid shape rfl))
        intro findings areValid
        refine .pure ?_
        intro diagnostic member
        rcases List.mem_filterMap.mp member with ⟨finding, isFinding, reported⟩
        rcases report?_eq_some_iff.mp reported with ⟨rfl, -⟩
        exact areValid _ isFinding
    unfold diagnoseCalls
    simp only [CancellationToken.check, uncancelled, Bool.false_eq_true, if_false]
    apply Ensures.bind diagnosed
    intro found fromCall
    apply Ensures.bind (ih ofRest)
    rintro _ ⟨others, rfl, fromOthers⟩
    exact .pure ⟨found ++ others, rfl, List.forall_mem_append.mpr ⟨fromCall, fromOthers⟩⟩

theorem ensures_analyze (configuration : Configuration) (model : SemanticModel (StateM σ))
    (uncancelled : token.isCancelled = false)
    (valid : ∀ call ∈ tree.invocations, ∀ part ∈ call.1.walk, part.HasValidName source) :
    Ensures (fun _ => True) (fun result => ∃ diagnostics, result = .ok diagnostics ∧
        ∀ diagnostic ∈ diagnostics,
          Finding.IsRecorded ⟨diagnostic.span, diagnostic.observation⟩ source)
      (configuration.analyze tree model token) := by
  apply Ensures.bind (ensures_diagnoseCalls configuration model uncancelled valid)
  rintro _ ⟨found, rfl, areRecorded⟩
  refine .pure ⟨_, rfl, ?_⟩
  intro diagnostic member
  exact areRecorded diagnostic (List.mem_mergeSort.mp member)

/-- Edits of parts of the source can be applied, those that are refused left out. -/
theorem exists_applyOffered {offered : List TextEdit}
    (fits : ∀ edit ∈ offered, edit.span.FitsIn source) :
    ∃ fixed, applyOffered source offered = .ok fixed := by
  have sortedFits : ∀ edit ∈ offered.mergeSort (fun left right =>
      left.span.notAfter right.span), edit.span.FitsIn source :=
    fun edit member => fits edit (List.mem_mergeSort.mp member)
  have disjoint := pairwise_precedes_acceptEdits source none
    fun edit member => (sortedFits edit member).ordered
  rcases TextEdit.exists_applyAll
    (fun edit member => sortedFits edit (mem_of_mem_acceptEdits member)) disjoint with
    ⟨fixed, applied, -⟩
  exact ⟨fixed, applyOffered_eq_ok rfl applied⟩

end Configuration

/-- Unless the host asks to stop, analysis gives diagnostics of recorded findings, whatever the
model answers. -/
theorem ParsedDocument.exists_recorded (configuration : Configuration) {token : CancellationToken}
    (uncancelled : token.isCancelled = false) {node : Node} (spansFit : node.SpansFit source)
    (model : SemanticModel (StateM σ)) (state : σ) :
    ∃ diagnostics,
      ((configuration.analyze (ofNode source node).tree model token).run state).1 =
        .ok diagnostics ∧
      ∀ diagnostic ∈ diagnostics,
        Finding.IsRecorded ⟨diagnostic.span, diagnostic.observation⟩ source := by
  have valid : ∀ call ∈ (ofNode source node).tree.invocations, ∀ part ∈ call.1.walk,
      part.HasValidName source := by
    rintro ⟨call, root⟩ isCall part inside
    rcases SyntaxTree.mem_invocations.mp isCall with ⟨isRoot, below, -⟩
    apply hasValidName_of_mem_expressions spansFit
    exact SyntaxTree.mem_expressions.mpr ⟨root, isRoot, Expr.mem_walk_trans below inside⟩
  exact (configuration.ensures_analyze model uncancelled valid state trivial).1

/-- Unless the host asks to stop, analysis gives diagnostics, and fixing all of them gives a text,
whatever the model answers and whenever it is asked. -/
theorem ParsedDocument.exists_fixAll_of_analyze (configuration : Configuration)
    {token : CancellationToken} (uncancelled : token.isCancelled = false) {node : Node}
    (spansFit : node.SpansFit source) (model : SemanticModel (StateM σ)) (state : σ) :
    ∃ diagnostics,
      ((configuration.analyze (ofNode source node).tree model token).run state).1 =
        .ok diagnostics ∧
      ∀ equivalenceKey later, ∃ fixed,
        ((configuration.fixAll (ofNode source node).tree model diagnostics equivalenceKey token).run
          later).1 = .ok fixed := by
  rcases exists_recorded configuration uncancelled spansFit model state with
    ⟨diagnostics, found, areRecorded⟩
  refine ⟨diagnostics, found, fun equivalenceKey later => ?_⟩
  rcases configuration.exists_offeredEdits (ofNode source node).tree model equivalenceKey
    diagnostics later uncancelled with ⟨edits, collected, isOffered⟩
  have fits : ∀ edit ∈ edits, edit.span.FitsIn (ofNode source node).tree.source :=
    fun edit member =>
      ((isOffered edit).mp member).fitsIn uncancelled (hasValidSpans_ofNode spansFit)
      fun diagnostic isReported => (areRecorded diagnostic isReported).rename
  rcases Configuration.exists_applyOffered fits with ⟨fixed, applied⟩
  refine ⟨fixed, ?_⟩
  rw [Configuration.run_fixAll_eq_bind, collected]
  exact applied

end AssertionLint
