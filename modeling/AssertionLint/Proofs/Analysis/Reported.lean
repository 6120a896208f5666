import AssertionLint.Binding.Document
import AssertionLint.Proofs.Model.Simulation

/-!
# What is reported

A diagnostic that analysis reports stands for a finding about a call of the document
(`Configuration.IsReported`). The findings of one call come from five sources, and the lemmas about
each source say what the call must look like for a finding.
-/

namespace AssertionLint

namespace Configuration

/-- What analysis reports about a document. -/
def reported (document : ParsedDocument) : Except Error (List Diagnostic) :=
  ((Configuration.analyze {} document.tree document.model {}).run {}).1

/-- The actions that are offered for a diagnostic of a document. -/
def offered (document : ParsedDocument) (diagnostic : Diagnostic) :
    Except Error (List CodeAction) :=
  ((Configuration.codeActions {} document.tree document.model diagnostic {}).run {}).1

end Configuration

variable {model : SemanticModel Id} {shape : CallShape} {finding : Finding}

namespace CallShape

theorem map_argument_of_assign? {method : MethodSymbol} {position : Nat}
    {arguments : List Argument} {entries : List BoundArgument}
    (read : assign? method position arguments = some entries) :
    entries.map (·.argument) = arguments := by
  induction arguments generalizing position entries with
  | nil =>
    cases read
    rfl
  | cons argument rest ih =>
    simp only [assign?, bind, pure, Option.bind_eq_some_iff, Option.some.injEq] at read
    rcases read with ⟨parameter, -, others, restRead, rfl⟩
    rw [List.map_cons, ih restRead]

/-- What is read of a call are its target and its arguments. -/
theorem exists_of_bind? {call : Expr} {method : MethodSymbol}
    (read : bind? call method = some shape) :
    ∃ list, call = .invocation shape.target list (some shape.span) ∧
      list.arguments = shape.arguments ∧ shape.method = method := by
  simp only [bind?, bind, pure, Option.bind_eq_some_iff, Option.some.injEq] at read
  rcases read with ⟨span, spanIs, ⟨target, list⟩, isCall, assigned, read, rfl⟩
  cases call with
  | invocation =>
    cases isCall
    cases spanIs
    exact ⟨list, rfl, (map_argument_of_assign? read).symm, rfl⟩
  | _ => cases isCall

theorem ensures_classify? {σ : Type} (call : Expr) (root : RootExpression)
    (model : SemanticModel (StateM σ)) :
    Ensures (fun _ => True) (fun found => ∀ shape, found = some shape →
      bind? call shape.method = some shape) (classify? call root model) := by
  unfold classify?
  split
  · exact .pure nofun
  · split
    · exact .pure nofun
    · refine .bind (.always _) fun method _ => ?_
      split
      · exact .pure nofun
      · split
        · refine .pure fun shape isRead => ?_
          rcases exists_of_bind? isRead with ⟨-, -, -, rfl⟩
          exact isRead
        · exact .pure nofun

/-- The parameters of a call are those that its arguments are assigned in order. -/
theorem assign?_of_bind? {call : Expr} {method : MethodSymbol}
    (read : bind? call method = some shape) :
    assign? method 0 shape.arguments = some shape.assigned := by
  simp only [bind?, Bind.bind, pure, Option.bind_eq_some_iff, Option.some.injEq] at read
  rcases read with ⟨span, -, ⟨target, list⟩, -, assigned, read, rfl⟩
  rw [arguments, map_argument_of_assign? read, read]

/-- A call that is classified is read as a call of the assertion method that it resolves to. -/
theorem resolved_of_classify? {call : Expr} {root : RootExpression}
    (classified : Id.run (classify? call root model) = some shape) :
    Id.run (model.resolveMethod call) = some shape.method ∧
      shape.method.containingType.fullName ∈ Names.holders ∧
      bind? call shape.method = some shape := by
  simp only [classify?, Bind.bind, pure, Id.run] at classified
  split at classified
  · cases classified
  · split at classified
    · cases classified
    · split at classified
      · cases classified
      next method resolved =>
        split at classified
        next isHolder =>
          rcases exists_of_bind? classified with ⟨-, -, -, rfl⟩
          exact ⟨resolved, by simpa using isHolder, classified⟩
        next => cases classified

theorem span_of_bind? {call : Expr} {method : MethodSymbol}
    (read : bind? call method = some shape) : call.span = some shape.span := by
  rcases exists_of_bind? read with ⟨list, rfl, -⟩
  rfl

theorem span_of_classify? {call : Expr} {root : RootExpression}
    (classified : Id.run (classify? call root model) = some shape) :
    call.span = some shape.span :=
  span_of_bind? (resolved_of_classify? classified).2.2

end CallShape

namespace Finding

theorem mem_ofCall : finding ∈ Id.run (ofCall shape model) ↔
    classic? shape = some finding ∨ Id.run (condition? shape model) = some finding ∨
      finding ∈ Id.run (nullConstraints shape model) ∨ finding ∈ Id.run (sameAs shape model) ∨
      formatString? shape = some finding := by
  simp only [ofCall, bind, pure, Id.run, List.mem_append, Option.mem_toList, or_assoc]

/-- A classic call is reported if it passes an actual value. -/
theorem classic?_eq_some_iff : classic? shape = some finding ↔
    ∃ rule, ClassicRule.ofMethodName? shape.method.name = some rule ∧
      (shape.firstBinding? rule.replacement.actualParameters).isSome = true ∧
      finding = ⟨shape.span,
        .classic rule (rule == .areEqual && (shape.argument? "delta").isSome)⟩ := by
  simp only [classic?, bind, pure, Option.bind_eq_some_iff, Option.some.injEq,
    Option.isSome_iff_exists]
  constructor
  · rintro ⟨rule, named, subject, bound, rfl⟩
    exact ⟨rule, named, ⟨subject, bound⟩, rfl⟩
  · rintro ⟨rule, named, ⟨subject, bound⟩, rfl⟩
    exact ⟨rule, named, subject, bound, rfl⟩

theorem condition?_eq_some_iff : Id.run (condition? shape model) = some finding ↔
    ∃ condition found, Id.run (Condition.ofCall? shape model) = some condition ∧
      Id.run (condition.recognize? model) = some found ∧
      finding = ⟨shape.span, .condition found.rule found.constraint found.swapOperands⟩ := by
  simp only [condition?, bind, pure, Id.run]
  constructor
  · intro reported
    split at reported
    · cases reported
    · rename_i condition read
      split at reported
      · cases reported
      · rename_i found recognized
        cases reported
        exact ⟨condition, found, read, recognized, rfl⟩
  · rintro ⟨condition, found, read, recognized, rfl⟩
    simp only [read, recognized]

theorem formatString?_eq_some_iff : formatString? shape = some finding ↔
    shape.method.containingType.fullName = Names.assertHolder ∧
      ClassicRule.ofMethodName? shape.method.name = none ∧ shape.message?.isSome = true ∧
      shape.overflow ≠ [] ∧ finding = ⟨shape.span, .formatString⟩ := by
  unfold formatString?
  split
  · rename_i holds
    simp only [Bool.and_eq_true, beq_iff_eq, Option.isNone_iff_eq_none, Bool.not_eq_true',
      List.isEmpty_eq_false_iff] at holds
    simp [holds, eq_comm]
  · rename_i fails
    simp only [Bool.and_eq_true, beq_iff_eq, Option.isNone_iff_eq_none, Bool.not_eq_true',
      List.isEmpty_eq_false_iff, not_and] at fails
    simp only [reduceCtorEq, false_iff, not_and]
    intro holder unnamed message overflow
    exact absurd overflow (fails ⟨⟨holder, unnamed⟩, message⟩)

theorem observation_of_mem_nullConstraints
    (reported : finding ∈ Id.run (nullConstraints shape model)) :
    finding.observation = .nullConstraint := by
  simp only [nullConstraints, bind, pure, Id.run] at reported
  split at reported
  · split at reported
    · simp at reported
    · split at reported
      · simp at reported
      · split at reported
        · rcases List.mem_filterMap.mp reported with ⟨part, -, found⟩
          split at found
          · rcases Option.map_eq_some_iff.mp found with ⟨span, -, rfl⟩
            rfl
          · cases found
        · simp at reported
  · simp at reported

theorem observation_of_mem_sameAsParts {actualIsValue : Bool} {parts : List ConstraintPart}
    (reported : finding ∈ Id.run (sameAsParts model actualIsValue parts)) :
    ∃ rename, finding.observation = .sameAsOnValueType rename "EqualTo" := by
  induction parts with
  | nil => simp [sameAsParts, Id.run, pure] at reported
  | cons part rest ih =>
    have ofPart : finding ∈ (ofSameAsPart? part).toList →
        ∃ rename, finding.observation = .sameAsOnValueType rename "EqualTo" := by
      intro member
      simp only [Option.mem_toList, ofSameAsPart?, bind, pure, Option.bind_eq_some_iff,
        Option.some.injEq] at member
      rcases member with ⟨root, -, name, -, rename, -, span, -, rfl⟩
      exact ⟨rename, rfl⟩
    simp only [sameAsParts, bind, pure, Id.run] at reported
    split at reported
    · split at reported
      · rcases List.mem_append.mp reported with here | later
        · exact ofPart here
        · exact ih later
      · exact ih reported
    · exact ih reported

theorem observation_of_sameAsCall? {replacement : String}
    (reported : Id.run (sameAsCall? shape model replacement) = some finding) :
    ∃ rename, finding.observation = .sameAsOnValueType rename replacement := by
  simp only [sameAsCall?, bind, pure, Id.run] at reported
  split at reported
  · have named : finding ∈ Option.map (fun rename => (⟨shape.span,
        .sameAsOnValueType rename replacement⟩ : Finding)) (shape.memberName?.bind (·.span)) := by
      split at reported <;> split at reported
      · exact reported
      · cases reported
      · exact reported
      · cases reported
    rcases Option.map_eq_some_iff.mp named with ⟨rename, -, rfl⟩
    exact ⟨rename, rfl⟩
  · cases reported

theorem observation_of_mem_sameAs (reported : finding ∈ Id.run (sameAs shape model)) :
    ∃ rename replacement, finding.observation = .sameAsOnValueType rename replacement := by
  simp only [sameAs, bind, pure, Id.run] at reported
  split at reported
  · split at reported
    · simp at reported
    · rcases observation_of_mem_sameAsParts reported with ⟨rename, observed⟩
      exact ⟨rename, "EqualTo", observed⟩
  · rcases observation_of_sameAsCall? (Option.mem_toList.mp reported) with ⟨rename, observed⟩
    exact ⟨rename, "AreEqual", observed⟩
  · rcases observation_of_sameAsCall? (Option.mem_toList.mp reported) with ⟨rename, observed⟩
    exact ⟨rename, "AreNotEqual", observed⟩
  · simp at reported

end Finding

namespace Configuration

variable {configuration : Configuration} {tree : SyntaxTree} {token : CancellationToken}
  {diagnostics : List Diagnostic} {diagnostic : Diagnostic}

/-- The diagnostic stands for a finding about a call of the document, which is turned on. -/
structure IsReported (configuration : Configuration) (tree : SyntaxTree)
    (model : SemanticModel Id) (diagnostic : Diagnostic) (shape : CallShape) : Prop where
  call : ∃ call root, (call, root) ∈ tree.invocations ∧
    Id.run (CallShape.classify? call root model) = some shape
  finding : ⟨diagnostic.span, diagnostic.observation⟩ ∈ Id.run (Finding.ofCall shape model)
  message : diagnostic.message = diagnostic.observation.message
  severity : configuration.effectiveSeverity? diagnostic.observation.descriptor =
    some diagnostic.severity

theorem report?_eq_some_iff : configuration.report? finding = some diagnostic ↔
    finding = ⟨diagnostic.span, diagnostic.observation⟩ ∧
      diagnostic.message = diagnostic.observation.message ∧
      configuration.effectiveSeverity? diagnostic.observation.descriptor =
        some diagnostic.severity := by
  simp only [report?, Option.map_eq_some_iff]
  constructor
  · rintro ⟨severity, effective, rfl⟩
    exact ⟨rfl, rfl, effective⟩
  · rintro ⟨rfl, message, effective⟩
    refine ⟨diagnostic.severity, effective, ?_⟩
    rw [← message]

theorem mem_diagnoseCall {call : Expr × RootExpression} :
    diagnostic ∈ Id.run (configuration.diagnoseCall model call) ↔
      ∃ shape, Id.run (CallShape.classify? call.1 call.2 model) = some shape ∧
        ∃ finding ∈ Id.run (Finding.ofCall shape model),
          configuration.report? finding = some diagnostic := by
  simp only [diagnoseCall, bind, pure, Id.run]
  cases classified : CallShape.classify? call.1 call.2 model with
  | none => simp
  | some shape => simp [List.mem_filterMap]

theorem mem_diagnoseCalls {calls : List (Expr × RootExpression)}
    (diagnosed : Id.run (configuration.diagnoseCalls model token calls) = .ok diagnostics) :
    diagnostic ∈ diagnostics ↔
      ∃ call ∈ calls, diagnostic ∈ Id.run (configuration.diagnoseCall model call) := by
  induction calls generalizing diagnostics with
  | nil =>
    cases diagnosed
    simp
  | cons call rest ih =>
    unfold diagnoseCalls at diagnosed
    split at diagnosed
    · cases diagnosed
    · simp only [bind, pure, Id.run] at diagnosed
      cases others : configuration.diagnoseCalls model token rest with
      | error error =>
        rw [others] at diagnosed
        cases diagnosed
      | ok found =>
        rw [others] at diagnosed
        cases diagnosed
        rw [List.mem_append, ih others]
        simp only [List.mem_cons, or_and_right, exists_or, exists_eq_left]
        rfl

theorem exists_diagnoseCalls (configuration : Configuration) (model : SemanticModel Id)
    (calls : List (Expr × RootExpression)) (uncancelled : token.isCancelled = false) :
    ∃ diagnostics, Id.run (configuration.diagnoseCalls model token calls) = .ok diagnostics := by
  induction calls with
  | nil => exact ⟨[], rfl⟩
  | cons call rest ih =>
    rcases ih with ⟨others, diagnosed⟩
    refine ⟨Id.run (configuration.diagnoseCall model call) ++ others, ?_⟩
    simp only [Id.run] at diagnosed
    simp only [diagnoseCalls, CancellationToken.check, uncancelled]
    simp only [bind, pure, Id.run, Bool.false_eq_true, if_false, diagnosed, Except.map]

/-- Analysis gives diagnostics unless the host asks to stop. -/
theorem exists_analyze (configuration : Configuration) (tree : SyntaxTree)
    (model : SemanticModel Id) (token : CancellationToken)
    (uncancelled : token.isCancelled = false) :
    ∃ diagnostics, Id.run (configuration.analyze tree model token) = .ok diagnostics := by
  rcases exists_diagnoseCalls configuration model tree.invocations uncancelled with
    ⟨found, diagnosed⟩
  simp only [Id.run] at diagnosed
  refine ⟨found.mergeSort Diagnostic.notAfter, ?_⟩
  simp only [analyze, bind, pure, Id.run, diagnosed, Except.map]

/-- Analysis reports all findings that are turned on, and nothing else. -/
theorem mem_analyze
    (analyzed : Id.run (configuration.analyze tree model token) = .ok diagnostics) :
    diagnostic ∈ diagnostics ↔ ∃ shape, configuration.IsReported tree model diagnostic shape := by
  simp only [analyze, bind, pure, Id.run] at analyzed
  cases diagnosed : configuration.diagnoseCalls model token tree.invocations with
  | error error =>
    rw [diagnosed] at analyzed
    cases analyzed
  | ok found =>
    rw [diagnosed] at analyzed
    cases analyzed
    rw [List.mem_mergeSort, mem_diagnoseCalls diagnosed]
    constructor
    · rintro ⟨⟨call, root⟩, isCall, reported⟩
      rcases mem_diagnoseCall.mp reported with ⟨shape, classified, finding, isFinding, reported⟩
      rcases report?_eq_some_iff.mp reported with ⟨rfl, message, severity⟩
      exact ⟨shape, ⟨call, root, isCall, classified⟩, isFinding, message, severity⟩
    · rintro ⟨shape, ⟨call, root, isCall, classified⟩, isFinding, message, severity⟩
      refine ⟨(call, root), isCall, mem_diagnoseCall.mpr ⟨shape, classified, _, isFinding, ?_⟩⟩
      exact report?_eq_some_iff.mpr ⟨rfl, message, severity⟩

end Configuration

end AssertionLint
