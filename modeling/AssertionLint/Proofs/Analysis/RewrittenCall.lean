import AssertionLint.Proofs.Analysis.Trivia
import AssertionLint.Proofs.Binding.AssertionCall
import AssertionLint.Proofs.Binding.Locals
import AssertionLint.Proofs.FixAll.Document
import AssertionLint.Proofs.Text.Minimal

/-!
# Calls that fixes leave behind

A fix that rewrites a call writes a call of `Assert.That` whose constraint, if there is one, has a
form that the framework knows (`FixedCall.IsThat`). When the fixed text is read again, this call
binds exactly if its arguments allow it (`Configuration.bindsThat_iff_of_offered`), which the fix
does not make sure of (`Configuration.exists_fix_without_binding`).
-/

namespace AssertionLint

namespace ConstraintName

theorem chain_of_ofChain? {chain : List String} {name : ConstraintName}
    (isName : ofChain? chain = some name) : name.chain = chain := by
  unfold ofChain? at isName
  split at isName
  · cases isName
    rfl
  · cases isName
    rfl
  · cases isName

end ConstraintName

namespace ConstraintForm

theorem readProperty?_dotted (name : ConstraintName) :
    readProperty? name (Expr.dotted name.chain) = some (.identifier name.helper) := by
  rcases name with ⟨helper, isNegated, member⟩
  cases isNegated <;> simp [readProperty?, ConstraintName.chain, ConditionConstraint.chainOf,
    ConstraintName.head?, Expr.dotted, Expr.member, Expr.before?, SimpleName.ofIdentifier]

theorem readCall?_constraintCall (name : ConstraintName) (expected : Expr) :
    readCall? name (FixedCall.constraintCall name.chain [expected]) =
      some (.identifier name.helper, .ofExpr expected) := by
  simp [readCall?, FixedCall.constraintCall, Expr.call, ArgumentList.ofArguments,
    readProperty?_dotted, Argument.ofExpr]

end ConstraintForm

/-- The expression has a form of constraints that the framework knows, and starts with the name of
the helper class. -/
def Expr.IsConstraint (expr : Expr) : Prop :=
  ∃ form : ConstraintForm, form.IsKnown ∧ ∃ arguments,
    form.read? expr = some (.identifier form.name.helper, arguments)

/-- The framework has what the replacement writes. -/
def Replacement.IsKnown : Replacement → Prop
  | property _ chain =>
    ∃ name ∈ ConstraintName.ofChain? chain, (ConstraintForm.property name).IsKnown
  | call _ _ chain => ∃ name ∈ ConstraintName.ofChain? chain, (ConstraintForm.call name).IsKnown
  | typeCheck chain => ∃ name ∈ ConstraintName.ofChain? chain,
    (ConstraintForm.call name).IsKnown ∧ (ConstraintForm.typeCheck name 1).IsKnown

instance : DecidablePred Replacement.IsKnown
  | .property _ chain => inferInstanceAs (Decidable (∃ name ∈ ConstraintName.ofChain? chain, _))
  | .call _ _ chain => inferInstanceAs (Decidable (∃ name ∈ ConstraintName.ofChain? chain, _))
  | .typeCheck chain => inferInstanceAs (Decidable (∃ name ∈ ConstraintName.ofChain? chain, _))

theorem ClassicRule.mem_all (rule : ClassicRule) : rule ∈ all := by
  cases rule <;> decide

/-- The constraints of conditions. -/
def ConditionConstraint.all : List ConditionConstraint :=
  [.greaterThan, .greaterThanOrEqualTo, .lessThan, .lessThanOrEqualTo].map .ordered ++
    [false, true].flatMap fun isNegated =>
      [.equalTo isNegated, .contain isNegated, .startWith isNegated, .endWith isNegated]

theorem ConditionConstraint.mem_all (constraint : ConditionConstraint) : constraint ∈ all := by
  cases constraint with
  | ordered relation => cases relation <;> decide
  | equalTo isNegated | contain isNegated | startWith isNegated | endWith isNegated =>
    cases isNegated <;> decide

/-- The framework has every constraint that a fix writes. -/
theorem Reference.isKnown_constraints :
    (∀ rule ∈ ClassicRule.all, rule.replacement.IsKnown) ∧
    (∃ name ∈ ConstraintName.ofChain? ["Is", "EqualTo"], (ConstraintForm.within name).IsKnown) ∧
    ∀ constraint ∈ ConditionConstraint.all,
      ∃ name ∈ ConstraintName.ofChain? constraint.chain, (ConstraintForm.call name).IsKnown := by
  decide +kernel

theorem Expr.isConstraint_constraintCall {chain : List String}
    (isKnown : ∃ name ∈ ConstraintName.ofChain? chain, (ConstraintForm.call name).IsKnown)
    (expected : Expr) : (FixedCall.constraintCall chain [expected]).IsConstraint := by
  rcases isKnown with ⟨name, isName, isKnown⟩
  cases ConstraintName.chain_of_ofChain? isName
  refine ⟨.call name, isKnown, [.ofExpr expected], ?_⟩
  simp [ConstraintForm.read?, ConstraintForm.readCall?_constraintCall, ConstraintForm.name]

theorem Expr.isConstraint_within (expected tolerance : Expr) :
    (Expr.call ((FixedCall.constraintCall ["Is", "EqualTo"] [expected]).member "Within")
      [.ofExpr tolerance]).IsConstraint := by
  rcases Reference.isKnown_constraints.2.1 with ⟨name, isName, isKnown⟩
  rw [← ConstraintName.chain_of_ofChain? isName]
  refine ⟨.within name, isKnown, [.ofExpr expected, .ofExpr tolerance], ?_⟩
  simp [ConstraintForm.read?, ConstraintForm.readWithin?, Expr.call, ArgumentList.ofArguments,
    Expr.member, Expr.before?, SimpleName.ofIdentifier, Argument.ofExpr, ConstraintForm.name,
    ConstraintForm.readCall?_constraintCall]

namespace FixedCall

variable {σ : Type} {shape : CallShape} {model : SemanticModel (StateM σ)}

theorem ensures_typeCheck? {chain : List String} (isKnown : (Replacement.typeCheck chain).IsKnown) :
    Ensures (fun _ => True) (fun found => ∀ expr ∈ found, expr.IsConstraint)
      (typeCheck? shape chain model) := by
  rcases isKnown with ⟨name, isName, isCall, isCheck⟩
  unfold typeCheck?
  split
  · rename_i typeArguments _
    refine .pure ?_
    cases ConstraintName.chain_of_ofChain? isName
    rintro expr isExpr
    refine ⟨.typeCheck name typeArguments.length, isCheck, [], ?_⟩
    rcases name with ⟨helper, isNegated, member⟩
    cases isNegated
    · cases isExpr
      simp [ConstraintForm.read?, ConstraintForm.readTypeCheck?, Expr.call,
        ArgumentList.ofArguments, Expr.genericMember, Expr.dotted, ConstraintName.head?,
        ConstraintName.chain, ConditionConstraint.chainOf, ConstraintForm.name]
    · cases isExpr
      simp [ConstraintForm.read?, ConstraintForm.readTypeCheck?, Expr.call,
        ArgumentList.ofArguments, Expr.genericMember, Expr.dotted, ConstraintName.head?,
        ConstraintName.chain, ConditionConstraint.chainOf, ConstraintForm.name, Expr.before?,
        Expr.member, SimpleName.ofIdentifier]
  · refine .bind (.always _) fun expected _ => .pure ?_
    intro expr isExpr
    rcases Option.map_eq_some_iff.mp isExpr with ⟨argument, -, rfl⟩
    exact Expr.isConstraint_constraintCall ⟨name, isName, isCall⟩ argument

/-- The constraint for a classic call is one that the framework knows. -/
theorem ensures_classicConstraint? (rule : ClassicRule) {hasTolerance : Bool}
    (isRecorded : hasTolerance = true → rule = .areEqual) :
    Ensures (fun _ => True) (fun found => ∀ expr ∈ found, expr.IsConstraint)
      (classicConstraint? shape rule.replacement hasTolerance model) := by
  have isKnown := Reference.isKnown_constraints.1 rule rule.mem_all
  unfold classicConstraint?
  split
  · rename_i actual chain isReplacement
    rw [isReplacement] at isKnown
    rcases isKnown with ⟨name, isName, isKnown⟩
    cases ConstraintName.chain_of_ofChain? isName
    refine .pure ?_
    rintro _ ⟨⟩
    refine ⟨.property name, isKnown, [], ?_⟩
    simp [ConstraintForm.read?, ConstraintForm.readProperty?_dotted, ConstraintForm.name]
  · rename_i actual expectedName chain isReplacement
    rw [isReplacement] at isKnown
    refine .bind (.always _) fun expected _ => ?_
    split
    · exact .pure nofun
    · dsimp only
      split
      · rename_i tolerated
        cases isRecorded tolerated
        cases isReplacement
        refine .bind (.always _) fun delta _ => .pure ?_
        intro expr isExpr
        rcases Option.map_eq_some_iff.mp isExpr with ⟨tolerance, -, rfl⟩
        exact Expr.isConstraint_within _ _
      · refine .pure ?_
        rintro _ ⟨⟩
        exact Expr.isConstraint_constraintCall isKnown _
  · rename_i chain isReplacement
    rw [isReplacement] at isKnown
    exact ensures_typeCheck? isKnown

end FixedCall

/-- The names in front of the call and its constraint are those of the framework. -/
structure ThatCall.IsNamed (call : ThatCall) : Prop where
  head : call.head.trailingName?.any (·.identifier == "Assert") = true
  constraint : ∀ written ∈ call.constraint, written.head = .identifier written.form.name.helper

namespace FixedCall

/-- The call is one of `Assert.That` without labels, and its constraint, if there is one, is of a
form that the framework knows. -/
def IsThat (fixed : Expr) : Prop :=
  ∃ form call, (∀ written ∈ form.constraint, written.IsKnown) ∧
    ThatForm.read? form fixed = some call ∧ call.IsNamed

theorem exists_thatTarget (target : Expr) : ∃ head : Expr, thatTarget target = head.member "That" ∧
    head.trailingName?.any (·.identifier == "Assert") = true := by
  have plain : Expr.dotted ["Assert", "That"] = (Expr.identifier "Assert").member "That" := rfl
  unfold thatTarget
  split
  · split
    · rename_i receiver _ _ isAssert
      exact ⟨receiver, rfl, isAssert⟩
    · exact ⟨_, plain, rfl⟩
  · exact ⟨_, plain, rfl⟩

variable {σ : Type} {shape : CallShape} {model : SemanticModel (StateM σ)}

theorem exists_of_map_expression {arguments : List Argument} {actual : Expr}
    {constraint last : Option Expr}
    (same : arguments.map (·.expression) = actual :: (constraint.toList ++ last.toList)) :
    ∃ value written message,
      arguments = value :: (Option.toList written ++ Option.toList message) ∧
        written.map (·.expression) = constraint := by
  rcases List.map_eq_cons_iff.mp same with ⟨value, rest, rfl, -, same⟩
  rcases List.map_eq_append_iff.mp same with ⟨front, back, rfl, isFront, isBack⟩
  have ofOption {list : List Argument} {expr : Option Expr}
      (same : list.map (·.expression) = expr.toList) :
      ∃ argument : Option Argument, list = argument.toList ∧
        argument.map (·.expression) = expr := by
    cases expr with
    | none => exact ⟨none, List.map_eq_nil_iff.mp same, rfl⟩
    | some expr =>
      rcases List.map_eq_singleton_iff.mp same with ⟨argument, rfl, rfl⟩
      exact ⟨some argument, rfl, rfl⟩
  rcases ofOption isFront with ⟨written, rfl, isWritten⟩
  rcases ofOption isBack with ⟨message, rfl, -⟩
  exact ⟨value, written, message, rfl, isWritten⟩

/-- An assembled call is one of `Assert.That`. -/
theorem ensures_isThat (actual : Expr) (constraint : Option Expr)
    (isConstraint : ∀ expr ∈ constraint, expr.IsConstraint) :
    Ensures (fun _ => True) IsThat (assemble shape actual constraint model) := by
  refine .bind (.always _) fun message _ => .pure ?_
  rcases exists_thatTarget shape.target with ⟨head, isTarget, isNamed⟩
  have isBefore : (thatTarget shape.target).before? "That" = some head := by
    rw [isTarget]
    simp [Expr.member, Expr.before?, SimpleName.ofIdentifier]
  have unlabelled := name_of_mem_assembledArguments shape actual constraint message
  rcases exists_of_map_expression
    (map_expression_assembledArguments shape actual constraint message) with
    ⟨value, written, last, arguments_eq, isWritten⟩
  cases written with
  | none =>
    cases isWritten
    rw [arguments_eq] at unlabelled
    exact ⟨⟨none, last.isSome⟩, ⟨head, value, none, last⟩, by simp,
      ThatForm.read?_of_isOf ⟨rfl, rfl, unlabelled, by simp⟩ isBefore arguments_eq, isNamed,
        by simp⟩
  | some argument =>
    cases isWritten
    rw [arguments_eq] at unlabelled
    rcases isConstraint _ rfl with ⟨form, isKnown, inner, isRead⟩
    refine ⟨⟨some form, last.isSome⟩,
      ⟨head, value, some ⟨argument, form, .identifier form.name.helper, inner⟩, last⟩, ?_,
      ThatForm.read?_of_isOf ⟨rfl, rfl, unlabelled, ?_⟩ isBefore arguments_eq, isNamed, ?_⟩
    · rintro _ ⟨⟩
      exact isKnown
    · rintro _ ⟨⟩
      exact isRead
    · rintro _ ⟨⟩
      rfl

end FixedCall

namespace Configuration

variable {σ : Type}

/-- What a rewritten call is replaced with. -/
theorem ensures_putsThatIn (configuration : Configuration) {tree : SyntaxTree}
    (model : SemanticModel (StateM σ)) {diagnostic : Diagnostic}
    (isRewritten : diagnostic.observation.IsRewritten)
    (isRecorded : ∀ rule, diagnostic.observation = .classic rule true → rule = .areEqual)
    (validSpans : tree.HasValidSpans) :
    Ensures (fun _ => True) (fun actions => ∀ action ∈ actions,
      diagnostic.span.FitsIn tree.source ∧
        action.PutsIn tree.source diagnostic.span FixedCall.IsThat)
      (configuration.actionsFor tree model diagnostic) := by
  refine (ensures_putsIn configuration isRewritten fun shape settings =>
    CodeAction.ensures_putsIn isRewritten FixedCall.ensures_isThat ?_ ?_ _ settings).weaken ?_
  · intro rule hasTolerance isClassic
    exact FixedCall.ensures_classicConstraint? rule fun tolerated =>
      isRecorded rule (tolerated ▸ isClassic)
  · exact fun constraint => Expr.isConstraint_constraintCall
      (Reference.isKnown_constraints.2.2 constraint constraint.mem_all)
  · intro actions putIn action offered
    rcases putIn action offered with ⟨call, root, shape, found, isRead, putsIn⟩
    rcases SyntaxTree.mem_invocations_of_findInvocation? found with ⟨isCall, spanIs⟩
    rcases SyntaxTree.mem_invocations.mp isCall with ⟨isRoot, inside, -⟩
    have sameSpan := Option.some.inj ((CallShape.span_of_bind? isRead).symm.trans spanIs)
    rw [← sameSpan] at spanIs ⊢
    exact ⟨validSpans call (SyntaxTree.mem_expressions.mpr ⟨root, isRoot, inside⟩) _ spanIs, putsIn⟩

end Configuration

namespace ParsedDocument

variable {σ : Type} {source : String}

/-- Every expression of a document has a span. -/
theorem exists_span_of_mem_expressions {node : Node} {expr : Expr}
    (member : expr ∈ (ofNode source node).expressions) : ∃ span, expr.span = some span := by
  suffices found : ∃ part : Node, expr = part.toExpr source by
    rcases found with ⟨part, rfl⟩
    exact ⟨_, part.span_toExpr source⟩
  rcases List.mem_append.mp member with inTree | inLocal
  · rcases exists_holds_of_mem_expressions inTree with ⟨part, -, same⟩
    exact ⟨part, same⟩
  · rcases List.mem_flatMap.mp inLocal with ⟨value, isValue, inside⟩
    rcases List.mem_filterMap.mp isValue with ⟨found, isLocal, valueIs⟩
    rcases Node.exists_toExpr_of_mem_localsIn isLocal valueIs with ⟨whole, rfl⟩
    rcases Node.exists_holds_of_mem_walk inside with ⟨part, -, same⟩
    exact ⟨part, same⟩

/-- The expression is a call of `Assert.That` as fixes write it, and the names in it stand for the
classes of the framework. -/
structure HasThat (document : ParsedDocument) (expr : Expr) (call : ThatCall) : Prop where
  isCall : ∃ root, (expr, root) ∈ document.tree.invocations
  isRead : ∃ form, (∀ written ∈ form.constraint, written.IsKnown) ∧
    ThatForm.read? form expr = some call
  means : document.MeansFramework call

/-- Each edit that rewrites a reported call puts a call of `Assert.That` in its place. However the
text is parsed then, unless the document hides the framework, such a call binds exactly if its
arguments allow it. -/
theorem bindsThat_iff_of_offered (configuration : Configuration) {token : CancellationToken}
    (uncancelled : token.isCancelled = false) {node : Node} (spansFit : node.SpansFit source)
    (model : SemanticModel (StateM σ)) (state : σ) :
    ∃ diagnostics,
      ((configuration.analyze (ofNode source node).tree model token).run state).1 =
        .ok diagnostics ∧
      ∀ diagnostic ∈ diagnostics, diagnostic.observation.IsRewritten → ∀ later, ∃ actions,
        ((configuration.codeActions (ofNode source node).tree model diagnostic token).run
          later).1 = .ok actions ∧
        ∀ action ∈ actions, ∃ text, TextEdit.applyAll source [action.edit] = .ok text ∧
          (∃ fixed, FixedCall.IsThat fixed ∧
            TextEdit.replaceIn? ⟨diagnostic.span, fixed.render source⟩ source.toList =
              some text.toList) ∧
          ∀ (again : Node) (document : ParsedDocument), document = ofNode text again →
            document.declarations.KeepsReference → document.declarations.KeepsConstraints →
            document.IsWithinDepth → SpansAreDistinct (· ∈ document.expressions) →
            ∀ bindings, bindings.Agree document.table (· ∈ document.expressions) →
              ∀ expr call, document.HasThat expr call →
                (document.BindsThat bindings expr call ↔ document.CanBind call) := by
  rcases exists_recorded configuration uncancelled spansFit model state with
    ⟨diagnostics, analyzed, areRecorded⟩
  refine ⟨diagnostics, analyzed, fun diagnostic isReported isRewritten later => ?_⟩
  have answered := configuration.run_codeActions (ofNode source node).tree model diagnostic later
    uncancelled
  refine ⟨_, congrArg Prod.fst answered, fun action offered => ?_⟩
  rcases (configuration.ensures_putsThatIn model isRewritten
    (areRecorded diagnostic isReported).tolerance (hasValidSpans_ofNode spansFit) later
    trivial).1 action offered with ⟨fits, fixed, isThat, isEdit⟩
  have editFits : action.edit.span.FitsIn source := by
    rw [isEdit]
    exact TextEdit.fitsIn_minimized _ fits
  rcases TextEdit.exists_applyAll_singleton editFits with ⟨text, applied, replaced⟩
  refine ⟨text, applied, ⟨fixed, isThat, ?_⟩, ?_⟩
  · rw [← replaced, isEdit]
    exact (TextEdit.replaceIn?_minimized _ fits).symm
  · rintro again _ rfl keeps keepsConstraints within distinct bindings agree expr call
      ⟨⟨root, isCall⟩, ⟨form, isKnown, isRead⟩, means⟩
    rcases SyntaxTree.mem_invocations.mp isCall with ⟨isRoot, below, -⟩
    have inside := SyntaxTree.mem_expressions.mpr ⟨root, isRoot, below⟩
    have keepsFramework : (ofNode text again).KeepsFramework :=
      ⟨keeps, keepsConstraints, within, fun _ => exists_span_of_mem_expressions⟩
    exact bindsThat_iff_canBind keepsFramework distinct agree (List.mem_append_left _ inside)
      isKnown isRead means

open AssertionLint.Configuration in
/-- A number in front of a message stays one in a call with three arguments. -/
theorem bindsThat_numberWithMessage :
    let source := "using NUnit.Framework;Assert.IsNull(1, \"m\");"
    let fixed := "using NUnit.Framework;Assert.That(1, Is.Null, \"m\");"
    ∃ diagnostic action expr call,
      reported (ofSource source) = .ok [diagnostic] ∧
      offered (ofSource source) diagnostic = .ok [action] ∧
      TextEdit.applyAll source [action.edit] = .ok fixed ∧
      expr.span = some ⟨diagnostic.span.start, fixed.utf8ByteSize - 1⟩ ∧
      (call.constraint.isSome = true ∧ call.message.isSome = true) ∧
      (ofSource fixed).HasThat expr call ∧ (ofSource fixed).BindsThat {} expr call := by
  intro source fixed
  let diagnostic : Diagnostic := ⟨⟨22, 43⟩, .classic .isNull false,
    (Observation.classic .isNull false).message, .info⟩
  let action : CodeAction := ⟨"Transform to constraint model", "TransformToConstraintModel",
    ⟨⟨29, 37⟩, "That(1, Is.Null"⟩⟩
  let form : ThatForm := ⟨some (.property ⟨"Is", false, "Null"⟩), true⟩
  obtain ⟨isReported, isOffered, applied⟩ : reported (ofSource source) = .ok [diagnostic] ∧
      offered (ofSource source) diagnostic = .ok [action] ∧
      TextEdit.applyAll source [action.edit] = .ok fixed := by
    decide +kernel
  obtain ⟨isThat, isKnown, keepsReference, keepsConstraints, areDistinct, within⟩ :
      (∃ entry ∈ (ofSource fixed).tree.invocations,
        entry.1.span = some ⟨diagnostic.span.start, fixed.utf8ByteSize - 1⟩ ∧
        ∃ call ∈ form.read? entry.1, (call.constraint.isSome = true ∧ call.message.isSome = true) ∧
          (ofSource fixed).MeansFramework call ∧ (ofSource fixed).CanBind call) ∧
      (∀ written ∈ form.constraint, written.IsKnown) ∧
      (ofSource fixed).declarations.KeepsReference ∧
      (ofSource fixed).declarations.KeepsConstraints ∧
      ((ofSource fixed).expressions.map Expr.span).Nodup ∧
      ∀ expr ∈ (ofSource fixed).expressions,
        ((ofSource fixed).table.bindPlain TypeTable.maxBindDepth expr).isSome := by
    decide +kernel
  rcases isThat with ⟨⟨expr, root⟩, isCall, spanIs, call, isRead, hasAll, means, canBind⟩
  have hasThat : (ofSource fixed).HasThat expr call :=
    ⟨⟨root, isCall⟩, ⟨form, isKnown, isRead⟩, means⟩
  have uncancelled : ({} : CancellationToken).isCancelled = false := rfl
  rcases bindsThat_iff_of_offered {} uncancelled (Node.spansFit_ofSource source)
    (ofSource source).model {} with ⟨diagnostics, analyzed, isFixed⟩
  cases analyzed.symm.trans isReported
  rcases isFixed diagnostic List.mem_cons_self (.classic ..) {} with ⟨actions, answered, isFixed⟩
  cases answered.symm.trans isOffered
  rcases isFixed action List.mem_cons_self with ⟨text, isText, -, isBound⟩
  cases isText.symm.trans applied
  have bindsThat_iff := isBound _ _ rfl keepsReference keepsConstraints within
    (spansAreDistinct_of_nodup areDistinct) {} (Bindings.agree_empty _ _) expr call hasThat
  exact ⟨diagnostic, action, expr, call, isReported, isOffered, applied, spanIs, hasAll, hasThat,
    bindsThat_iff.mpr canBind⟩

end ParsedDocument

namespace Configuration

/-- The calls of a document that start at an offset, each with whether it resolves. -/
def resolutionsAt (document : ParsedDocument) (offset : Nat) : List Bool :=
  (document.tree.invocations.filter fun call => call.1.span.any (·.start == offset)).map
    fun call => ((document.model.resolveMethod call.1).run {}).1.isSome

/-- `Assert.IsNull(null)` is turned into `Assert.That(null, Is.Null)`, which does not resolve. -/
theorem exists_fix_without_binding :
    ∃ source fixed diagnostic action,
      (Node.ofSource source).hasError = false ∧
      reported (.ofSource source) = .ok [diagnostic] ∧
      offered (.ofSource source) diagnostic = .ok [action] ∧
      action.equivalenceKey = "TransformToConstraintModel" ∧
      TextEdit.applyAll source [action.edit] = .ok fixed ∧
      (Node.ofSource fixed).hasError = false ∧
      resolutionsAt (.ofSource fixed) diagnostic.span.start = [false] := by
  refine ⟨"using NUnit.Framework;Assert.IsNull(null);",
    "using NUnit.Framework;Assert.That(null, Is.Null);",
    ⟨⟨22, 41⟩, .classic .isNull false, (Observation.classic .isNull false).message, .info⟩,
    ⟨"Transform to constraint model", "TransformToConstraintModel",
      ⟨⟨29, 37⟩, "That(null, Is.N"⟩⟩, ?_⟩
  decide +kernel

end Configuration

end AssertionLint
