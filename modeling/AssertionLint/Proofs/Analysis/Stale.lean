import AssertionLint.Proofs.Analysis.FixedCalls
import AssertionLint.Proofs.Analysis.Reported
import AssertionLint.Proofs.Syntax.Search

/-!
# Diagnostics that are out of date

A diagnostic about a classic call records the rule of the call and whether a tolerance was given.
The fix takes both from the record and reads only the arguments again, so it is offered wherever the
arguments of the call that now stands there suffice for the recorded rule
(`Configuration.actionsFor_classic_matches_iff`). A call that has since become another one is
therefore turned into what it is not (`Configuration.exists_action_of_other_rule`).
-/

namespace AssertionLint

/-- The call that is found again at a span. -/
def SyntaxTree.HasCall (tree : SyntaxTree) (model : SemanticModel Id) (span : Span)
    (shape : CallShape) : Prop :=
  ∃ call root, tree.findInvocation? span = some (call, root) ∧
    Id.run (CallShape.classify? call root model) = some shape

/-- The call is one of the recorded rule, and it passes a tolerance exactly if one is recorded. -/
structure CallShape.Matches (shape : CallShape) (rule : ClassicRule) (hasTolerance : Bool) :
    Prop where
  method : shape.method.name = rule.methodName
  tolerance : hasTolerance = (shape.binding? "delta").isSome

/-- The record of a classic call. -/
def Diagnostic.ofClassic (span : Span) (rule : ClassicRule) (hasTolerance : Bool)
    (message : String) (severity : Severity) : Diagnostic :=
  ⟨span, .classic rule hasTolerance, message, severity⟩

variable {model : SemanticModel Id} {shape : CallShape} {rule : ClassicRule} {hasTolerance : Bool}

theorem SyntaxTree.HasCall.unique {tree : SyntaxTree} {span : Span} {other : CallShape}
    (first : tree.HasCall model span shape) (second : tree.HasCall model span other) :
    shape = other := by
  rcases first with ⟨call, root, found, classified⟩
  rcases second with ⟨otherCall, otherRoot, otherFound, otherClassified⟩
  cases found.symm.trans otherFound
  exact Option.some.inj (classified.symm.trans otherClassified)

theorem ClassicRule.isCondensable_iff :
    rule.isCondensable = true ↔ rule = .isTrue ∨ rule = .trueCondition := by
  cases rule <;> simp [isCondensable]

/-- Where a call has a condensed form it has a full one. -/
theorem ClassicRule.IsWritable.of_isCondensable (condensable : rule.isCondensable = true)
    (bound : (shape.binding? "condition").isSome = true) : rule.IsWritable shape hasTolerance := by
  have actual : (shape.firstBinding? ["condition"]).isSome = true := by
    simpa [CallShape.firstBinding?] using bound
  rcases isCondensable_iff.mp condensable with rfl | rfl
  · exact ⟨actual, rfl, nofun⟩
  · exact ⟨actual, rfl, nofun⟩

theorem CodeAction.ofCall_classic_ne_nil_iff {source : String} {settings : FixSettings} :
    Id.run (ofCall shape (.classic rule hasTolerance) model source settings) ≠ [] ↔
      rule.IsWritable shape hasTolerance := by
  have full := FixedCall.isSome_classic?_iff shape rule hasTolerance model
  have condensed := FixedCall.isSome_condensed? shape model
  have offered {title key : String} {fixed : Option Expr} :
      (ofFixedCall? source shape.span title key fixed).toList = [] ↔ fixed = none := by
    cases fixed <;> simp [ofFixedCall?]
  simp only [Id.run] at full condensed
  rw [← full, Option.isSome_iff_ne_none, not_iff_not]
  simp only [ofCall, bind, pure, Id.run]
  split
  · rename_i offersCondensed
    -- the condensed action is never offered alone
    rw [List.append_eq_nil_iff, offered, offered, and_iff_left_iff_imp]
    intro noFull
    rw [← Option.not_isSome_iff_eq_none, condensed]
    intro bound
    have writable : rule.IsWritable shape hasTolerance :=
      .of_isCondensable (Bool.and_eq_true_iff.mp offersCondensed).1 bound
    rw [noFull] at full
    cases full.mpr writable
  · exact offered

namespace Configuration

theorem actionsFor_ofClassic_eq {tree : SyntaxTree} {span : Span}
    (isCall : tree.HasCall model span shape) (configuration : Configuration) (rule : ClassicRule)
    (hasTolerance : Bool) (message : String) (severity : Severity) :
    Id.run (configuration.actionsFor tree model
        (.ofClassic span rule hasTolerance message severity)) =
      Id.run (CodeAction.ofCall shape (.classic rule hasTolerance) model tree.source
        configuration.fixes) := by
  rcases isCall with ⟨call, root, found, classified⟩
  simp only [Id.run] at classified
  simp only [actionsFor, Diagnostic.ofClassic, found, bind, classified]

theorem exists_hasCall_of_actionsFor_ne_nil {configuration : Configuration} {tree : SyntaxTree}
    {span : Span} {message : String} {severity : Severity}
    (offered : Id.run (configuration.actionsFor tree model
      (.ofClassic span rule hasTolerance message severity)) ≠ []) :
    ∃ shape, tree.HasCall model span shape := by
  simp only [actionsFor, Diagnostic.ofClassic, bind, Id.run] at offered
  split at offered
  · exact (offered rfl).elim
  · rename_i call root found
    split at offered
    · exact (offered rfl).elim
    · rename_i shape classified
      exact ⟨shape, call, root, found, classified⟩

/-- A fix for a recorded rule is offered if and only if the arguments of the call that now stands at
the span suffice for it. -/
theorem actionsFor_ofClassic_ne_nil_iff (configuration : Configuration) (tree : SyntaxTree)
    (model : SemanticModel Id) (span : Span) (rule : ClassicRule) (hasTolerance : Bool)
    (message : String) (severity : Severity) :
    Id.run (configuration.actionsFor tree model
        (.ofClassic span rule hasTolerance message severity)) ≠ [] ↔
      ∃ shape, tree.HasCall model span shape ∧ rule.IsWritable shape hasTolerance := by
  constructor
  · intro offered
    rcases exists_hasCall_of_actionsFor_ne_nil offered with ⟨shape, isCall⟩
    rw [actionsFor_ofClassic_eq isCall] at offered
    exact ⟨shape, isCall, CodeAction.ofCall_classic_ne_nil_iff.mp offered⟩
  · rintro ⟨shape, isCall, writable⟩
    rw [actionsFor_ofClassic_eq isCall]
    exact CodeAction.ofCall_classic_ne_nil_iff.mpr writable

/-- The actions that are offered for a recorded rule are for a call of this rule with this tolerance
if and only if the arguments of no other call at the span suffice for the rule. -/
theorem actionsFor_classic_matches_iff (configuration : Configuration) (tree : SyntaxTree)
    (model : SemanticModel Id) (span : Span) (rule : ClassicRule) (hasTolerance : Bool)
    (message : String) (severity : Severity) :
    (Id.run (configuration.actionsFor tree model
        (.ofClassic span rule hasTolerance message severity)) ≠ [] ↔
      ∃ shape, tree.HasCall model span shape ∧ rule.IsWritable shape hasTolerance) ∧
    ((∀ shape, tree.HasCall model span shape →
        Id.run (configuration.actionsFor tree model
          (.ofClassic span rule hasTolerance message severity)) ≠ [] →
        shape.Matches rule hasTolerance) ↔
      ∀ shape, tree.HasCall model span shape → rule.IsWritable shape hasTolerance →
        shape.Matches rule hasTolerance) := by
  have offered := configuration.actionsFor_ofClassic_ne_nil_iff tree model span rule hasTolerance
    message severity
  refine ⟨offered, ?_⟩
  rw [offered]
  constructor
  · exact fun isMatch shape isCall writable => isMatch shape isCall ⟨shape, isCall, writable⟩
  · rintro isMatch shape isCall ⟨other, otherIsCall, writable⟩
    exact isMatch shape isCall (isCall.unique otherIsCall ▸ writable)

end Configuration

namespace SyntaxTree

/-- A document with one call, `Assert.` with the given method and argument, whose ends are given. -/
def singleCall (method argument : String) (methodEnd argumentEnd : Nat) : SyntaxTree where
  source := "Assert." ++ method ++ "(" ++ argument ++ ")"
  roots := [⟨call, true, false⟩]
where
  call : Expr :=
    .invocation
      (.memberAccess (.name (.ofIdentifier "Assert") (some ⟨0, 6⟩))
        ⟨method, none, some ⟨7, methodEnd⟩⟩ (some ⟨0, methodEnd⟩))
      ⟨[.ofExpr (.name (.ofIdentifier argument) (some ⟨methodEnd + 1, argumentEnd⟩))],
        some ⟨methodEnd, argumentEnd + 1⟩⟩
      (some ⟨0, argumentEnd + 1⟩)

end SyntaxTree

namespace Configuration

theorem exists_isReported_singleCall : ∃ message shape,
    Configuration.IsReported {} (.singleCall "IsTrue" "ready" 13 19) .ofMemberNames
      (.ofClassic ⟨0, 20⟩ .isTrue false message .info) shape := by
  have isCall : (SyntaxTree.singleCall.call "IsTrue" "ready" 13 19,
      ⟨SyntaxTree.singleCall.call "IsTrue" "ready" 13 19, true, false⟩) ∈
        (SyntaxTree.singleCall "IsTrue" "ready" 13 19).invocations :=
    SyntaxTree.mem_invocations.mpr
      ⟨List.mem_singleton_self _, by rw [Expr.walk_eq]; exact List.mem_cons_self, rfl⟩
  exact ⟨_, _, ⟨_, _, isCall, rfl⟩, Finding.mem_ofCall.mpr (.inl rfl), rfl, by decide⟩

theorem exists_hasCall_singleCall : ∃ shape,
    (SyntaxTree.singleCall "IsFalse" "done" 14 19).HasCall .ofMemberNames ⟨0, 20⟩ shape ∧
      shape.method.name = "IsFalse" ∧
      Id.run (CodeAction.ofCall shape (.classic .isTrue false) .ofMemberNames
        (SyntaxTree.singleCall "IsFalse" "done" 14 19).source {}) =
        [⟨"Transform to constraint model", "TransformToConstraintModel",
            ⟨⟨7, 18⟩, "That(done, Is.Tru"⟩⟩,
          ⟨"Transform to constraint model (condensed)", "TransformToConstraintModelCondensed",
            ⟨⟨7, 14⟩, "That"⟩⟩] := by
  have found : (SyntaxTree.singleCall "IsFalse" "done" 14 19).findInvocation? ⟨0, 20⟩ =
      some (SyntaxTree.singleCall.call "IsFalse" "done" 14 19,
        ⟨SyntaxTree.singleCall.call "IsFalse" "done" 14 19, true, false⟩) := by
    have here : (SyntaxTree.singleCall.call "IsFalse" "done" 14 19).findBySpan? ⟨0, 20⟩ =
        some (SyntaxTree.singleCall.call "IsFalse" "done" 14 19) := by
      rw [Expr.findBySpan?_eq]
      rfl
    simp only [SyntaxTree.findInvocation?, SyntaxTree.singleCall, List.findSome?_cons, here]
    rfl
  exact ⟨_, ⟨_, _, found, rfl⟩, rfl, by decide⟩

/-- A diagnostic about `Assert.IsTrue(ready)` turns `Assert.IsFalse(done)`, which has been written
in its place, into `Assert.That(done, Is.True)`. -/
theorem exists_action_of_other_rule : ∃ diagnostics diagnostic shape actions action,
    Id.run (Configuration.analyze {} (.singleCall "IsTrue" "ready" 13 19) .ofMemberNames {}) =
      .ok diagnostics ∧
    diagnostic ∈ diagnostics ∧ diagnostic.observation = .classic .isTrue false ∧
    (SyntaxTree.singleCall "IsFalse" "done" 14 19).HasCall .ofMemberNames diagnostic.span shape ∧
    shape.method.name = "IsFalse" ∧ ¬ shape.Matches .isTrue false ∧
    Id.run (Configuration.codeActions {} (.singleCall "IsFalse" "done" 14 19) .ofMemberNames
      diagnostic {}) = .ok actions ∧
    action ∈ actions ∧ action.equivalenceKey = "TransformToConstraintModel" ∧
    TextEdit.applyAll (SyntaxTree.singleCall "IsFalse" "done" 14 19).source [action.edit] =
      .ok "Assert.That(done, Is.True)" := by
  rcases exists_analyze {} (.singleCall "IsTrue" "ready" 13 19) .ofMemberNames {} rfl with
    ⟨diagnostics, analyzed⟩
  rcases exists_isReported_singleCall with ⟨message, older, reported⟩
  rcases exists_hasCall_singleCall with ⟨shape, isCall, named, actions⟩
  have member := (mem_analyze analyzed).mpr ⟨older, reported⟩
  have other : ¬ shape.Matches .isTrue false := by
    intro isMatch
    have sameName := named.symm.trans isMatch.method
    revert sameName
    decide
  have offered : Id.run (Configuration.codeActions {} (.singleCall "IsFalse" "done" 14 19)
      .ofMemberNames (.ofClassic ⟨0, 20⟩ .isTrue false message .info) {}) = .ok _ :=
    congrArg Except.ok
      ((actionsFor_ofClassic_eq isCall {} .isTrue false message .info).trans actions)
  exact ⟨diagnostics, _, shape, _, _, analyzed, member, rfl, isCall, named, other, offered,
    List.mem_cons_self, rfl, by decide +kernel⟩

end Configuration

end AssertionLint
