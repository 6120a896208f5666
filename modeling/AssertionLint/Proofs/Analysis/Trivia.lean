import AssertionLint.Proofs.Analysis.ClassicArguments

/-!
# Comments around arguments

A call that is rewritten in the constraint model keeps what stands behind its opening and in front
of its closing parenthesis, and what stands in front of its message
(`Configuration.actionsFor_keepsTrivia`). All other comments around its arguments are dropped, also
those of arguments that are kept (`Configuration.exists_fix_without_comments`).
-/

namespace AssertionLint

namespace Expr

variable {source : String} {argument : Argument} {arguments : List Argument} {part : List Char}

theorem infix_render_argument (isPart : part = argument.leading.toList ∨
    part = argument.trailing.toList) : part <:+: (argument.render source).toList := by
  rcases argument with ⟨name, modifier, expression, leading, trailing, span⟩
  simp only [Argument.render, String.toList_append]
  rcases isPart with rfl | rfl
  · exact ⟨[], _, by rw [List.nil_append, List.append_assoc]⟩
  · exact (List.suffix_append ..).isInfix

theorem infix_renderFollowing (member : argument ∈ arguments)
    (inside : part <:+: (argument.render source).toList) :
    part <:+: (Argument.renderFollowing source arguments).toList := by
  induction arguments with
  | nil => cases member
  | cons first rest ih =>
    rw [Argument.renderFollowing, String.toList_append, String.toList_append]
    rcases List.mem_cons.mp member with rfl | member
    · exact inside.trans (List.infix_append ..)
    · exact (ih member).trans (List.suffix_append ..).isInfix

/-- What stands around an argument of a new call is part of the text of the call. -/
theorem infix_render_invocation (target : Expr) (member : argument ∈ arguments)
    (isPart : part = argument.leading.toList ∨ part = argument.trailing.toList) :
    part <:+: ((Expr.invocation target ⟨arguments, none⟩ none).render source).toList := by
  have inside : part <:+: (argument.render source).toList := infix_render_argument isPart
  rcases arguments with _ | ⟨first, rest⟩
  · cases member
  · simp only [Expr.render, ArgumentList.render, copyOr, Option.bind_none, String.toList_append]
    refine List.IsInfix.trans ?_ (List.suffix_append ..).isInfix
    rw [← List.append_assoc]
    refine List.IsInfix.trans ?_ (List.prefix_append ..).isInfix
    rcases List.mem_cons.mp member with rfl | member
    · exact inside.trans (List.infix_append ..)
    · exact (infix_renderFollowing member inside).trans (List.suffix_append ..).isInfix

end Expr

/-- The trivia in front of the message, unless the message is dropped. -/
def CallShape.messageTrivia? (shape : CallShape) : Option String :=
  if shape.hasNullMessage then none else shape.message?.map (·.leading)

namespace FixedCall

/-- At least a blank. -/
def orBlank (trivia : String) : String := if trivia.isEmpty then " " else trivia

/-- Around the arguments there is what was behind the opening parenthesis, in front of the closing
one and in front of the message, and otherwise a blank in front of the constraint at most. -/
structure KeepsTrivia (shape : CallShape) (arguments : List Argument) : Prop where
  leading : ∃ constraint, (constraint = [] ∨ constraint = [" "]) ∧
    arguments.map (·.leading) =
      shape.openingTrivia :: (constraint ++ (shape.messageTrivia?.map orBlank).toList)
  trailing : arguments.map (·.trailing) =
    List.replicate (arguments.length - 1) "" ++ [shape.closingTrivia]

/-- The call stands in the place of another one and keeps its trivia. -/
def Rewrites (shape : CallShape) (fixed : Expr) : Prop :=
  ∃ arguments, fixed = .invocation (thatTarget shape.target) ⟨arguments, none⟩ none ∧
    KeepsTrivia shape arguments

variable {σ : Type} {shape : CallShape}

theorem KeepsTrivia.infix_render {arguments : List Argument} (keeps : KeepsTrivia shape arguments)
    (target : Expr) (source : String) :
    ∀ trivia ∈ shape.openingTrivia :: shape.closingTrivia :: shape.messageTrivia?.toList,
      trivia.toList <:+:
        ((Expr.invocation target ⟨arguments, none⟩ none).render source).toList := by
  rcases keeps with ⟨⟨constraint, -, leading⟩, trailing⟩
  have isInFront {trivia : String} (member : trivia ∈ arguments.map (·.leading)) :
      trivia.toList <:+:
        ((Expr.invocation target ⟨arguments, none⟩ none).render source).toList := by
    rcases List.mem_map.mp member with ⟨argument, isArgument, rfl⟩
    exact Expr.infix_render_invocation target isArgument (.inl rfl)
  intro trivia member
  rcases List.mem_cons.mp member with rfl | member
  · exact isInFront (leading ▸ List.mem_cons_self)
  rcases List.mem_cons.mp member with rfl | member
  · have isBehind : shape.closingTrivia ∈ arguments.map (·.trailing) := by
      rw [trailing]
      exact List.mem_append_right _ (List.mem_singleton_self _)
    rcases List.mem_map.mp isBehind with ⟨argument, isArgument, same⟩
    rw [← same]
    exact Expr.infix_render_invocation target isArgument (.inr rfl)
  · have isMessage := Option.mem_toList.mp member
    by_cases isEmpty : trivia.isEmpty = true
    · rw [String.isEmpty_iff.mp isEmpty]
      exact List.nil_infix
    · refine isInFront ?_
      rw [leading, Option.mem_def.mp isMessage]
      simp [orBlank, isEmpty]

theorem ensures_messageArgument? (shape : CallShape) (model : SemanticModel (StateM σ)) :
    Ensures (fun _ => True) (fun message => message.map (·.leading) = shape.messageTrivia?)
      (messageArgument? shape model) := by
  unfold messageArgument? CallShape.messageTrivia? CallShape.hasNullMessage
  cases shape.message? with
  | none => exact .pure rfl
  | some message =>
    dsimp only [Option.any_some]
    split
    · exact .pure rfl
    · split
      · exact .pure rfl
      · refine .bind (.always _) fun passes _ => ?_
        split
        · split <;> exact .pure rfl
        · exact .pure rfl
      · exact .pure rfl

theorem map_trailing_closeWith (closing : String) {arguments : List Argument}
    (nonempty : arguments ≠ []) : (closeWith closing arguments).map (·.trailing) =
      List.replicate (arguments.length - 1) "" ++ [closing] := by
  fun_induction closeWith closing arguments with
  | case1 => exact absurd rfl nonempty
  | case2 => rfl
  | case3 argument rest hasMore ih =>
    rcases List.exists_cons_of_ne_nil hasMore with ⟨next, others, rfl⟩
    rw [List.map_cons, ih hasMore]
    rfl

theorem length_closeWith (closing : String) (arguments : List Argument) :
    (closeWith closing arguments).length = arguments.length := by
  have same := @map_closeWith _ (·.leading) (fun _ _ => rfl) closing arguments
  simpa using congrArg List.length same

theorem leading_withoutName (argument : Argument) :
    argument.withoutName.leading = argument.leading := by
  unfold Argument.withoutName
  split <;> rfl

theorem ensures_assemble (shape : CallShape) (actual : Expr) (constraint : Option Expr)
    (model : SemanticModel (StateM σ)) :
    Ensures (fun _ => True) (Rewrites shape) (assemble shape actual constraint model) := by
  refine .bind (ensures_messageArgument? shape model) fun message isMessage => .pure ?_
  refine ⟨_, rfl, ⟨constraint.toList.map fun _ => " ", by cases constraint <;> simp, ?_⟩, ?_⟩
  · have spaced (argument : Argument) :
        (let plain := argument.withoutName
          if plain.leading.isEmpty then { plain with leading := " " } else plain).leading =
        orBlank argument.leading := by
      dsimp only [orBlank]
      rw [leading_withoutName]
      split
      · rfl
      · exact leading_withoutName argument
    rw [map_closeWith fun _ _ => rfl, ← isMessage]
    cases message <;> cases constraint <;>
      simp only [Option.toList_some, Option.toList_none, Option.map_some, Option.map_none,
        List.map_cons, List.map_nil, List.nil_append, List.cons_append, Argument.ofExpr, spaced]
  · rw [map_trailing_closeWith _ (List.cons_ne_nil _ _), length_closeWith]

section

-- what every assembled call has, and what its constraint needs to have for it
variable {property ofConstraint : Expr → Prop} {model : SemanticModel (StateM σ)}
  (assembled : ∀ (actual : Expr) (constraint : Option Expr),
    (∀ expr ∈ constraint, ofConstraint expr) →
      Ensures (fun _ => True) property (assemble shape actual constraint model))

include assembled

theorem ensures_classic? {rule : ClassicRule} {hasTolerance : Bool}
    (constrained : Ensures (fun _ => True) (fun found => ∀ expr ∈ found, ofConstraint expr)
      (classicConstraint? shape rule.replacement hasTolerance model)) :
    Ensures (fun _ => True) (fun fixed => ∀ call ∈ fixed, property call)
      (classic? shape rule hasTolerance model) := by
  unfold classic?
  dsimp only
  split
  · exact .pure nofun
  · refine .bind (.always _) fun actual _ => ?_
    split
    · exact .pure nofun
    · refine .bind constrained fun constraint isConstraint => ?_
      split
      · exact .pure nofun
      · exact .bind (assembled _ _ isConstraint) fun fixed holds => .pure (by simpa)

theorem ensures_condensed? :
    Ensures (fun _ => True) (fun fixed => ∀ call ∈ fixed, property call)
      (condensed? shape model) := by
  refine .bind (.always _) fun actual _ => ?_
  split
  · exact .pure nofun
  · exact .bind (assembled _ none nofun) fun fixed holds => .pure (by simpa)

theorem ensures_condition? (constrained : ∀ (constraint : ConditionConstraint) (expected : Expr),
      ofConstraint (constraintCall constraint.chain [expected])) :
    Ensures (fun _ => True) (fun fixed => ∀ call ∈ fixed, property call)
      (condition? shape model) := by
  refine .bind (.always _) fun condition _ => ?_
  split
  · exact .pure nofun
  · refine .bind (.always _) fun found _ => ?_
    split
    · exact .pure nofun
    · refine .bind (assembled _ _ ?_) fun fixed holds => .pure (by simpa)
      rintro _ ⟨⟩
      exact constrained _ _

end

end FixedCall

/-- The actions for the observation write a call in the constraint model. -/
inductive Observation.IsRewritten : Observation → Prop
  | classic (rule : ClassicRule) (hasTolerance : Bool) : IsRewritten (.classic rule hasTolerance)
  | condition (rule : ConditionRule) (constraint : ConditionConstraint) (swapOperands : Bool) :
      IsRewritten (.condition rule constraint swapOperands)

variable {σ : Type}

/-- The action puts a call with a property in the place of a span. -/
def CodeAction.PutsIn (action : CodeAction) (source : String) (span : Span)
    (property : Expr → Prop) : Prop :=
  ∃ fixed, property fixed ∧ action.edit = TextEdit.minimized source span (fixed.render source)

/-- Each action for a rewritten call writes an assembled one. -/
theorem CodeAction.ensures_putsIn {shape : CallShape} {observation : Observation}
    (isRewritten : observation.IsRewritten) {model : SemanticModel (StateM σ)}
    {property ofConstraint : Expr → Prop}
    (assembled : ∀ (actual : Expr) (constraint : Option Expr),
      (∀ expr ∈ constraint, ofConstraint expr) →
        Ensures (fun _ => True) property (FixedCall.assemble shape actual constraint model))
    (ofClassic : ∀ rule hasTolerance, observation = .classic rule hasTolerance →
      Ensures (fun _ => True) (fun found => ∀ expr ∈ found, ofConstraint expr)
        (FixedCall.classicConstraint? shape rule.replacement hasTolerance model))
    (ofCondition : ∀ (constraint : ConditionConstraint) (expected : Expr),
      ofConstraint (FixedCall.constraintCall constraint.chain [expected]))
    (source : String) (settings : FixSettings) :
    Ensures (fun _ => True)
      (fun actions => ∀ action ∈ actions, action.PutsIn source shape.span property)
      (ofCall shape observation model source settings) := by
  have single (title key : String) {fixed : Option Expr}
      (holds : ∀ call ∈ fixed, property call) :
      ∀ action ∈ (ofFixedCall? source shape.span title key fixed).toList,
        action.PutsIn source shape.span property := by
    intro action offered
    rcases Option.map_eq_some_iff.mp (Option.mem_toList.mp offered) with ⟨call, isFixed, rfl⟩
    exact ⟨call, holds call isFixed, rfl⟩
  cases isRewritten with
  | classic rule hasTolerance =>
    refine .bind (FixedCall.ensures_classic? assembled (ofClassic rule hasTolerance rfl))
      fun full isFull => ?_
    dsimp only
    split
    · refine .bind (FixedCall.ensures_condensed? assembled) fun condensed isCondensed => .pure ?_
      intro action offered
      rcases List.mem_append.mp offered with offered | offered
      · exact single _ _ isFull action offered
      · exact single _ _ isCondensed action offered
    · exact .pure (single _ _ isFull)
  | condition rule constraint swapOperands =>
    exact .bind (FixedCall.ensures_condition? assembled ofCondition) fun fixed isFixed =>
      .pure (single _ _ isFixed)

namespace Configuration

theorem ensures_putsIn (configuration : Configuration) {tree : SyntaxTree}
    {model : SemanticModel (StateM σ)} {diagnostic : Diagnostic}
    (isRewritten : diagnostic.observation.IsRewritten) {property : CallShape → Expr → Prop}
    (putsIn : ∀ shape settings, Ensures (fun _ => True) (fun actions => ∀ action ∈ actions,
        action.PutsIn tree.source shape.span (property shape))
      (CodeAction.ofCall shape diagnostic.observation model tree.source settings)) :
    Ensures (fun _ => True) (fun actions => ∀ action ∈ actions, ∃ call root shape,
      tree.findInvocation? diagnostic.span = some (call, root) ∧
        CallShape.bind? call shape.method = some shape ∧
        action.PutsIn tree.source shape.span (property shape))
      (configuration.actionsFor tree model diagnostic) := by
  unfold actionsFor
  split
  · exact .pure (by simp)
  · rename_i isSameAs
    rw [isSameAs] at isRewritten
    cases isRewritten
  · split
    · exact .pure (by simp)
    · rename_i call root found
      refine .bind (CallShape.ensures_classify? call root model) fun shape? isRead => ?_
      split
      · exact .pure (by simp)
      · rename_i shape
        refine (putsIn shape _).weaken ?_
        exact fun actions arePutIn action offered =>
          ⟨call, root, shape, found, isRead shape rfl, arePutIn action offered⟩

/-- A call that is rewritten in the constraint model keeps what stands behind its opening and in
front of its closing parenthesis, and what stands in front of a message that is kept. Around the
other arguments the new call has no trivia but blanks. -/
theorem actionsFor_keepsTrivia (configuration : Configuration) (tree : SyntaxTree)
    (model : SemanticModel (StateM σ)) {diagnostic : Diagnostic}
    (isRewritten : diagnostic.observation.IsRewritten) (state : σ) :
    ∀ action ∈ ((configuration.actionsFor tree model diagnostic).run state).1,
      ∃ (call : Expr) (root : RootExpression) (shape : CallShape) (list : ArgumentList)
        (arguments : List Argument) (fixed : Expr),
        tree.findInvocation? diagnostic.span = some (call, root) ∧
        CallShape.bind? call shape.method = some shape ∧
        call = .invocation shape.target list (some shape.span) ∧
        shape.arguments = list.arguments ∧
        fixed = .invocation (FixedCall.thatTarget shape.target) ⟨arguments, none⟩ none ∧
        action.edit = TextEdit.minimized tree.source shape.span (fixed.render tree.source) ∧
        FixedCall.KeepsTrivia shape arguments ∧
        ∀ trivia ∈ shape.openingTrivia :: shape.closingTrivia :: shape.messageTrivia?.toList,
          trivia.toList <:+: (fixed.render tree.source).toList := by
  intro action offered
  have putsIn (shape : CallShape) (settings : FixSettings) :=
    CodeAction.ensures_putsIn isRewritten
      (fun actual constraint (_ : ∀ expr ∈ constraint, True) =>
        FixedCall.ensures_assemble shape actual constraint model)
      (fun _ _ _ => (Ensures.always _).weaken fun _ _ _ _ => trivial) (fun _ _ => trivial)
      tree.source settings
  rcases (ensures_putsIn configuration isRewritten putsIn state trivial).1 action offered
    with ⟨call, root, shape, found, isRead, fixed, ⟨arguments, isFixed, keeps⟩, edit⟩
  rcases CallShape.exists_of_bind? isRead with ⟨list, isCall, same, -⟩
  refine ⟨call, root, shape, list, arguments, fixed, found, isRead, isCall, same.symm, isFixed,
    edit, keeps, ?_⟩
  rw [isFixed]
  exact keeps.infix_render _ _

open Reference in
/-- A call with a comment in each place that is kept. -/
theorem actionsFor_keepsTrivia_message :
    let overload : MethodDecl := ⟨"AreEqual", .ordinary, [], [param object "expected",
      param object "actual", param string "message", rest (arrayOf object) "args"], void, true⟩
    let model := (SemanticModel.ofMethod overload.toClassicSymbol "").counting
    let tree := (ParsedDocument.ofSource
      "ClassicAssert.AreEqual(/* a */ 1, 2, /* m */ \"text\" /* z */);").tree
    let diagnostic : Diagnostic := ⟨⟨0, 60⟩, .classic .areEqual false, "", .info⟩
    diagnostic.observation.IsRewritten ∧
    ((actionsFor {} tree model diagnostic).run 0).1.map (·.edit) =
      [⟨⟨0, 35⟩, "Assert.That(/* a */ 2, Is.EqualTo(1)"⟩] ∧
    ∀ action ∈ ((actionsFor {} tree model diagnostic).run 0).1,
      ∃ (call : Expr) (root : RootExpression) (shape : CallShape) (list : ArgumentList)
        (arguments : List Argument) (fixed : Expr),
        tree.findInvocation? diagnostic.span = some (call, root) ∧
        CallShape.bind? call shape.method = some shape ∧
        call = .invocation shape.target list (some shape.span) ∧
        shape.arguments = list.arguments ∧
        fixed = .invocation (FixedCall.thatTarget shape.target) ⟨arguments, none⟩ none ∧
        action.edit = TextEdit.minimized tree.source shape.span (fixed.render tree.source) ∧
        FixedCall.KeepsTrivia shape arguments ∧
        ∀ trivia ∈ shape.openingTrivia :: shape.closingTrivia :: shape.messageTrivia?.toList,
          trivia.toList <:+: (fixed.render tree.source).toList :=
  ⟨.classic .areEqual false, by decide +kernel,
    actionsFor_keepsTrivia {} _ _ (.classic .areEqual false) 0⟩

/-- Both arguments of the call are kept, but not the comments between them. -/
theorem exists_fix_without_comments :
    let source := "using NUnit.Framework.Legacy;ClassicAssert.AreEqual(1 /* one */, /* two */ 2);"
    let fixed := "using NUnit.Framework.Legacy;Assert.That(2, Is.EqualTo(1));"
    ∃ diagnostic action,
      (Node.ofSource source).hasError = false ∧
      (∃ entry ∈ (ParsedDocument.ofSource source).tree.invocations,
        ∃ call ∈ entry.1.asInvocation?, call.2.arguments.map (fun argument =>
            (argument.leading, argument.expression.render source, argument.trailing)) =
          [("", "1", " /* one */"), (" /* two */ ", "2", "")]) ∧
      reported (.ofSource source) = .ok [diagnostic] ∧
      offered (.ofSource source) diagnostic = .ok [action] ∧
      action.equivalenceKey = "TransformToConstraintModel" ∧
      TextEdit.applyAll source [action.edit] = .ok fixed := by
  refine ⟨⟨⟨29, 77⟩, .classic .areEqual false, (Observation.classic .areEqual false).message,
      .info⟩,
    ⟨"Transform to constraint model", "TransformToConstraintModel",
      ⟨⟨29, 76⟩, "Assert.That(2, Is.EqualTo(1)"⟩⟩, ?_⟩
  decide +kernel

end Configuration

end AssertionLint
