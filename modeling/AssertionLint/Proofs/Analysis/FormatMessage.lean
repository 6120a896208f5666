import AssertionLint.Proofs.Analysis.ClassicArguments

/-!
# The format-string fix

A message with a format and values for it is folded into one message. Nothing else in the call
changes: the values go, and every other argument stays where it is, as it is. A call that names its
last arguments only is still read with the same parameters
(`FixedCall.formatString?_replaces_message`): positional arguments that stay have none of the values
in front of them.
-/

namespace AssertionLint

namespace CallShape

variable {method : MethodSymbol} {argument other : Argument} {arguments : List Argument}
  {position later : Nat} {entries : List BoundArgument}

/-- No positional argument stands behind a named one. -/
def NamesAreLast (arguments : List Argument) : Prop :=
  arguments.Pairwise fun left right => left.name.isSome = true → right.name.isSome = true

theorem parameterFor?_of_name (named : argument.name.isSome = true) (position later : Nat) :
    parameterFor? method position argument = parameterFor? method later argument := by
  unfold parameterFor?
  split
  · rfl
  next unnamed => simp [unnamed] at named

theorem assign?_of_names (named : ∀ argument ∈ arguments, argument.name.isSome = true)
    (position later : Nat) :
    assign? method position arguments = assign? method later arguments := by
  induction arguments generalizing position later with
  | nil => rfl
  | cons argument rest ih =>
    rw [List.forall_mem_cons] at named
    rw [assign?, assign?, parameterFor?_of_name named.1 position later,
      ih named.2 (position + 1) (later + 1)]

/-- Behind a positional argument of the catch-all parameter there are no others. -/
theorem isCatchAll_of_le {parameter otherParameter : ParameterSymbol}
    (isFor : parameterFor? method position argument = some parameter)
    (isCatchAll : parameter.isCatchAll = true) (positional : argument.name = none)
    (otherIsFor : parameterFor? method later other = some otherParameter)
    (otherPositional : other.name = none) (behind : position ≤ later) :
    otherParameter.isCatchAll = true := by
  simp only [parameterFor?, positional] at isFor
  simp only [parameterFor?, otherPositional] at otherIsFor
  cases first : method.parameters.findIdx? (·.isCatchAll) with
  | none =>
    rw [first] at isFor
    have none := List.findIdx?_eq_none_iff.mp first _ (List.mem_of_getElem? isFor)
    simp [isCatchAll] at none
  | some catchAll =>
    rw [first] at isFor otherIsFor
    rcases List.findIdx?_eq_some_iff_getElem.mp first with ⟨inside, isFirst, before⟩
    dsimp only at isFor otherIsFor
    have reached : catchAll ≤ position := by
      by_contra early
      rw [Nat.min_eq_left (by omega)] at isFor
      rcases List.getElem?_eq_some_iff.mp isFor with ⟨isInside, rfl⟩
      exact before position (by omega) isCatchAll
    rw [Nat.min_eq_right (by omega), List.getElem?_eq_getElem inside, Option.some.injEq]
      at otherIsFor
    rw [← otherIsFor]
    exact isFirst

theorem exists_parameterFor?_of_mem (read : assign? method position arguments = some entries)
    {entry : BoundArgument} (member : entry ∈ entries) :
    ∃ later, position ≤ later ∧
      parameterFor? method later entry.argument = some entry.parameter := by
  induction arguments generalizing position entries with
  | nil =>
    cases read
    cases member
  | cons argument rest ih =>
    simp only [assign?, bind, pure, Option.bind_eq_some_iff, Option.some.injEq] at read
    rcases read with ⟨parameter, isFor, others, restRead, rfl⟩
    rcases List.mem_cons.mp member with rfl | member
    · exact ⟨position, Nat.le_refl position, isFor⟩
    · rcases ih restRead member with ⟨later, behind, isFor⟩
      exact ⟨later, by omega, isFor⟩

/-- The arguments that do not go to the catch-all parameter keep their parameters without the
others. -/
theorem assign?_bound (read : assign? method position arguments = some entries)
    (namesAreLast : NamesAreLast arguments) :
    assign? method position
        ((entries.filter fun entry => !entry.parameter.isCatchAll).map (·.argument)) =
      some (entries.filter fun entry => !entry.parameter.isCatchAll) := by
  induction arguments generalizing position entries with
  | nil =>
    cases read
    rfl
  | cons argument rest ih =>
    rw [NamesAreLast, List.pairwise_cons] at namesAreLast
    simp only [assign?, bind, pure, Option.bind_eq_some_iff, Option.some.injEq] at read
    rcases read with ⟨parameter, isFor, others, restRead, rfl⟩
    have restBound := ih restRead namesAreLast.2
    cases isCatchAll : parameter.isCatchAll with
    | false =>
      rw [List.filter_cons_of_pos (by simp [isCatchAll]), List.map_cons, assign?, isFor, restBound]
      rfl
    | true =>
      rw [List.filter_cons_of_neg (by simp [isCatchAll])]
      -- what is kept behind an argument that goes is named, so its position does not matter
      refine (assign?_of_names ?_ position (position + 1)).trans restBound
      intro kept member
      rcases List.mem_map.mp member with ⟨entry, entryMem, rfl⟩
      rcases List.mem_filter.mp entryMem with ⟨isOther, isOwn⟩
      have isArgument : entry.argument ∈ rest :=
        map_argument_of_assign? restRead ▸ List.mem_map_of_mem isOther
      cases name : argument.name with
      | some label => exact namesAreLast.1 _ isArgument (by rw [name]; rfl)
      | none =>
        rw [Option.isSome_iff_ne_none]
        intro unnamed
        rcases exists_parameterFor?_of_mem restRead isOther with ⟨later, behind, isForEntry⟩
        have := isCatchAll_of_le isFor isCatchAll name isForEntry unnamed (by omega)
        simp [this] at isOwn

/-- Arguments with the same labels go to the same parameters. -/
theorem exists_assign?_of_same_names {changed : List Argument}
    (read : assign? method position arguments = some entries)
    (sameNames : changed.map (·.name) = arguments.map (·.name)) :
    ∃ reread, assign? method position changed = some reread ∧
      reread.map (·.parameter) = entries.map (·.parameter) := by
  induction arguments generalizing position entries changed with
  | nil =>
    cases List.map_eq_nil_iff.mp sameNames
    exact ⟨entries, read, rfl⟩
  | cons argument rest ih =>
    rcases List.map_eq_cons_iff.mp sameNames with ⟨head, others, rfl, sameName, sameNames⟩
    simp only [assign?, bind, pure, Option.bind_eq_some_iff, Option.some.injEq] at read
    rcases read with ⟨parameter, isFor, entries, restRead, rfl⟩
    rcases ih restRead sameNames with ⟨reread, restReread, sameParameters⟩
    refine ⟨⟨parameter, head⟩ :: reread, ?_, by rw [List.map_cons, List.map_cons, sameParameters]⟩
    have sameFor : parameterFor? method position head = some parameter := by
      unfold parameterFor? at isFor ⊢
      rw [sameName]
      exact isFor
    rw [assign?, sameFor, restReread]
    rfl

/-- The arguments are those of a call without its overflow, where the message has another expression
and the last argument has the trivia in front of the closing parenthesis behind it. -/
def ReplacesMessage (shape : CallShape) (message : Argument) (expression : Expr)
    (arguments : List Argument) : Prop :=
  ∃ before parameter behind initial last,
    shape.bound = before ++ ⟨parameter, message⟩ :: behind ∧ parameter.name = "message" ∧
    (∀ entry ∈ before, entry.parameter.name ≠ "message") ∧
    before.map (·.argument) ++
        { message with expression, span := none } :: behind.map (·.argument) = initial ++ [last] ∧
    arguments = initial ++ [{ last with trailing := shape.closingTrivia }]

theorem ReplacesMessage.map_name {shape : CallShape} {message : Argument} {expression : Expr}
    (replaces : shape.ReplacesMessage message expression arguments) :
    arguments.map (·.name) = shape.bound.map (·.argument.name) := by
  rcases replaces with ⟨before, parameter, behind, initial, last, boundIs, -, -, cut, rfl⟩
  have names := congrArg (List.map (·.name)) cut
  simp only [List.map_append, List.map_cons, List.map_map, List.map_nil] at names ⊢
  rw [← names, boundIs, List.map_append, List.map_cons]
  rfl

/-- The call with another message and without overflow is read with the parameters that its
arguments had before. -/
theorem ReplacesMessage.exists_bind? {shape : CallShape} {message : Argument} {expression : Expr}
    (replaces : shape.ReplacesMessage message expression arguments) {invocation : Expr}
    (read : bind? invocation method = some shape) (namesAreLast : NamesAreLast shape.arguments)
    (span : Span) (listSpan : Option Span) :
    ∃ reread, bind? (.invocation shape.target ⟨arguments, listSpan⟩ (some span)) method =
        some reread ∧
      reread.arguments = arguments ∧ reread.overflow = [] ∧
      reread.assigned.map (·.parameter) = shape.bound.map (·.parameter) := by
  rcases exists_assign?_of_same_names (assign?_bound (assign?_of_bind? read) namesAreLast)
    (replaces.map_name.trans (List.map_map ..).symm) with ⟨reread, rereads, sameParameters⟩
  refine ⟨⟨span, shape.target, method, reread⟩, ?_, map_argument_of_assign? rereads, ?_,
    sameParameters⟩
  · simp only [bind?, bind, pure, Expr.span, Expr.asInvocation?, Option.bind_some, rereads]
  · rw [overflow, List.map_eq_nil_iff, List.filter_eq_nil_iff]
    intro entry member
    have isParameter := List.mem_map_of_mem (f := (·.parameter)) member
    rw [sameParameters] at isParameter
    rcases List.mem_map.mp isParameter with ⟨kept, keptMem, same⟩
    rw [← same]
    simpa using (List.mem_filter.mp keptMem).2

end CallShape

namespace FixedCall

variable {message : Argument} {entries before behind : List BoundArgument}

theorem replaceMessage_true : replaceMessage message true entries =
    (entries.filter fun entry => !entry.parameter.isCatchAll).map (·.argument) := by
  induction entries with
  | nil => rfl
  | cons entry rest ih =>
    rw [replaceMessage, ih, List.filter_cons]
    cases entry.parameter.isCatchAll <;> rfl

theorem replaceMessage_false {entry : BoundArgument}
    (boundIs : entries.filter (fun entry => !entry.parameter.isCatchAll) =
      before ++ entry :: behind)
    (isMessage : entry.parameter.name = "message")
    (others : ∀ other ∈ before, other.parameter.name ≠ "message") :
    replaceMessage message false entries =
      before.map (·.argument) ++ message :: behind.map (·.argument) := by
  induction entries generalizing before with
  | nil => simp at boundIs
  | cons head rest ih =>
    rw [replaceMessage]
    split
    next isCatchAll =>
      rw [List.filter_cons_of_neg (by simp [isCatchAll])] at boundIs
      exact ih boundIs others
    next isOwn =>
      rw [List.filter_cons_of_pos (by simpa using isOwn)] at boundIs
      cases before with
      | nil =>
        rcases List.cons.inj boundIs with ⟨rfl, restIs⟩
        simp only [isMessage, replaceMessage_true, restIs, Bool.not_false, beq_self_eq_true,
          Bool.and_self, if_true, List.map_nil, List.nil_append]
      | cons first before =>
        rcases List.cons.inj boundIs with ⟨rfl, restIs⟩
        rw [List.forall_mem_cons] at others
        simp only [others.1, ih restIs others.2, beq_iff_eq, Bool.not_false, Bool.true_and,
          if_false, List.map_cons, List.cons_append]

theorem setClosing_append (closing : String) (initial : List Argument) (last : Argument) :
    setClosing closing (initial ++ [last]) = initial ++ [{ last with trailing := closing }] := by
  induction initial with
  | nil => rfl
  | cons argument rest ih =>
    cases rest with
    | nil => rfl
    | cons next rest => exact congrArg (argument :: ·) ih

variable {σ : Type} {shape : CallShape} {message : Argument}

theorem replacesMessage_of_message? (isMessage : shape.message? = some message)
    (expression : Expr) :
    shape.ReplacesMessage message expression (setClosing shape.closingTrivia
      (replaceMessage (message.withExpression expression) false shape.assigned)) := by
  rcases Option.map_eq_some_iff.mp isMessage with ⟨⟨parameter, _⟩, found, rfl⟩
  rcases List.find?_eq_some_iff_append.mp found with ⟨isNamed, before, behind, boundIs, others⟩
  simp only [beq_iff_eq, Bool.not_eq_true', beq_eq_false_iff_ne] at isNamed others
  rw [replaceMessage_false boundIs isNamed others]
  rcases List.eq_nil_or_concat (before.map (·.argument) ++
    Argument.withExpression _ expression :: behind.map (·.argument))
    with isEmpty | ⟨initial, last, cut⟩
  · simp at isEmpty
  · rw [List.concat_eq_append] at cut
    refine ⟨before, parameter, behind, initial, last, boundIs, isNamed, others, cut, ?_⟩
    rw [cut, setClosing_append]

/-- A message with values for its format becomes an argument that differs in its expression. -/
theorem ensures_messageArgument?_withExpression (isMessage : shape.message? = some message)
    (isGiven : message.expression.unparenthesized.isLiteral .null = false)
    (hasOverflow : shape.overflow ≠ []) (model : SemanticModel (StateM σ)) :
    Ensures (fun _ => True)
      (fun found => ∃ expression, found = some (message.withExpression expression))
      (messageArgument? shape model) := by
  unfold messageArgument?
  simp only [isMessage, isGiven, Bool.false_eq_true, if_false]
  split
  · contradiction
  · refine .bind (.always _) fun passes _ => ?_
    split
    · split <;> exact .pure ⟨_, rfl⟩
    · exact .pure ⟨_, rfl⟩
  · exact .pure ⟨_, rfl⟩

/-- The values for a format go and the message gets another expression, but everything else stays:
the target, the other arguments in their order, and the trivia in front of the closing parenthesis.
If only the last arguments are named, then the new call is read with the same parameters, and
nothing of it goes to the parameter of the values. -/
theorem formatString?_replaces_message (isMessage : shape.message? = some message)
    (isGiven : message.expression.unparenthesized.isLiteral .null = false)
    (hasOverflow : shape.overflow ≠ []) (model : SemanticModel (StateM σ)) (state : σ) :
    ∃ expression arguments,
      ((messageArgument? shape model).run state).1 =
        some { message with expression, span := none } ∧
      ((formatString? shape model).run state).1 =
        some (.invocation shape.target ⟨arguments, none⟩ none) ∧
      shape.ReplacesMessage message expression arguments ∧
      ∀ invocation method, CallShape.bind? invocation method = some shape →
        CallShape.NamesAreLast shape.arguments → ∀ span listSpan, ∃ reread,
          CallShape.bind? (.invocation shape.target ⟨arguments, listSpan⟩ (some span)) method =
            some reread ∧
          reread.arguments = arguments ∧ reread.overflow = [] ∧
          reread.assigned.map (·.parameter) = shape.bound.map (·.parameter) := by
  rcases (ensures_messageArgument?_withExpression isMessage isGiven hasOverflow model state
    trivial).1 with ⟨expression, folded⟩
  have replaces := replacesMessage_of_message? isMessage expression
  refine ⟨expression, _, folded, ?_, replaces, ?_⟩
  · rcases List.exists_cons_of_ne_nil hasOverflow with ⟨first, rest, overflowIs⟩
    rcases run : (messageArgument? shape model).run state with ⟨found, next⟩
    rw [run] at folded
    cases folded
    simp only [formatString?, isMessage, overflowIs, StateT.run_bind, run]
    rfl
  · intro invocation method read namesAreLast span listSpan
    exact replaces.exists_bind? read namesAreLast span listSpan

open Reference in
/-- In `AreEqual(e, a, args: v, message: "{0} left" , delta: d)` the value stands between the
positional arguments and the message, and it goes. -/
theorem formatString?_of_value_in_front :
    let overload : MethodDecl := ⟨"AreEqual", .ordinary, [], [param double "expected",
      param double "actual", param double "delta", param string "message",
      rest (arrayOf object) "args"], void, true⟩
    let reference : SemanticModel Id := .ofMethod overload.toClassicSymbol "e"
    let message : Argument :=
      { name := some "message", modifier := none, leading := " ", trailing := " ", span := none
        expression := .literal ⟨.string, "\"\x7b0\x7d left\""⟩ none }
    let call := classicCall (.ofIdentifier "AreEqual") [.ofExpr (.identifier "e"),
      spaced (.identifier "a"), labelled "args" "v", message, labelled "delta" "d"]
    ∃ shape fixed,
      CallShape.bind? call overload.toClassicSymbol = some shape ∧
      shape.message? = some message ∧ shape.overflow ≠ [] ∧
      CallShape.NamesAreLast shape.arguments ∧
      ((formatString? shape reference.counting).run 0).1 = some fixed ∧
      fixed.render "" = "ClassicAssert.AreEqual(e, a, message: $\"\x7bv\x7d left\" ,delta: d)" ∧
      ∃ expression arguments,
        fixed = .invocation shape.target ⟨arguments, none⟩ none ∧
        shape.ReplacesMessage message expression arguments ∧
        ∃ reread, CallShape.bind? (.invocation shape.target ⟨arguments, none⟩ (some ⟨0, 60⟩))
            overload.toClassicSymbol = some reread ∧
          reread.overflow = [] ∧
          reread.assigned.map (·.parameter) = shape.bound.map (·.parameter) := by
  intro overload reference message call
  have evaluated : ∃ shape fixed,
      CallShape.bind? call overload.toClassicSymbol = some shape ∧
      shape.message? = some message ∧ shape.overflow ≠ [] ∧
      CallShape.NamesAreLast shape.arguments ∧
      ((formatString? shape reference.counting).run 0).1 = some fixed ∧
      fixed.render "" =
        "ClassicAssert.AreEqual(e, a, message: $\"\x7bv\x7d left\" ,delta: d)" :=
    ⟨_, _, rfl, rfl, nofun, by unfold CallShape.NamesAreLast; decide, rfl, by decide +kernel⟩
  rcases evaluated with ⟨shape, fixed, read, isMessage, hasOverflow, namesAreLast, folds, text⟩
  rcases formatString?_replaces_message isMessage rfl hasOverflow reference.counting 0 with
    ⟨expression, arguments, -, same, replaces, rereads⟩
  rcases rereads call _ read namesAreLast ⟨0, 60⟩ none with
    ⟨reread, rereads, -, emptied, parameters⟩
  exact ⟨shape, fixed, read, isMessage, hasOverflow, namesAreLast, folds, text, expression,
    arguments, Option.some.inj (folds.symm.trans same), replaces, reread, rereads, emptied,
    parameters⟩

end FixedCall

end AssertionLint
