import AssertionLint.CSharp.Grammar.Expressions
import AssertionLint.Proofs.Grammar.Readers

/-!
# What expressions are

A rule for expressions never hands on what another rule has read but builds a node of its own
around it, so its last step tells what it gives, whatever the rules that it refers to do. An
expression is a node without a role, and of all keywords only `this` and `base` are expressions
(`Grammar.gives_expressionRule`).
-/

namespace AssertionLint

namespace Grammar

open Reader

/-- Whatever the reader gives has the property. -/
def Gives {α : Type} (P : α → Prop) (reader : Reader α) : Prop :=
  ∀ tokens position value stop, reader tokens position = some (value, stop) → P value

namespace Gives

variable {α β : Type} {P : α → Prop} {Q : β → Prop} {reader other : Reader α}
  {following : α → Reader β}

theorem pure {x : α} (holds : P x) : Gives P (pure x) := by
  intro tokens position value stop read
  cases read
  exact holds

theorem failure : Gives P failure := by
  intro tokens position value stop read
  cases read

theorem after (first : Gives P reader) (next : ∀ x, P x → Gives Q (following x)) :
    Gives Q (reader >>= following) := by
  intro tokens position value stop read
  rw [bind_apply, Option.bind_eq_some_iff] at read
  rcases read with ⟨⟨x, middle⟩, isFirst, isNext⟩
  exact next x (first _ _ _ _ isFirst) _ _ _ _ isNext

/-- The last step decides. -/
theorem bind (next : ∀ x, Gives Q (following x)) : Gives Q (reader >>= following) :=
  after (P := fun _ => True) (fun _ _ _ _ _ => trivial) fun x _ => next x

theorem orElse (first : Gives P reader) (second : Gives P other) : Gives P (reader <|> other) := by
  intro tokens position value stop read
  rw [orElse_apply, Option.or_eq_some_iff] at read
  rcases read with read | ⟨-, read⟩
  · exact first _ _ _ _ read
  · exact second _ _ _ _ read

theorem iterate {extend : α → Reader α} {x : α} (start : P x) (step : ∀ x, Gives P (extend x)) :
    Gives P (iterate extend x) := by
  have all (tokens : Array Token) (position : Nat) :
      P (iterateFrom extend tokens position x).1 := by
    fun_induction iterateFrom extend tokens position x with
    | case1 position x extended next read _ ih => exact ih (step _ _ _ _ _ read)
    | case2 => exact start
    | case3 => exact start
  intro tokens position value stop read
  have := all tokens position
  rw [Option.some.inj read] at this
  exact this

theorem maybe (gives : Gives P reader) : Gives (∀ x ∈ ·.toList, P x) (maybe reader) := by
  refine .orElse ?_ (.pure (by simp))
  rw [map_eq_pure_bind]
  exact .after gives fun x holds => .pure (by simpa using holds)

theorem many (gives : Gives P reader) : Gives (∀ x ∈ ·, P x) (many reader) := by
  have all (tokens : Array Token) (position : Nat) :
      ∀ x ∈ (manyFrom reader tokens position).1, P x := by
    fun_induction manyFrom reader tokens position with
    | case1 position x next read _ following stop rest ih =>
      rw [List.forall_mem_cons]
      rw [rest] at ih
      exact ⟨gives _ _ _ _ read, ih⟩
    | case2 => simp
    | case3 => simp
  intro tokens position values stop read
  have := all tokens position
  rw [Option.some.inj read] at this
  exact this

theorem take (accept : Token → Bool) : Gives (fun token => accept token = true) (take accept) := by
  intro tokens position token stop read
  unfold Reader.take at read
  split at read
  · split at read
    · cases read
      assumption
    · cases read
  · cases read

end Gives

section Rules

variable {rules : Rules} {ending : Ending} {floor : Nat}

theorem gives_branch {form : Form} {parts : List Node} (named : form.isNamed = true) :
    Gives Node.IsValue (Pure.pure (.branch form parts)) :=
  .pure (.branch named)

theorem gives_leaf {form : Form} {span : Span} (named : form.isNamed = true) :
    Gives Node.IsValue (Pure.pure (.leaf form span)) :=
  .pure (.leaf named)

theorem gives_name : Gives Node.IsValue name :=
  .bind fun _ => gives_leaf rfl

theorem gives_simpleName : Gives Node.IsValue (simpleName rules) := by
  refine .after gives_name fun word isValue => .orElse ?_ (.pure isValue)
  exact .bind fun _ => .bind fun _ => .bind fun _ => gives_branch rfl

theorem gives_nameOperand : Gives Node.IsValue (nameOperand rules) := by
  refine .orElse ?_ (.orElse ?_ ?_)
  · refine .after (P := Node.IsValue) (.bind fun _ => gives_leaf rfl) fun type isValue => ?_
    exact .bind fun _ => .bind fun _ => .pure isValue
  · exact .bind fun _ => .bind fun _ => .bind fun _ => gives_branch rfl
  · exact .bind fun _ => .bind fun _ => gives_simpleName

theorem gives_literalOperand : Gives Node.IsValue literalOperand := by
  refine .bind fun token => ?_
  split <;> exact gives_leaf rfl

theorem gives_interpolatedString : Gives Node.IsValue (interpolatedString rules) :=
  .bind fun _ => .bind fun _ => .bind fun _ => gives_branch rfl

theorem gives_typeOperator {keyword : String} {form : Form} (named : form.isNamed = true) :
    Gives Node.IsValue (typeOperator keyword form rules) :=
  .bind fun _ => .bind fun _ => .bind fun _ => .bind fun _ => gives_branch named

theorem gives_valueOperator {keyword name : String} :
    Gives Node.IsValue (valueOperator keyword name rules) :=
  .bind fun _ => .bind fun _ => .bind fun _ => .bind fun _ => gives_branch rfl

theorem gives_markOneOf {texts : List String} :
    Gives (fun node => node.form.isNamed = false) (markOneOf texts) :=
  .bind fun _ => .pure rfl

theorem gives_instance : Gives Node.IsValue (markOneOf ["this", "base"]) := by
  refine .after (.take _) fun token isOne => .pure ⟨rfl, fun _ => ?_⟩
  simp only [Token.isOneOf, List.any_cons, List.any_nil, Bool.or_false, Bool.or_eq_true] at isOne
  have text_eq := isOne.imp Correspondence.text_of_is Correspondence.text_of_is
  exact text_eq.imp (congrArg Form.token) (congrArg Form.token)

theorem gives_keywordOperand : Gives Node.IsValue (keywordOperand rules) := by
  refine .orElse (gives_typeOperator rfl) (.orElse (gives_typeOperator rfl)
    (.orElse (gives_typeOperator rfl) (.orElse ?_ (.orElse gives_valueOperator
      (.orElse gives_valueOperator (.orElse gives_valueOperator (.orElse gives_valueOperator
        (.orElse ?_ gives_instance))))))))
  · exact .bind fun _ => gives_leaf rfl
  · exact .bind fun _ => .bind fun _ => .bind fun _ => .bind fun _ => .bind fun _ => .bind fun _ =>
      gives_branch rfl

theorem gives_creation : Gives Node.IsValue (creation rules) := by
  refine .bind fun _ => .orElse ?_ (.orElse ?_ (.orElse ?_ (.orElse ?_ ?_)))
  · exact .bind fun _ => .bind fun _ => .bind fun _ => .bind fun _ => gives_branch rfl
  · exact .bind fun _ => gives_branch rfl
  · exact .bind fun _ => .bind fun _ => gives_branch rfl
  · exact .bind fun _ => .bind fun _ => .bind fun _ => .bind fun _ => .bind fun _ =>
      gives_branch rfl
  · exact .bind fun _ => .bind fun _ => gives_branch rfl

theorem gives_stackAllocation : Gives Node.IsValue (stackAllocation rules) := by
  refine .bind fun _ => .orElse ?_ ?_
  · exact .bind fun _ => .bind fun _ => .bind fun _ => gives_branch rfl
  · exact .bind fun _ => .bind fun _ => gives_branch rfl

theorem gives_lambda : Gives Node.IsValue (lambda rules ending) := by
  refine .bind fun _ => .bind fun _ => .orElse ?_ ?_
  · exact .bind fun _ => .bind fun _ => .bind fun _ => gives_branch rfl
  · exact .bind fun _ => .bind fun _ => .bind fun _ => .bind fun _ => .bind fun _ => .bind fun _ =>
      gives_branch rfl

theorem gives_anonymousMethod : Gives Node.IsValue (anonymousMethod rules) :=
  .bind fun _ => .bind fun _ => .bind fun _ => .bind fun _ => .bind fun _ => .bind fun _ =>
    gives_branch rfl

theorem gives_castOperand : Gives Node.IsValue (castOperand rules ending) := by
  refine .bind fun _ => .bind fun _ => .bind fun _ => .bind fun _ => .bind fun _ => ?_
  exact .bind fun _ => .bind fun _ => .bind fun _ => .bind fun _ => .bind fun _ => .bind fun _ =>
    .bind fun _ => gives_branch rfl

theorem gives_parenthesizedOperand : Gives Node.IsValue (parenthesizedOperand rules) := by
  refine .bind fun _ => .bind fun _ => .bind fun _ => .bind fun _ => ?_
  split
  · exact .bind fun _ => gives_branch rfl
  · exact gives_branch rfl

theorem gives_unaryOperand : Gives Node.IsValue (unaryOperand rules ending) :=
  .orElse (.bind fun _ => .bind fun _ => gives_branch rfl)
    (.bind fun _ => .bind fun _ => gives_branch rfl)

theorem gives_wordOperand : Gives Node.IsValue (wordOperand rules ending) := by
  refine .orElse ?_ (.orElse ?_ ?_)
  · exact .bind fun _ => .bind fun _ => gives_branch rfl
  · exact .bind fun _ => .bind fun _ => gives_branch rfl
  · exact .bind fun _ => .bind fun _ => .bind fun _ => .bind fun _ => gives_branch rfl

theorem gives_openRange : Gives Node.IsValue (openRange rules ending) :=
  .bind fun _ => .bind fun _ => gives_branch rfl

theorem gives_indexList {form : Form} (named : form.isNamed = true) :
    Gives Node.IsValue (indexList form rules) :=
  .bind fun _ => .bind fun _ => .bind fun _ => gives_branch named

theorem gives_initializer : Gives Node.IsValue (initializer rules) :=
  .bind fun _ => .bind fun _ => .bind fun _ => .bind fun _ => gives_branch rfl

theorem gives_extendOperand (operand : Node) :
    Gives Node.IsValue (extendOperand rules operand) := by
  refine .orElse ?_ (.orElse ?_ (.orElse ?_ (.orElse ?_ ?_)))
  · exact .bind fun _ => .bind fun _ => gives_branch rfl
  · exact .bind fun _ => gives_branch rfl
  · exact .bind fun _ => gives_branch rfl
  · exact .bind fun _ => gives_branch rfl
  · exact .bind fun _ => .bind fun _ => gives_branch rfl

theorem gives_pointedOperand : Gives Node.IsValue (pointedOperand rules) :=
  .bind fun _ => .bind fun _ => .bind fun _ => .bind fun _ => gives_branch rfl

theorem gives_primaryOperand : Gives Node.IsValue (primaryOperand rules) := by
  refine .after ?_ fun primary isValue => .iterate isValue gives_extendOperand
  exact .orElse gives_literalOperand (.orElse gives_interpolatedString (.orElse gives_creation
    (.orElse gives_stackAllocation (.orElse gives_keywordOperand (.orElse gives_parenthesizedOperand
      (.orElse gives_initializer (.orElse (gives_indexList rfl) (.orElse gives_nameOperand
        gives_pointedOperand))))))))

theorem gives_query : Gives Node.IsValue (query rules) :=
  .bind fun _ => .bind fun _ => .bind fun _ => gives_branch rfl

theorem gives_operand : Gives Node.IsValue (operand rules ending) :=
  .orElse (.bind fun _ => gives_lambda) (.orElse gives_anonymousMethod (.orElse gives_query
    (.orElse gives_wordOperand (.orElse gives_unaryOperand (.orElse gives_openRange
      (.orElse gives_castOperand gives_primaryOperand))))))

theorem gives_extendExpression (left : Node) :
    Gives Node.IsValue (extendExpression rules floor ending left) := by
  refine .orElse ?_ (.orElse ?_ (.orElse ?_ (.orElse ?_ (.orElse ?_ (.orElse ?_ (.orElse ?_
    (.orElse ?_ ?_)))))))
  · exact .bind fun _ => .bind fun _ => .bind fun _ => gives_branch rfl
  · refine .bind fun _ => .bind fun _ => .bind fun _ => ?_
    exact .iterate (.branch rfl) gives_extendOperand
  · exact .bind fun _ => .bind fun _ => .bind fun _ => .bind fun _ => .bind fun _ =>
      gives_branch rfl
  · exact .bind fun _ => .bind fun _ => .bind fun _ => gives_branch rfl
  · refine .bind fun _ => .bind fun _ => .bind fun _ => ?_
    exact .iterate (.branch rfl) gives_extendOperand
  · exact .bind fun _ => .bind fun _ => .bind fun _ => .bind fun _ => .bind fun _ =>
      .bind fun _ => gives_branch rfl
  · exact .bind fun _ => .bind fun _ => .bind fun _ => gives_branch rfl
  · exact .bind fun _ => .bind fun _ => .bind fun _ => gives_branch rfl
  · exact .bind fun _ => .bind fun _ => .bind fun _ => gives_branch rfl

/-- Whatever the rules that it refers to give, the rule for expressions gives an expression. -/
theorem gives_expressionRule : Gives Node.IsValue (expressionRule rules floor ending) :=
  .after gives_operand fun _ isValue => .iterate isValue gives_extendExpression

theorem gives_declarationExpression : Gives Node.IsValue (declarationExpression rules) :=
  .bind fun _ => .bind fun _ => .bind fun _ => .bind fun _ => gives_branch rfl

end Rules

namespace Correspondence

variable {left right : Array Token} {C : Correspondence left right} {α : Type}

theorem Reads.gives {V : Nat → Nat → α → α → Prop} {P : α → Prop} {reader other : Reader α}
    (reads : C.Reads V reader other) (gives : Gives P reader) :
    C.Reads (fun start stop x y => V start stop x y ∧ P x) reader other := by
  intro start
  rcases reads start with failed | ⟨x, y, stop, one, two, related⟩
  · exact .inl failed
  · exact .inr ⟨x, y, stop, one, two, related, gives _ _ _ _ one⟩

/-- Nodes that are expressions. -/
structure Value (C : Correspondence left right) (start stop : Nat) (x y : Node) :
    Prop extends C.Operand start stop x y where
  isValue : x.IsValue

end Correspondence

end Grammar

end AssertionLint
