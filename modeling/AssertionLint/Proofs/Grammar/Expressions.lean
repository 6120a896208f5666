import AssertionLint.CSharp.Grammar.Expressions
import AssertionLint.Proofs.Grammar.Operands

/-!
# Expressions side by side

The rules for operators read both documents in the same way. An operator extends the expression to
its left, so what is extended starts where the expression starts and ends further behind.
-/

namespace AssertionLint

namespace Grammar

namespace Correspondence

open Reader

variable {left right : Array Token} {C : Correspondence left right} {position : Nat}
  {rules rules' : Rules}

theorem reads_assignmentOperator (C : Correspondence left right) :
    C.Reads C.Operand assignmentOperator assignmentOperator :=
  (C.reads_joined (by simp)).orElse <| (C.reads_joined (by simp)).orElse (C.reads_markOneOf _)

/-- Operators with the same level and the same grouping. -/
structure Graded (C : Correspondence left right) (start stop : Nat)
    (x y : Node × Nat × Grouping) : Prop where
  operator : C.Operand start stop x.1 y.1
  grade_eq : y.2 = x.2

theorem reads_binaryOperator (C : Correspondence left right) :
    C.Reads C.Graded binaryOperator binaryOperator := by
  intro start
  refine ((C.reads_joined (by simp)).orElse <| (C.reads_joined (by simp)).orElse <|
    (C.reads_joined (by simp)).orElse fun _ => ?_).bind fun _ _ _ operator => ?_
  · refine (C.reads_take fun _ _ _ _ => rfl).bind fun _ _ _ taken => ?_
    exact .pure (taken.1.mark C).toOperand
  · unfold Node.tokenText?
    rw [C.form_eq operator.part]
    split
    · exact .pure ⟨operator, rfl⟩
    · exact .failure

section Extensions

variable {start : Nat} {x y : Node}

theorem Table.assignmentRest (table : C.Table rules rules') (floor : Nat) (ending : Ending)
    (target : C.Operand start position x y) :
    C.At position (C.Operand start) (assignmentRest rules floor ending x)
      (assignmentRest rules' floor ending y) := by
  refine .check (by rw [C.isAssignable_eq target.part]) fun _ => ?_
  refine C.reads_assignmentOperator.bind fun _ _ _ operator => ?_
  refine (table.expression 0 ending).bind fun _ _ _ value => ?_
  exact .pure (C.operand_of_isPlain rfl (by simp)
    (.cons target.part (.cons operator.part (.single value.part))))

theorem Table.binaryRest (table : C.Table rules rules') (floor : Nat) (ending : Ending)
    (front : C.Operand start position x y) :
    C.At position (C.Operand start) (binaryRest rules floor ending x)
      (binaryRest rules' floor ending y) := by
  refine C.reads_binaryOperator.bind fun _ one two graded => ?_
  rcases one with ⟨operator, level, grouping⟩
  rcases two with ⟨operator', level', grouping'⟩
  rcases graded with ⟨isOperator, same⟩
  cases same
  refine .check rfl fun _ => ?_
  refine (table.expression _ ending).bind fun _ _ _ back => ?_
  exact .pure (C.operand_of_operands rfl (by simp) (by simp)
    (.cons front (.cons isOperator (.single back))))

theorem Table.testRest (table : C.Table rules rules') (floor : Nat)
    (value : C.Operand start position x y) :
    C.At position (C.Operand start) (testRest rules floor x) (testRest rules' floor y) := by
  refine .check rfl fun _ => ?_
  refine (C.reads_mark "is").bind fun _ _ _ word => ?_
  refine table.pattern.bind fun _ _ _ pattern => ?_
  rw [C.isTypePattern_eq pattern]
  exact .pure (C.operand_of_isPlain rfl (by simp)
    (.cons value.part (.cons word.part (.single pattern))))

theorem Table.typeConversionRest (table : C.Table rules rules') (floor : Nat)
    (value : C.Operand start position x y) :
    C.At position (C.Operand start) (typeConversionRest rules floor x)
      (typeConversionRest rules' floor y) := by
  refine .check rfl fun _ => ?_
  refine (C.reads_mark "as").bind fun _ _ _ word => ?_
  refine table.reads_testedType.bind fun _ _ _ type => ?_
  exact .iterate (fun _ _ _ operand => table.extendOperand operand)
    (C.operand_of_isPlain rfl (by simp) (.cons value.part (.cons word.part (.single type.part))))

theorem Table.conditionalRest (table : C.Table rules rules') (floor : Nat) (ending : Ending)
    (condition : C.Operand start position x y) :
    C.At position (C.Operand start) (conditionalRest rules floor ending x)
      (conditionalRest rules' floor ending y) := by
  refine .check rfl fun _ => ?_
  refine (C.reads_mark "?").bind fun _ _ _ question => ?_
  refine (table.expression 0 .colon).bind fun _ _ _ whenTrue => ?_
  refine (C.reads_mark ":").bind fun _ _ _ colon => ?_
  refine (table.expression conditionalLevel ending).bind fun _ _ _ whenFalse => ?_
  exact .pure (C.operand_of_operands rfl (by simp) (by simp)
    (.cons condition (.cons question.toOperand (.cons whenTrue (.cons colon.toOperand
      (.single whenFalse))))))

theorem Table.conditionalAccessRest (table : C.Table rules rules') (floor : Nat) (ending : Ending)
    (value : C.Operand start position x y) :
    C.At position (C.Operand start) (conditionalAccessRest rules floor ending x)
      (conditionalAccessRest rules' floor ending y) := by
  refine .check rfl fun _ => ?_
  refine (C.reads_mark "?").bind fun _ _ _ question => ?_
  refine (Reads.orElse (V := C.Operand) (fun _ => ?_) fun _ => ?_).bind fun _ _ _ binding => ?_
  · refine (C.reads_mark ".").bind fun _ _ _ dot => ?_
    refine table.reads_simpleName.bind fun _ _ _ member => ?_
    exact .pure (C.operand_of_isPlain rfl (by simp) (.cons dot.part (.single member.part)))
  · refine .behindBrackets fun _ _ peeked => ?_
    refine .check (by rw [peeked.any_eq fun _ _ _ _ => rfl]) fun _ => ?_
    exact table.reads_indexList rfl _
  · exact .iterate (fun _ _ _ operand => table.extendOperand operand)
      (C.operand_of_isPlain rfl (by simp)
        (.cons value.part (.cons question.part (.single binding.part))))

theorem Table.reads_switchArm (table : C.Table rules rules') :
    C.Reads C.Part (switchArm rules) (switchArm rules') := by
  intro start
  refine table.pattern.bind fun _ _ _ pattern => ?_
  refine (Reads.maybeAll (V := C.Part) fun _ => ?_).bind fun _ _ _ guard => ?_
  · refine (C.reads_mark "when").bind fun _ _ _ word => ?_
    refine (table.expression 0 .arrow).bind fun _ _ _ condition => ?_
    exact .pure (.cons word.part (.single condition.part))
  · refine (C.reads_mark "=>").bind fun _ _ _ arrow => ?_
    refine (table.expression 0 .plain).bind fun _ _ _ value => ?_
    exact .pure (C.part_of_isFree rfl (by simp)
      ((guard.cons pattern).append (.cons arrow.part (.single value.part))))

theorem Table.switchRest (table : C.Table rules rules') (floor : Nat)
    (value : C.Operand start position x y) :
    C.At position (C.Operand start) (switchRest rules floor x) (switchRest rules' floor y) := by
  refine .check rfl fun _ => ?_
  refine (C.reads_mark "switch").bind fun _ _ _ word => ?_
  refine (C.reads_mark "\x7b").bind fun _ _ _ opening => ?_
  refine (table.reads_switchArm.separated (·.part)).maybeAll.bind fun _ _ _ arms => ?_
  refine (C.reads_trailing ",").bind fun _ _ _ comma => ?_
  refine (C.reads_mark "\x7d").bind fun _ _ _ closing => ?_
  exact .pure (C.operand_of_isPlain rfl (by simp)
    (((((arms.cons opening.part).cons word.part).cons value.part).append
      (comma.mono (·.part))).append (.single closing.part)))

theorem Table.withRest (table : C.Table rules rules') (floor : Nat)
    (value : C.Operand start position x y) :
    C.At position (C.Operand start) (withRest rules floor x) (withRest rules' floor y) := by
  refine .check rfl fun _ => ?_
  refine (C.reads_mark "with").bind fun _ _ _ word => ?_
  refine table.reads_memberInitializers.bind fun _ _ _ members => ?_
  exact .pure (C.operand_of_isPlain rfl (by simp)
    (.cons value.part (.cons word.part (.single members.group))))

theorem Table.rangeRest (table : C.Table rules rules') (floor : Nat) (ending : Ending)
    (from_ : C.Operand start position x y) :
    C.At position (C.Operand start) (rangeRest rules floor ending x)
      (rangeRest rules' floor ending y) := by
  refine .check rfl fun _ => ?_
  refine (C.reads_mark "..").bind fun _ _ _ dots => ?_
  refine (table.expression rangeLevel ending).maybe.bind fun _ _ _ stop => ?_
  exact .pure (C.operand_of_isPlain rfl (by simp)
    (((stop.toList.mono (·.part)).cons dots.part).cons from_.part))

theorem Table.extendExpression (table : C.Table rules rules') (floor : Nat) (ending : Ending)
    (front : C.Operand start position x y) :
    C.At position (C.Operand start) (extendExpression rules floor ending x)
      (extendExpression rules' floor ending y) :=
  (table.assignmentRest floor ending front).orElse <|
    (table.conditionalAccessRest floor ending front).orElse <|
    (table.conditionalRest floor ending front).orElse <|
    (table.testRest floor front).orElse <| (table.typeConversionRest floor front).orElse <|
    (table.switchRest floor front).orElse <| (table.withRest floor front).orElse <|
    (table.rangeRest floor ending front).orElse (table.binaryRest floor ending front)

end Extensions

theorem Table.reads_queryVariable (table : C.Table rules rules') :
    C.Reads (Chain C.Part) (queryVariable rules) (queryVariable rules') := by
  refine Reads.orElse (fun _ => ?_) fun _ => ?_
  · refine C.reads_name.bind fun _ _ _ word => ?_
    refine (C.looks_sees "in").bind fun _ => ?_
    refine .check rfl fun _ => ?_
    exact .pure (.single word.part)
  · refine table.type.bind fun _ _ _ type => ?_
    refine C.reads_name.bind fun _ _ _ word => ?_
    refine (C.looks_sees "in").bind fun _ => ?_
    refine .check rfl fun _ => ?_
    exact .pure (.cons type.part (.single word.part))

theorem Table.reads_wordAndValue (table : C.Table rules rules') (word : String) :
    C.Reads C.Parts (wordAndValue word rules) (wordAndValue word rules') := by
  intro start
  refine (C.reads_mark word).bind fun _ _ _ keyword => ?_
  refine (table.expression 0 .plain).bind fun _ _ _ value => ?_
  exact .pure ⟨.cons keyword.part (.single value.part), by simp⟩

theorem Table.reads_fromClause (table : C.Table rules rules') :
    C.Reads C.Part (fromClause rules) (fromClause rules') := by
  intro start
  refine (C.reads_mark "from").bind fun _ _ _ keyword => ?_
  refine table.reads_queryVariable.bind fun _ _ _ bound => ?_
  refine (table.reads_wordAndValue "in").bind fun _ _ _ source => ?_
  exact .pure (C.part_of_isFree rfl (by simp) ((bound.cons keyword.part).append source.chain))

theorem Table.reads_orderingKey (table : C.Table rules rules') :
    C.Reads C.Part (orderingKey rules) (orderingKey rules') := by
  intro start
  refine (table.expression 0 .plain).bind fun _ _ _ key => ?_
  refine (C.reads_markOneOf _).maybe.bind fun _ _ _ direction => ?_
  exact .pure (C.part_of_isFree rfl (by simp) ((direction.toList.mono (·.part)).cons key.part))

theorem reads_continuation (C : Correspondence left right) :
    C.Reads C.Parts continuation continuation := by
  intro start
  refine (C.reads_mark "into").bind fun _ _ _ word => ?_
  refine C.reads_name.bind fun _ _ _ bound => ?_
  exact .pure ⟨.cons word.part (.single bound.part), by simp⟩

theorem Table.reads_queryClause (table : C.Table rules rules') :
    C.Reads C.Part (queryClause rules) (queryClause rules') := by
  refine table.reads_fromClause.orElse <| Reads.orElse (fun _ => ?_) <| Reads.orElse (fun _ => ?_)
    <| Reads.orElse (fun _ => ?_) <| Reads.orElse (fun _ => ?_) <| Reads.orElse (fun _ => ?_)
    <| Reads.orElse (fun _ => ?_) fun _ => ?_
  · refine (C.reads_mark "let").bind fun _ _ _ keyword => ?_
    refine C.reads_name.bind fun _ _ _ word => ?_
    refine (table.reads_wordAndValue "=").bind fun _ _ _ value => ?_
    exact .pure (C.part_of_isFree rfl (by simp) ((value.chain.cons word.part).cons keyword.part))
  · exact (table.reads_wordAndValue "where").bind fun _ _ _ parts => .pure parts.group
  · refine (C.reads_mark "join").bind fun _ _ _ keyword => ?_
    refine table.reads_queryVariable.bind fun _ _ _ bound => ?_
    refine (table.reads_wordAndValue "in").bind fun _ _ _ source => ?_
    refine (table.reads_wordAndValue "on").bind fun _ _ _ one => ?_
    refine (table.reads_wordAndValue "equals").bind fun _ _ _ other => ?_
    refine (C.reads_continuation.mono (·.chain)).maybeAll.bind fun _ _ _ target => ?_
    exact .pure (C.part_of_isFree rfl (by simp)
      (((((bound.cons keyword.part).append source.chain).append one.chain).append
        other.chain).append target))
  · refine (C.reads_mark "orderby").bind fun _ _ _ keyword => ?_
    refine (table.reads_orderingKey.separated (·.part)).bind fun _ _ _ keys => ?_
    exact .pure (C.part_of_isFree rfl (by simp) (keys.cons keyword.part))
  · exact (table.reads_wordAndValue "select").bind fun _ _ _ parts => .pure parts.group
  · refine (table.reads_wordAndValue "group").bind fun _ _ _ source => ?_
    refine (table.reads_wordAndValue "by").bind fun _ _ _ key => ?_
    exact .pure (C.part_of_isFree rfl (by simp [source.nonempty]) (source.chain.append key.chain))
  · exact C.reads_continuation.bind fun _ _ _ parts => .pure parts.group

theorem Table.reads_query (table : C.Table rules rules') :
    C.Reads C.Operand (query rules) (query rules') := by
  intro start
  refine table.reads_fromClause.bind fun _ _ _ first => ?_
  refine table.reads_queryClause.many.bind fun _ following _ isFollowing => ?_
  refine .check (by rw [isFollowing.isEmpty_eq]) fun some => ?_
  cases following with
  | nil => cases some
  | cons => exact .pure (C.operand_of_isPlain rfl (by simp) (isFollowing.cons first))

theorem Table.reads_operand (table : C.Table rules rules') (ending : Ending) :
    C.Reads C.Operand (operand rules ending) (operand rules' ending) := by
  refine Reads.orElse (fun _ => ?_) <| table.reads_anonymousMethod.orElse <|
    table.reads_query.orElse <| (table.reads_wordOperand ending).orElse <|
    (table.reads_unaryOperand ending).orElse <| (table.reads_openRange ending).orElse <|
    (table.reads_castOperand ending).orElse table.reads_primaryOperand
  refine .check rfl fun _ => ?_
  exact table.reads_lambda ending _

theorem Table.reads_expressionRule (table : C.Table rules rules') (floor : Nat)
    (ending : Ending) :
    C.Reads C.Operand (expressionRule rules floor ending) (expressionRule rules' floor ending) := by
  intro start
  refine (table.reads_operand ending).bind fun _ _ _ first => ?_
  exact .iterate (fun _ _ _ front => table.extendExpression floor ending front) first

end Correspondence

end Grammar

end AssertionLint
