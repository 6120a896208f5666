import AssertionLint.Proofs.Grammar.Bodies
import AssertionLint.Proofs.Grammar.Patterns

/-!
# Operands side by side

The rules for operands read both documents in the same way. Each builds a node that may stand where
an expression is looked for: it has two parts at least, or its only part is a bare mark.
-/

namespace AssertionLint

namespace Grammar

namespace Correspondence

open Reader

variable {left right : Array Token} {C : Correspondence left right} {position : Nat}
  {rules rules' : Rules}

theorem reads_literalOperand (C : Correspondence left right) :
    C.Reads C.Operand literalOperand literalOperand := by
  intro start
  refine (C.reads_take fun _ _ _ _ => rfl).bind fun _ _ _ taken => ?_
  rw [taken.1.text_eq C, taken.1.kind_eq C]
  split <;> exact .pure (taken.1.operand C rfl)

theorem Table.reads_interpolationHole (table : C.Table rules rules') :
    C.Reads C.Part (interpolationHole rules) (interpolationHole rules') := by
  intro start
  refine (C.reads_take fun _ _ _ _ => rfl).bind fun _ _ _ opening => ?_
  refine (table.expression 0 .plain).bind fun _ _ _ value => ?_
  refine (Reads.maybeAll (V := C.Part) fun _ => ?_).bind fun _ _ _ alignment => ?_
  · refine (C.reads_mark ",").bind fun _ _ _ comma => ?_
    refine (table.expression 0 .plain).bind fun _ _ _ width => ?_
    exact .pure (.cons comma.part (.single width.part))
  · refine (C.reads_take fun _ _ _ _ => rfl).maybe.bind fun _ _ _ format => ?_
    refine (C.reads_take fun _ _ _ _ => rfl).bind fun _ _ _ closing => ?_
    have formatPart := format.map (W := C.Part) fun taken => (taken.1.mark C).part
    exact .pure (C.part_of_isFree rfl (by simp)
      ((((alignment.cons value.part).cons (opening.1.mark C).part).append formatPart.toList).append
        (.single (closing.1.mark C).part)))

theorem Table.reads_interpolatedString (table : C.Table rules rules') :
    C.Reads C.Operand (interpolatedString rules) (interpolatedString rules') := by
  intro start
  refine (C.reads_take fun _ _ _ _ => rfl).bind fun _ _ _ first => ?_
  refine (Reads.orElse table.reads_interpolationHole fun _ => ?_).many.bind fun _ _ _ parts => ?_
  · refine (C.reads_take fun _ _ _ _ => rfl).bind fun _ _ _ text => ?_
    exact .pure (text.1.mark C).part
  · refine (C.reads_take fun _ _ _ _ => rfl).bind fun _ _ _ last => ?_
    exact .pure (C.operand_of_isPlain rfl (by simp)
      ((parts.cons (first.1.mark C).part).append (.single (last.1.mark C).part)))

theorem looks_seesGenericNameEnd (C : Correspondence left right) :
    C.Looks seesGenericNameEnd seesGenericNameEnd := by
  intro start
  refine .peek 0 fun _ _ peeked => ?_
  cases peeked with
  | none => exact .pure ⟨rfl, rfl⟩
  | some kind text span span' =>
    refine .ite rfl (fun _ => ?_) fun _ => .pure ⟨rfl, rfl⟩
    refine .peek 1 fun _ _ peeked => ?_
    rw [peeked.any_eq fun _ _ _ _ => rfl]
    exact .pure ⟨rfl, rfl⟩

theorem Table.reads_simpleName (table : C.Table rules rules') :
    C.Reads C.TypePart (simpleName rules) (simpleName rules') := by
  intro start
  refine C.reads_name.bind fun _ _ _ word => ?_
  refine At.orElse ?_ (.pure word)
  refine table.reads_typeArguments.bind fun _ _ _ arguments => ?_
  refine C.looks_seesGenericNameEnd.bind fun _ => ?_
  refine .check rfl fun _ => ?_
  exact .pure (C.type_of_inner rfl (by simp) (.cons word.inner (.single arguments)))

theorem Table.reads_nameOperand (table : C.Table rules rules') :
    C.Reads C.TypePart (nameOperand rules) (nameOperand rules') := by
  refine Reads.orElse (fun _ => ?_) (Reads.orElse (fun _ => ?_) fun _ => ?_)
  · refine C.reads_keywordType.bind fun _ _ _ type => ?_
    refine (C.looks_sees ".").bind fun _ => ?_
    refine .check rfl fun _ => ?_
    exact .pure type
  · refine C.reads_name.bind fun _ _ _ aliasName => ?_
    refine (C.reads_mark "::").bind fun _ _ _ colons => ?_
    refine table.reads_simpleName.bind fun _ _ _ member => ?_
    exact .pure (C.type_of_inner rfl (by simp)
      (.cons aliasName.inner (.cons (colons.inner (by simp)) (.single member.inner))))
  · refine .peek 0 fun _ _ peeked => ?_
    refine .check (by rw [peeked.any_eq fun _ _ _ _ => rfl]) fun _ => ?_
    exact table.reads_simpleName _

theorem Table.reads_typeOperator (table : C.Table rules rules') (keyword : String) {form : Form}
    (plain : form.isPlain = true) :
    C.Reads C.Operand (typeOperator keyword form rules) (typeOperator keyword form rules') := by
  intro start
  refine (C.reads_mark keyword).bind fun _ _ _ word => ?_
  refine (C.reads_mark "(").bind fun _ _ _ opening => ?_
  refine table.type.bind fun _ _ _ type => ?_
  refine (C.reads_mark ")").bind fun _ _ _ closing => ?_
  exact .pure (C.operand_of_isPlain plain (by simp)
    (.cons word.part (.cons opening.part (.cons type.part (.single closing.part)))))

theorem Table.reads_valueOperator (table : C.Table rules rules') (keyword name : String) :
    C.Reads C.Operand (valueOperator keyword name rules) (valueOperator keyword name rules') := by
  intro start
  refine (C.reads_mark keyword).bind fun _ _ _ word => ?_
  refine (C.reads_mark "(").bind fun _ _ _ opening => ?_
  refine (table.expression 0 .plain).bind fun _ _ _ value => ?_
  refine (C.reads_mark ")").bind fun _ _ _ closing => ?_
  exact .pure (C.operand_of_isPlain rfl (by simp)
    (.cons word.part (.cons opening.part (.cons value.part (.single closing.part)))))

theorem Table.reads_referenceValue (table : C.Table rules rules') :
    C.Reads C.Operand (referenceValue rules) (referenceValue rules') := by
  intro start
  refine (C.reads_mark "__refvalue").bind fun _ _ _ word => ?_
  refine (C.reads_mark "(").bind fun _ _ _ opening => ?_
  refine (table.expression 0 .plain).bind fun _ _ _ value => ?_
  refine (C.reads_mark ",").bind fun _ _ _ comma => ?_
  refine table.type.bind fun _ _ _ type => ?_
  refine (C.reads_mark ")").bind fun _ _ _ closing => ?_
  exact .pure (C.operand_of_isPlain rfl (by simp)
    (.cons word.part (.cons opening.part (.cons value.part (.cons comma.part
      (.cons type.part (.single closing.part)))))))

theorem reads_defaultLiteral (C : Correspondence left right) :
    C.Reads C.Operand defaultLiteral defaultLiteral := by
  intro start
  refine (C.reads_take fun _ _ _ _ => rfl).bind fun _ _ _ taken => ?_
  rw [taken.1.text_eq C]
  exact .pure (taken.1.operand C rfl)

theorem Table.reads_keywordOperand (table : C.Table rules rules') :
    C.Reads C.Operand (keywordOperand rules) (keywordOperand rules') :=
  (table.reads_typeOperator "typeof" rfl).orElse <|
    (table.reads_typeOperator "sizeof" rfl).orElse <|
    (table.reads_typeOperator "default" rfl).orElse <|
    C.reads_defaultLiteral.orElse <|
    (table.reads_valueOperator "checked" "checked_expression").orElse <|
    (table.reads_valueOperator "unchecked" "checked_expression").orElse <|
    (table.reads_valueOperator "__makeref" "makeref_expression").orElse <|
    (table.reads_valueOperator "__reftype" "reftype_expression").orElse <|
    table.reads_referenceValue.orElse (C.reads_markOneOf _)

theorem Table.reads_createdArrayType (table : C.Table rules rules') :
    C.Reads C.TypePart (createdArrayType rules) (createdArrayType rules') := by
  intro start
  refine table.reads_createdType.bind fun _ _ _ element => ?_
  refine (element.sizedSuffix table).bind fun _ _ _ array => ?_
  exact .iterate (fun _ _ _ type => type.arraySuffix) array

theorem Table.reads_anonymousMember (table : C.Table rules rules') :
    C.Reads (Chain C.Part) (anonymousMember rules) (anonymousMember rules') := by
  intro start
  refine (Reads.maybeAll (V := C.Part) fun _ => ?_).bind fun _ _ _ label => ?_
  · refine C.reads_name.bind fun _ _ _ word => ?_
    refine (C.reads_mark "=").bind fun _ _ _ equals => ?_
    exact .pure (.cons word.part (.single equals.part))
  · refine (table.expression 0 .plain).bind fun _ _ _ value => ?_
    exact .pure (label.append (.single value.part))

theorem Table.reads_memberInitializers (table : C.Table rules rules') :
    C.Reads C.Parts (memberInitializers rules) (memberInitializers rules') := by
  intro start
  refine (C.reads_mark "\x7b").bind fun _ _ _ opening => ?_
  refine table.reads_anonymousMember.maybeAll.bind fun _ _ _ first => ?_
  refine (Reads.many (V := Chain C.Part) fun _ => ?_).bind fun _ _ _ following => ?_
  · refine (C.reads_mark ",").bind fun _ _ _ comma => ?_
    refine table.reads_anonymousMember.bind fun _ _ _ next => ?_
    exact .pure (next.cons comma.part)
  · refine (C.reads_trailing ",").bind fun _ _ _ comma => ?_
    refine (C.reads_mark "\x7d").bind fun _ _ _ closing => ?_
    exact .pure ⟨(((first.cons opening.part).append following.flatten).append
      (comma.mono (·.part))).append (.single closing.part), by simp⟩

theorem Table.reads_creation (table : C.Table rules rules') :
    C.Reads C.Operand (creation rules) (creation rules') := by
  intro start
  refine (C.reads_mark "new").bind fun _ _ _ keyword => ?_
  refine At.orElse ?_ (At.orElse ?_ (At.orElse ?_ (At.orElse ?_ ?_)))
  · refine (C.reads_mark "[").bind fun _ _ _ opening => ?_
    refine (C.reads_mark ",").many.bind fun _ _ _ commas => ?_
    refine (C.reads_mark "]").bind fun _ _ _ closing => ?_
    refine table.reads_initializer.bind fun _ _ _ elements => ?_
    exact .pure (C.operand_of_isPlain rfl (by simp)
      ((((commas.mono (·.part)).cons opening.part).cons keyword.part).append
        (.cons closing.part (.single elements.part))))
  · refine table.reads_memberInitializers.bind fun _ _ _ members => ?_
    exact .pure (C.operand_of_isPlain rfl (Nat.succ_le_succ members.length_pos)
      (members.chain.cons keyword.part))
  · refine table.reads_createdArrayType.bind fun _ _ _ type => ?_
    refine table.reads_initializer.maybe.bind fun _ _ _ elements => ?_
    exact .pure (C.operand_of_isPlain rfl (by simp)
      (((elements.toList.mono (·.part)).cons type.part).cons keyword.part))
  · refine (C.looks_sees "(").bind fun _ => ?_
    refine .check rfl fun _ => ?_
    refine table.reads_createdType.bind fun _ _ _ type => ?_
    refine table.reads_argumentList.maybe.bind fun _ _ _ arguments => ?_
    refine table.reads_initializer.maybe.bind fun _ _ _ members => ?_
    exact .pure (C.operand_of_isPlain rfl (by simp)
      ((((arguments.toList.mono (·.part)).cons (type.withRole .type).part).cons keyword.part).append
        (members.toList.mono (·.part))))
  · refine table.reads_argumentList.bind fun _ _ _ arguments => ?_
    refine table.reads_initializer.maybe.bind fun _ _ _ members => ?_
    exact .pure (C.operand_of_isPlain rfl (by simp)
      (((members.toList.mono (·.part)).cons arguments.part).cons keyword.part))

theorem Table.reads_stackAllocation (table : C.Table rules rules') :
    C.Reads C.Operand (stackAllocation rules) (stackAllocation rules') := by
  intro start
  refine (C.reads_mark "stackalloc").bind fun _ _ _ keyword => ?_
  refine At.orElse ?_ ?_
  · refine (C.reads_mark "[").bind fun _ _ _ opening => ?_
    refine (C.reads_mark "]").bind fun _ _ _ closing => ?_
    refine table.reads_initializer.bind fun _ _ _ elements => ?_
    exact .pure (C.operand_of_isPlain rfl (by simp)
      (.cons keyword.part (.cons opening.part (.cons closing.part (.single elements.part)))))
  · refine table.reads_createdArrayType.bind fun _ _ _ type => ?_
    refine table.reads_initializer.maybe.bind fun _ _ _ elements => ?_
    exact .pure (C.operand_of_isPlain rfl (by simp)
      (((elements.toList.mono (·.part)).cons type.part).cons keyword.part))

theorem Table.reads_lambdaBody (table : C.Table rules rules') (ending : Ending) :
    C.Reads C.Operand (lambdaBody rules ending) (lambdaBody rules' ending) := by
  intro start
  refine (C.looks_sees "\x7b").bind fun _ => ?_
  refine .ite rfl (fun _ => ?_) fun _ => ?_
  · exact table.statement.bind fun _ _ _ body => .pure (body.withRole .body)
  · exact (table.expression 0 ending).bind fun _ _ _ body => .pure (body.withRole .body)

theorem Table.reads_lambdaParameters (table : C.Table rules rules') :
    C.Reads C.Operand (lambdaParameters rules) (lambdaParameters rules') := by
  intro start
  refine (C.looks_sees "(").bind fun _ => ?_
  refine .ite rfl (fun _ => ?_) fun _ => ?_
  · refine .behindBrackets fun _ _ peeked => ?_
    refine .check (by rw [peeked.any_eq fun _ _ _ _ => rfl]) fun _ => ?_
    exact table.reads_parameterList _
  · refine (C.looks_seesAt 1 _).bind fun _ => ?_
    refine .check rfl fun _ => ?_
    exact (C.reads_name _).mono (·.toOperand)

theorem Table.reads_lambdaType (table : C.Table rules rules') :
    C.Reads C.HeadPart (lambdaType rules) (lambdaType rules') := by
  intro start
  refine table.type.bind fun _ _ _ type => ?_
  refine (C.looks_sees "(").bind fun _ => ?_
  refine (C.looks_seesNameAt 0).bind fun _ => ?_
  refine .check rfl fun _ => ?_
  exact .pure (type.toOperand.head .type (by simp))

theorem reads_headOneOf (C : Correspondence left right) (texts : List String) :
    C.Reads C.HeadPart (markOneOf texts) (markOneOf texts) :=
  ((C.reads_markOneOf texts).gives roleless_markOneOf).mono fun both => both.1.headOfRole both.2

theorem Table.reads_lambda (table : C.Table rules rules') (ending : Ending) :
    C.Reads C.Operand (lambda rules ending) (lambda rules' ending) := by
  intro start
  refine (C.reads_attributeList.gives roleless_attributeList).many.bind fun _ _ _ attributes => ?_
  refine (Reads.many (V := C.HeadPart) fun _ => ?_).bind fun _ _ _ modifiers => ?_
  · refine (C.looks_seesTypeAt 1).bind fun _ => ?_
    refine (C.looks_seesAt 1 _).bind fun _ => ?_
    refine .check rfl fun _ => ?_
    exact C.reads_headOneOf _ _
  have leading := (attributes.mono fun both => both.1.headOfRole both.2).append modifiers
  refine At.orElse ?_ ?_
  · refine table.reads_lambdaParameters.bind fun _ _ _ parameters => ?_
    refine (C.reads_mark "=>").bind fun _ _ _ arrow => ?_
    refine (table.reads_lambdaBody ending).bind fun _ _ _ body => ?_
    have front := leading.append
      (.cons (parameters.head .parameters (by simp)) (.single arrow.head))
    have lambda := C.operand_of_lambda (by simp) front body
    simp only [List.append_assoc] at lambda
    simp only [List.append_assoc]
    exact .pure lambda
  · refine table.reads_lambdaType.bind fun _ _ _ type => ?_
    refine table.reads_lambdaParameters.bind fun _ _ _ parameters => ?_
    refine (C.reads_mark "=>").bind fun _ _ _ arrow => ?_
    refine (table.reads_lambdaBody ending).bind fun _ _ _ body => ?_
    refine (C.looks_sees ":").bind fun _ => ?_
    refine .check (by rw [C.form_eq type.part]) fun _ => ?_
    have front := leading.append (.cons type (.cons (parameters.head .parameters (by simp))
      (.single arrow.head)))
    have lambda := C.operand_of_lambda (by simp) front body
    simp only [List.append_assoc] at lambda
    simp only [List.append_assoc]
    exact .pure lambda

theorem Table.reads_anonymousMethod (table : C.Table rules rules') :
    C.Reads C.Operand (anonymousMethod rules) (anonymousMethod rules') := by
  intro start
  refine (Reads.many (V := C.HeadPart) fun _ => ?_).bind fun _ _ _ modifiers => ?_
  · refine (C.looks_seesAt 1 _).bind fun _ => ?_
    refine .check rfl fun _ => ?_
    exact C.reads_headOneOf _ _
  · refine (C.reads_mark "delegate").bind fun _ _ _ keyword => ?_
    refine table.reads_parameterList.maybe.bind fun _ _ _ parameters => ?_
    refine (C.looks_sees "\x7b").bind fun _ => ?_
    refine .check rfl fun _ => ?_
    refine table.statement.bind fun _ _ _ body => ?_
    have parameterPart := parameters.map (W := C.HeadPart) fun list =>
      list.head .parameters (by simp)
    have front := modifiers.append (parameterPart.toList.cons keyword.head)
    exact .pure (C.operand_of_lambda (by simp) front (body.withRole .body))

theorem looks_seesClause (C : Correspondence left right) : C.Looks seesClause seesClause := by
  have called (endings : List String) : C.Looks (holds do
      let word ← name
      check (← sees "(")
      check (!(← behindBrackets?).any fun token =>
        token.isOneOf endings || (startsOperand token && token.kind != .mark))
      return word) (holds do
      let word ← name
      check (← sees "(")
      check (!(← behindBrackets?).any fun token =>
        token.isOneOf endings || (startsOperand token && token.kind != .mark))
      return word) := by
    refine Reads.holds (V := fun _ _ _ _ => True) fun _ => ?_
    refine C.reads_name.bind fun _ _ _ _ => ?_
    refine (C.looks_sees "(").bind fun _ => ?_
    refine .check rfl fun _ => ?_
    refine .behindBrackets fun _ _ peeked => ?_
    refine .check (by rw [peeked.any_eq fun _ _ _ _ => rfl]) fun _ => ?_
    exact .pure trivial
  intro start
  refine (C.looks_seesOneOf _).bind fun _ => ?_
  refine .ite rfl (fun _ => ?_) fun _ => ?_
  · exact (called _).bind fun _ => .pure ⟨rfl, rfl⟩
  · refine (C.looks_sees "group").bind fun _ => ?_
    refine (C.looks_seesAt 1 _).bind fun _ => ?_
    refine .ite rfl (fun _ => ?_) fun _ => ?_
    · exact (called _).bind fun _ => .pure ⟨rfl, rfl⟩
    · exact C.looks_seesNamedClause _

theorem Table.reads_castOperand (table : C.Table rules rules') (ending : Ending) :
    C.Reads C.Operand (castOperand rules ending) (castOperand rules' ending) := by
  intro start
  refine (C.looks_sees "(").bind fun _ => ?_
  refine .behindBrackets fun _ _ peeked => ?_
  refine .check (by rw [peeked.any_eq fun _ _ _ _ => rfl]) fun _ => ?_
  refine (C.reads_mark "(").bind fun _ _ _ opening => ?_
  refine table.reads_castType.bind fun _ _ _ type => ?_
  refine (C.reads_mark ")").bind fun _ _ _ closing => ?_
  refine C.looks_seesClause.bind fun _ => ?_
  refine .check rfl fun _ => ?_
  refine (C.looks_sees "*").bind fun _ => ?_
  refine (table.expression unaryLevel ending).bind fun _ _ _ value => ?_
  refine .peek 0 fun _ _ peeked => ?_
  refine .check (by rw [peeked.any_eq fun _ _ _ _ => rfl]) fun _ => ?_
  exact .pure (C.operand_of_operands rfl (by simp) (by simp)
    (.cons opening.toOperand (.cons (type.withRole .type).toOperand
      (.cons closing.toOperand (.single (value.withRole .value))))))

/-- An argument, or what may stand alone between parentheses. -/
structure FirstPart (C : Correspondence left right) (start stop : Nat) (x y : Node) : Prop where
  part : C.Part start stop x y
  isOperand : x.form ≠ .argument → x.IsOperand
  isValue : x.form ≠ .argument → x.IsValue

theorem Value.first {start stop : Nat} {x y : Node} (value : C.Value start stop x y) :
    C.FirstPart start stop x y :=
  ⟨value.part, fun _ => value.isOperand, fun _ => value.isValue⟩

theorem FirstPart.asArgument {start stop : Nat} {x y : Node}
    (first : C.FirstPart start stop x y) :
    C.Part start stop (if x.form == .argument then x else .branch .argument [x])
      (if y.form == .argument then y else .branch .argument [y]) := by
  rw [C.form_eq first.part]
  split
  · exact first.part
  · rename_i other
    have noArgument : x.form ≠ .argument := by simpa using other
    exact argument_of_value .nil
      ⟨⟨first.part, first.isOperand noArgument⟩, first.isValue noArgument⟩

theorem Table.reads_firstElement (table : C.Table rules rules') :
    C.Reads C.FirstPart (firstElement rules) (firstElement rules') := by
  refine Reads.orElse (fun _ => ?_)
    (Reads.orElse (fun _ => ?_) (table.reads_value.mono (·.first)))
  · refine C.reads_argumentLabel.bind fun _ _ _ label => ?_
    refine table.reads_value.bind fun _ _ _ value => ?_
    exact .pure ⟨argument_of_value label value, fun other => absurd rfl other,
      fun other => absurd rfl other⟩
  · refine (table.reads_declarationExpression.gives gives_declarationExpression).bind
      fun _ _ _ declared => ?_
    refine (C.looks_sees ",").bind fun _ => ?_
    refine .check rfl fun _ => ?_
    exact .pure (Value.first ⟨declared.1, declared.2⟩)

theorem Table.reads_parenthesizedOperand (table : C.Table rules rules') :
    C.Reads C.Operand (parenthesizedOperand rules) (parenthesizedOperand rules') := by
  intro start
  refine (C.reads_mark "(").bind fun _ _ _ opening => ?_
  refine table.reads_firstElement.bind fun _ _ _ first => ?_
  refine (Reads.many (V := Chain C.Part) fun _ => ?_).bind fun _ _ _ following => ?_
  · refine (C.reads_mark ",").bind fun _ _ _ comma => ?_
    refine table.reads_argument.bind fun _ _ _ element => ?_
    exact .pure (.cons comma.part (.single element.part))
  refine (C.reads_mark ")").bind fun _ _ _ closing => ?_
  refine .ite following.isEmpty_eq (fun none => ?_) fun _ => ?_
  · refine .check (by rw [C.form_eq first.part]) fun other => ?_
    have value : C.Operand _ _ _ _ := ⟨first.part, first.isOperand (by simpa using other)⟩
    cases following with
    | nil =>
      exact .pure (C.operand_of_operands rfl (by simp) (by simp)
        (.cons opening.toOperand (.cons value (.single closing.toOperand))))
    | cons => cases none
  · exact .pure (C.operand_of_isPlain rfl (by simp)
      (((following.flatten.cons first.asArgument).cons opening.part).append
        (.single closing.part)))

theorem Table.reads_unaryOperand (table : C.Table rules rules') (ending : Ending) :
    C.Reads C.Operand (unaryOperand rules ending) (unaryOperand rules' ending) := by
  refine Reads.orElse (fun _ => ?_) fun _ => ?_
  · refine (C.reads_markOneOf _).bind fun _ _ _ operator => ?_
    refine (table.expression unaryLevel ending).bind fun _ _ _ operand => ?_
    exact .pure (C.operand_of_operands rfl (by simp) (by simp) (.cons operator (.single operand)))
  · unfold doubledReference
    rw [bind_assoc, bind_assoc]
    refine (C.reads_take fun _ _ _ _ => rfl).bind fun _ _ _ taken => ?_
    rw [pure_bind, pure_bind]
    refine (table.expression unaryLevel ending).bind fun _ _ _ operand => ?_
    rcases taken with ⟨⟨one, two, rfl⟩, is⟩
    exact .pure ⟨C.doubled one two is operand.part operand.isOperand,
      .of_length (by simp) (by simp)⟩

theorem Table.reads_wordOperand (table : C.Table rules rules') (ending : Ending) :
    C.Reads C.Operand (wordOperand rules ending) (wordOperand rules' ending) := by
  refine Reads.orElse (fun _ => ?_) (Reads.orElse (fun _ => ?_) fun _ => ?_)
  · refine (C.reads_mark "throw").bind fun _ _ _ word => ?_
    refine (table.expression 0 ending).bind fun _ _ _ value => ?_
    exact .pure (C.operand_of_isPlain rfl (by simp) (.cons word.part (.single value.part)))
  · refine (C.reads_mark "ref").bind fun _ _ _ word => ?_
    refine (table.expression 0 ending).bind fun _ _ _ value => ?_
    exact .pure (C.operand_of_isPlain rfl (by simp) (.cons word.part (.single value.part)))
  · refine (C.reads_mark "await").bind fun _ _ _ word => ?_
    refine .peek 0 fun _ _ peeked => ?_
    refine .check (peeked.any_eq fun _ _ _ _ => rfl) fun _ => ?_
    refine (table.expression unaryLevel ending).bind fun _ _ _ value => ?_
    exact .pure (C.operand_of_isPlain rfl (by simp) (.cons word.part (.single value.part)))

theorem Table.reads_openRange (table : C.Table rules rules') (ending : Ending) :
    C.Reads C.Operand (openRange rules ending) (openRange rules' ending) := by
  intro start
  refine (C.reads_mark "..").bind fun _ _ _ dots => ?_
  refine (table.expression rangeLevel ending).maybe.bind fun _ _ _ stop => ?_
  cases stop with
  | some stop =>
    exact .pure (C.operand_of_isPlain rfl (by simp) (.cons dots.part (.single stop.part)))
  | none => exact .pure (dots.alone rfl (by simp))

section Extensions

variable {start : Nat} {x y : Node}

theorem Table.extendOperand (table : C.Table rules rules')
    (operand : C.Operand start position x y) :
    C.At position (C.Operand start) (extendOperand rules x) (extendOperand rules' y) := by
  refine At.orElse ?_ (At.orElse ?_ (At.orElse ?_ (At.orElse ?_ ?_)))
  · refine (C.reads_mark ".").bind fun _ _ _ dot => ?_
    refine table.reads_simpleName.bind fun _ _ _ member => ?_
    exact .pure (C.operand_of_operands rfl (by simp) (by simp)
      (.cons operand (.cons dot.toOperand (.single member.toOperand))))
  · refine table.reads_argumentList.bind fun _ _ _ arguments => ?_
    exact .pure (C.operand_of_call operand arguments)
  · refine (table.reads_indexList rfl).bind fun _ _ _ index => ?_
    exact .pure (C.operand_of_isPlain rfl (by simp) (.cons operand.part (.single index.part)))
  · refine (C.reads_markOneOf _).bind fun _ _ _ operator => ?_
    exact .pure (C.operand_of_isPlain rfl (by simp) (.cons operand.part (.single operator.part)))
  · refine (C.reads_mark "->").bind fun _ _ _ arrow => ?_
    refine table.reads_simpleName.bind fun _ _ _ member => ?_
    exact .pure (C.operand_of_isPlain rfl (by simp)
      (.cons operand.part (.cons arrow.part (.single member.part))))

end Extensions

/-- Stars in front of a pointer, from the inside out. -/
theorem operand_of_stars (C : Correspondence left right) {start middle stop : Nat}
    {stars stars' : List Node} {x y : Node} (chain : Chain C.Operand start middle stars stars')
    (pointer : C.Operand middle stop x y) :
    C.Operand start stop
      (stars.foldr (fun operator operand => .branch .prefixUnary [operator, operand]) x)
      (stars'.foldr (fun operator operand => .branch .prefixUnary [operator, operand]) y) := by
  induction chain with
  | nil => exact pointer
  | cons star _ ih =>
    exact C.operand_of_operands rfl (by simp) (by simp) (.cons star (.single (ih pointer)))

theorem Table.reads_pointedOperand (table : C.Table rules rules') :
    C.Reads C.Operand (pointedOperand rules) (pointedOperand rules') := by
  intro start
  refine (C.reads_mark "*").bind fun _ _ _ star => ?_
  refine (C.reads_mark "*").many.bind fun _ _ _ following => ?_
  refine (table.reads_parenthesizedOperand.orElse <|
    ((C.reads_mark "this").mono (·.toOperand)).orElse <|
    (table.reads_indexList rfl).orElse (table.reads_simpleName.mono (·.toOperand))).bind
      fun _ _ _ pointer => ?_
  refine .check (C.isAssignable_eq pointer.part) fun _ => ?_
  exact .pure (C.operand_of_stars (.cons star.toOperand (following.mono (·.toOperand))) pointer)

theorem Table.reads_primaryOperand (table : C.Table rules rules') :
    C.Reads C.Operand (primaryOperand rules) (primaryOperand rules') := by
  intro start
  refine (C.reads_literalOperand.orElse <| table.reads_interpolatedString.orElse <|
    table.reads_creation.orElse <| table.reads_stackAllocation.orElse <|
    table.reads_keywordOperand.orElse <| table.reads_parenthesizedOperand.orElse <|
    table.reads_initializer.orElse <| (table.reads_indexList rfl).orElse <|
    (table.reads_nameOperand.mono (·.toOperand)).orElse table.reads_pointedOperand).bind
      fun _ _ _ primary => ?_
  exact .iterate (fun _ _ _ operand => table.extendOperand operand) primary

end Correspondence

end Grammar

end AssertionLint
