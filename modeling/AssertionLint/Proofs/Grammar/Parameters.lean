import AssertionLint.Proofs.Grammar.Types

/-!
# Parameters and arguments side by side

The rules that methods, lambdas and calls share read both documents in the same way. What stands in
an argument and behind an equals sign may stand where an expression is looked for.
-/

namespace AssertionLint

namespace Grammar

namespace Correspondence

open Reader

variable {left right : Array Token} {C : Correspondence left right} {rules rules' : Rules}

theorem reads_attributeList (C : Correspondence left right) :
    C.Reads C.Operand attributeList attributeList := by
  intro start
  refine (C.looks_sees "[").bind fun _ => ?_
  refine .check rfl fun _ => ?_
  exact C.reads_bracketed rfl (by simp) _

theorem reads_parameterModifier (C : Correspondence left right) :
    C.Reads C.Operand parameterModifier parameterModifier := by
  intro start
  refine (C.reads_take (isBlind_isOneOf _)).bind fun _ _ _ taken => ?_
  refine (C.looks_sees "ref").bind fun _ => ?_
  refine (C.looks_seesNameAt 1).bind fun _ => ?_
  refine (C.looks_seesAt 1 ["<", "."]).bind fun _ => ?_
  rw [taken.1.text_eq C]
  refine .check rfl fun _ => ?_
  exact .pure (taken.1.operand C rfl)

theorem Table.reads_defaultValue (table : C.Table rules rules') :
    C.Reads (Chain C.Operand) (defaultValue rules) (defaultValue rules') := by
  intro start
  refine (C.reads_mark "=").bind fun _ _ _ equals => ?_
  refine (table.expression 0 .plain).bind fun _ _ _ value => ?_
  exact .pure (.cons equals.toOperand (.single value))

theorem Table.reads_parameter (table : C.Table rules rules') :
    C.Reads C.Part (parameter rules) (parameter rules') := by
  intro start
  refine C.reads_attributeList.many.bind fun _ _ _ attributes => ?_
  refine C.reads_parameterModifier.many.bind fun _ _ _ modifiers => ?_
  refine (Reads.orElse (V := C.Parts) (fun _ => ?_) fun _ => ?_).bind fun _ _ _ typed => ?_
  · refine table.type.bind fun _ _ _ type => ?_
    refine C.reads_name.bind fun _ _ _ word => ?_
    exact .pure ⟨.cons (type.withRole .type).part (.single (word.withRole .name).part), by simp⟩
  · refine C.reads_name.bind fun _ _ _ word => ?_
    exact .pure ⟨.single (word.withRole .name).part, by simp⟩
  · refine table.reads_defaultValue.maybeAll.bind fun _ _ _ value => ?_
    exact .pure (C.part_of_isFree rfl (by simp [typed.nonempty])
      ((((attributes.mono (·.part)).append (modifiers.mono (·.part))).append typed.chain).append
        (value.mono (·.part))))

theorem Table.reads_parametersBetween (table : C.Table rules rules') (opening closing : String) :
    C.Reads C.Operand (parametersBetween opening closing rules)
      (parametersBetween opening closing rules') := by
  intro start
  refine (C.reads_mark opening).bind fun _ _ _ first => ?_
  refine (table.reads_parameter.separated (·.part)).maybeAll.bind fun _ _ _ parameters => ?_
  refine (C.reads_mark closing).bind fun _ _ _ last => ?_
  exact .pure (C.operand_of_isPlain rfl (by simp)
    ((parameters.cons first.part).append (.single last.part)))

theorem Table.reads_parameterList (table : C.Table rules rules') :
    C.Reads C.Operand (parameterList rules) (parameterList rules') :=
  table.reads_parametersBetween "(" ")"

theorem reads_designation (C : Correspondence left right) :
    C.Reads C.TypePart designation designation := by
  intro start
  refine (C.looks_seesOneOf _).bind fun _ => ?_
  refine C.looks_seesNamedClause.bind fun _ => ?_
  refine .check rfl fun _ => ?_
  exact C.reads_name _

theorem Table.reads_declarationExpression (table : C.Table rules rules') :
    C.Reads C.Operand (declarationExpression rules) (declarationExpression rules') := by
  intro start
  refine (C.looks_sees "await").bind fun _ => ?_
  refine .check rfl fun _ => ?_
  refine table.type.bind fun _ _ _ type => ?_
  refine C.reads_name.bind fun _ _ _ word => ?_
  exact .pure (C.operand_of_isPlain rfl (by simp)
    (.cons (type.withRole .type).part (.single (word.withRole .name).part)))

/-- Nodes that stand beside the expression of an argument. -/
structure Beside (C : Correspondence left right) (start stop : Nat) (x y : Node) :
    Prop extends C.Operand start stop x y where
  isBeside : x.form.isNamed = false ∨ x.role = some .name

theorem reads_argumentLabel (C : Correspondence left right) :
    C.Reads (Chain C.Beside) argumentLabel argumentLabel := by
  intro start
  refine C.reads_name.bind fun _ _ _ word => ?_
  refine (C.reads_mark ":").bind fun _ _ _ colon => ?_
  exact .pure (.cons ⟨(word.withRole .name).toOperand, .inr Node.role_withRole⟩
    (.single ⟨colon.toOperand, .inl (by rw [colon.isMark]; rfl)⟩))

/-- An expression behind what stands beside it. -/
theorem argument_of_value {start middle stop : Nat} {xs ys : List Node} {x y : Node}
    (front : Chain C.Beside start middle xs ys) (value : C.Value middle stop x y) :
    C.Part start stop (.branch .argument (xs ++ [x])) (.branch .argument (ys ++ [y])) := by
  have chain : Chain C.Operand start stop (xs ++ [x]) (ys ++ [y]) :=
    (front.mono (·.toOperand)).append (.single value.toOperand)
  apply C.branch (chain.mono (·.part))
  exact .of_argument (chain.forall_mem (·.isOperand))
    ⟨xs, x, rfl, value.isValue, front.forall_mem (·.isBeside)⟩

/-- Nodes that are arguments. -/
structure ArgumentPart (C : Correspondence left right) (start stop : Nat) (x y : Node) : Prop where
  part : C.Part start stop x y
  isArgument : x.form = .argument

/-- What stands between the parentheses of a list. -/
structure ArgumentParts (C : Correspondence left right) (start stop : Nat) (xs ys : List Node) :
    Prop where
  chain : Chain C.Part start stop xs ys
  areArguments : xs ≠ [] → Node.AreArguments xs

theorem Table.reads_argument (table : C.Table rules rules') :
    C.Reads C.ArgumentPart (argument rules) (argument rules') := by
  intro start
  refine C.reads_argumentLabel.maybeAll.bind fun _ _ _ label => ?_
  refine ((C.reads_markOneOf _).gives gives_markOneOf).maybe.bind fun _ _ _ modifier => ?_
  have beside := modifier.toList.mono fun both => Beside.mk both.1 (.inl both.2)
  refine (Reads.orElse (fun _ => ?_) table.reads_value).bind fun _ _ _ value => ?_
  · refine (table.reads_declarationExpression.gives gives_declarationExpression).bind
      fun _ _ _ declared => ?_
    refine (C.looks_seesOneOf _).bind fun _ => ?_
    refine .check rfl fun _ => ?_
    exact .pure ⟨declared.1, declared.2⟩
  · exact .pure ⟨argument_of_value (label.append beside) value, rfl⟩

theorem Table.reads_arguments (table : C.Table rules rules') :
    C.Reads C.ArgumentParts (separated "," (argument rules)) (separated "," (argument rules')) := by
  intro start
  refine table.reads_argument.bind fun _ _ _ first => ?_
  refine (Reads.many (V := fun start stop xs ys => Chain C.Part start stop xs ys ∧
    ∃ comma argument, xs = [comma, argument] ∧ comma.IsMark "," ∧ argument.form = .argument)
    fun _ => ?_).bind fun _ _ _ following => ?_
  · refine (C.reads_mark ",").bind fun _ _ _ comma => ?_
    refine table.reads_argument.bind fun _ _ _ next => ?_
    exact .pure ⟨.cons comma.part (.single next.part), _, _, rfl,
      ⟨comma.isMark, comma.isBare⟩, next.isArgument⟩
  · exact .pure ⟨.cons first.part (following.mono (·.1)).flatten,
      fun _ => Node.areArguments_flatten first.isArgument (following.forall_mem (·.2))⟩

theorem Table.reads_argumentList (table : C.Table rules rules') :
    C.Reads C.Listed (argumentList rules) (argumentList rules') := by
  intro start
  refine (C.reads_mark "(").bind fun _ _ _ opening => ?_
  refine (table.reads_arguments.orElse fun _ => .pure ⟨.nil, fun some => absurd rfl some⟩).bind
    fun _ _ _ arguments => ?_
  refine (C.reads_mark ")").bind fun _ _ _ closing => ?_
  refine .pure ⟨⟨C.branch ((arguments.chain.cons opening.part).append (.single closing.part)) ?_,
    .of_length (by simp) (by simp)⟩, rfl⟩
  exact .of_argumentList (.intro ⟨opening.isMark, opening.isBare⟩ arguments.areArguments
    ⟨closing.isMark, closing.isBare⟩)

theorem Table.reads_indexList (table : C.Table rules rules') {form : Form}
    (plain : form.isPlain = true) :
    C.Reads C.Operand (indexList form rules) (indexList form rules') := by
  intro start
  refine (C.reads_mark "[").bind fun _ _ _ opening => ?_
  refine table.reads_arguments.bind fun _ _ _ arguments => ?_
  refine (C.reads_mark "]").bind fun _ _ _ closing => ?_
  exact .pure (C.operand_of_isPlain plain (by simp)
    ((arguments.chain.cons opening.part).append (.single closing.part)))

theorem Table.reads_initializer (table : C.Table rules rules') :
    C.Reads C.Operand (initializer rules) (initializer rules') := by
  intro start
  refine (C.reads_mark "\x7b").bind fun _ _ _ opening => ?_
  refine ((table.expression 0 .plain).separated (·.toOperand)).maybeAll.bind
    fun _ _ _ elements => ?_
  refine (C.reads_trailing ",").bind fun _ _ _ comma => ?_
  refine (C.reads_mark "\x7d").bind fun _ _ _ closing => ?_
  exact .pure (C.operand_of_operands rfl (by simp) (by simp; omega)
    (((elements.cons opening.toOperand).append comma).append (.single closing.toOperand)))

end Correspondence

end Grammar

end AssertionLint
