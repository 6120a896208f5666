import AssertionLint.Proofs.Grammar.Bodies
import AssertionLint.Proofs.Grammar.Expressions

/-!
# Statements side by side

The rules for statements read both documents in the same way. A statement that has only one part
is a semicolon, so a statement may stand where the body of a lambda is looked for.
-/

namespace AssertionLint

namespace Grammar

namespace Correspondence

open Reader

variable {left right : Array Token} {C : Correspondence left right} {rules rules' : Rules}

theorem Table.reads_conditionalGroup (table : C.Table rules rules') {item item' : Reader Node}
    (reads : C.Reads C.Part item item') :
    C.Reads C.Operand (conditionalGroup rules item) (conditionalGroup rules' item') := by
  intro start
  refine (C.reads_directive _).bind fun _ _ _ opening => ?_
  refine (table.expression 0 .arrow).bind fun _ _ _ condition => ?_
  refine C.reads_lineEnd.bind fun _ _ _ ending => ?_
  refine reads.many.bind fun _ _ _ items => ?_
  refine (Reads.many (V := C.Part) fun _ => ?_).bind fun _ _ _ branches => ?_
  · refine (C.reads_directive _).bind fun _ _ _ word => ?_
    refine (table.expression 0 .arrow).bind fun _ _ _ condition => ?_
    refine C.reads_lineEnd.bind fun _ _ _ ending => ?_
    refine reads.many.bind fun _ _ _ items => ?_
    exact .pure (C.part_of_isFree rfl (by simp)
      (((ending.cons condition.part).cons word.part).append items))
  refine (Reads.maybe (V := C.Part) fun _ => ?_).bind fun _ _ _ otherwise => ?_
  · refine (C.reads_directive _).bind fun _ _ _ word => ?_
    refine C.reads_lineEnd.bind fun _ _ _ ending => ?_
    refine reads.many.bind fun _ _ _ items => ?_
    exact .pure (C.part_of_isFree rfl (by simp) ((ending.cons word.part).append items))
  refine (C.reads_directive _).bind fun _ _ _ closing => ?_
  refine C.reads_lineEnd.bind fun _ _ _ last => ?_
  exact .pure (C.operand_of_isPlain rfl (by simp)
    (((((ending.cons condition.part).cons opening.part).append items).append branches).append
      otherwise.toList |>.append (last.cons closing.part)))

theorem reads_brokenPart (C : Correspondence left right) :
    C.Reads C.Operand brokenPart brokenPart := by
  intro start
  refine .peek 0 fun _ _ peeked => ?_
  refine .check (by rw [peeked.any_eq fun _ _ _ _ => rfl]) fun _ => ?_
  exact C.reads_broken _

theorem Table.reads_block (table : C.Table rules rules') :
    C.Reads C.Operand (block rules) (block rules') := by
  intro start
  refine (C.reads_mark "\x7b").bind fun _ _ _ opening => ?_
  refine (table.statement.orElse C.reads_brokenPart).many.bind fun _ _ _ statements => ?_
  refine (C.reads_mark "\x7d").bind fun _ _ _ closing => ?_
  exact .pure (C.operand_of_opened (.inl rfl) opening (by simp)
    ((statements.mono (·.part)).append (.single closing.part)))

/-- Parts of a declaration of variables: its type, a variable or a separator. -/
structure Declared (C : Correspondence left right) (start stop : Nat) (x y : Node) : Prop where
  part : C.Part start stop x y
  isDeclared : x.form = .declarator ∨ x.form.isType = true ∨ x.children = []

theorem Table.reads_declarator (table : C.Table rules rules') :
    C.Reads C.Declared (declarator rules) (declarator rules') := by
  intro start
  refine C.reads_name.bind fun _ _ _ word => ?_
  refine (Reads.maybe (V := C.Operand) fun _ => ?_).bind fun _ _ _ size => ?_
  · refine (C.looks_sees "[").bind fun _ => ?_
    refine .check rfl fun _ => ?_
    exact C.reads_bracketed rfl (by simp) _
  · refine table.reads_defaultValue.maybeAll.bind fun _ _ _ value => ?_
    exact .pure ⟨C.declarator_of_operands (by simp)
      ((size.toList.cons (word.withRole .name).toOperand).append value), .inl rfl⟩

theorem Table.reads_deconstruction (table : C.Table rules rules') :
    C.Reads C.Declared (deconstruction rules) (deconstruction rules') := by
  intro start
  refine (C.looks_sees "(").bind fun _ => ?_
  refine .check rfl fun _ => ?_
  refine (C.reads_bracketed rfl (by simp)).bind fun _ _ _ names => ?_
  refine table.reads_defaultValue.bind fun _ _ _ value => ?_
  exact .pure ⟨C.declarator_of_operands (by simp) (value.cons names), .inl rfl⟩

theorem Table.reads_variableDeclaration (table : C.Table rules rules') :
    C.Reads C.Part (variableDeclaration rules) (variableDeclaration rules') := by
  intro start
  refine (C.looks_sees "await").bind fun _ => ?_
  refine .check rfl fun _ => ?_
  refine table.type.bind fun _ _ _ type => ?_
  refine (Reads.orElse (V := Chain C.Declared) (fun _ => ?_)
    (table.reads_declarator.separated fun mark =>
      ⟨mark.part, .inr (.inr mark.isBare)⟩)).bind fun _ _ _ declarators => ?_
  · unfold Node.word?
    refine .check (by rw [C.form_eq type.part]) fun _ => ?_
    refine table.reads_deconstruction.bind fun _ _ _ names => ?_
    exact .pure (.single names)
  · have typePart := type.withRole .type
    have chain := declarators.cons ⟨typePart.part, .inr (.inl typePart.isType)⟩
    exact .pure (C.branch (chain.mono (·.part))
      (.of_variableDeclaration (by simp) (chain.forall_mem (·.isDeclared))))

theorem reads_localModifier (C : Correspondence left right) :
    C.Reads C.Operand localModifier localModifier := by
  intro start
  refine (C.reads_take fun _ _ _ _ => rfl).bind fun _ _ _ taken => ?_
  refine (C.looks_seesOneOf _).bind fun _ => ?_
  rw [taken.1.text_eq C]
  refine .check rfl fun _ => ?_
  exact .pure (taken.1.operand C rfl)

theorem Table.reads_localDeclaration (table : C.Table rules rules') :
    C.Reads C.Operand (localDeclaration rules) (localDeclaration rules') := by
  intro start
  refine (C.reads_mark "await").maybe.bind fun _ _ _ waiting => ?_
  refine (C.reads_mark "using").maybe.bind fun _ _ _ keyword => ?_
  refine C.reads_localModifier.many.bind fun _ _ _ modifiers => ?_
  refine table.reads_variableDeclaration.bind fun _ _ _ declaration => ?_
  refine (C.reads_mark ";").bind fun _ _ _ semicolon => ?_
  exact .pure (C.operand_of_isPlain rfl (by simp; omega)
    ((((waiting.toList.mono (·.part)).append (keyword.toList.mono (·.part))).append
      (modifiers.mono (·.part))).append (.cons declaration (.single semicolon.part))))

theorem reads_typeParameterList (C : Correspondence left right) :
    C.Reads C.Operand typeParameterList typeParameterList := by
  intro start
  refine (C.reads_mark "<").bind fun _ _ _ opening => ?_
  refine (Reads.separated (W := C.Part) (fun _ => ?_) (·.part)).bind fun _ _ _ parameters => ?_
  · refine C.reads_attributeList.many.bind fun _ _ _ attributes => ?_
    refine (C.reads_markOneOf _).maybe.bind fun _ _ _ variance => ?_
    refine C.reads_name.bind fun _ _ _ word => ?_
    exact .pure (C.part_of_isFree rfl (by simp)
      (((attributes.mono (·.part)).append (variance.toList.mono (·.part))).append
        (.single (word.withRole .name).part)))
  · refine (C.reads_mark ">").bind fun _ _ _ closing => ?_
    exact .pure (C.operand_of_isPlain rfl (by simp)
      ((parameters.cons opening.part).append (.single closing.part)))

theorem Table.reads_typeConstraint (table : C.Table rules rules') :
    C.Reads C.Part (typeConstraint rules) (typeConstraint rules') := by
  refine Reads.orElse (fun _ => ?_) (Reads.orElse (fun _ => ?_) (table.type.mono (·.part)))
  · refine (C.reads_markOneOf _).bind fun _ _ _ keyword => ?_
    refine (C.reads_mark "?").maybe.bind fun _ _ _ question => ?_
    exact .pure (C.part_of_isFree rfl (by simp)
      ((question.toList.mono (·.part)).cons keyword.part))
  · refine (C.reads_mark "new").bind fun _ _ _ keyword => ?_
    refine (C.reads_mark "(").bind fun _ _ _ opening => ?_
    refine (C.reads_mark ")").bind fun _ _ _ closing => ?_
    exact .pure (C.part_of_isFree rfl (by simp)
      (.cons keyword.part (.cons opening.part (.single closing.part))))

theorem Table.reads_typeConstraints (table : C.Table rules rules') :
    C.Reads C.Part (typeConstraints rules) (typeConstraints rules') := by
  intro start
  refine (C.reads_mark "where").bind fun _ _ _ keyword => ?_
  refine C.reads_name.bind fun _ _ _ word => ?_
  refine (C.reads_mark ":").bind fun _ _ _ colon => ?_
  refine (table.reads_typeConstraint.separated (·.part)).bind fun _ _ _ constraints => ?_
  exact .pure (C.part_of_isFree rfl (by simp)
    (((constraints.cons colon.part).cons word.part).cons keyword.part))

theorem Table.reads_arrowClause (table : C.Table rules rules') :
    C.Reads C.Operand (arrowClause rules) (arrowClause rules') := by
  intro start
  refine (C.reads_mark "=>").bind fun _ _ _ arrow => ?_
  refine (table.expression 0 .plain).bind fun _ _ _ value => ?_
  exact .pure (C.operand_of_opened (.inr rfl) arrow (by simp) (.single value.part))

theorem Table.reads_functionBody (table : C.Table rules rules') :
    C.Reads C.Parts (functionBody rules) (functionBody rules') := by
  refine Reads.orElse (fun _ => ?_) (Reads.orElse (fun _ => ?_) fun _ => ?_)
  · refine table.reads_block.bind fun _ _ _ body => ?_
    exact .pure ⟨.single (body.withRole .body).part, by simp⟩
  · refine table.reads_arrowClause.bind fun _ _ _ clause => ?_
    refine (C.reads_mark ";").bind fun _ _ _ semicolon => ?_
    exact .pure ⟨.cons (clause.withRole .body).part (.single semicolon.part), by simp⟩
  · exact (C.reads_mark ";").bind fun _ _ _ semicolon => .pure ⟨.single semicolon.part, by simp⟩

theorem Table.reads_methodRest (table : C.Table rules rules') :
    C.Reads C.Parts (methodRest rules) (methodRest rules') := by
  intro start
  refine C.reads_name.bind fun _ _ _ word => ?_
  refine C.reads_typeParameterList.maybe.bind fun _ _ _ typeParameters => ?_
  refine table.reads_parameterList.bind fun _ _ _ parameters => ?_
  refine table.reads_typeConstraints.many.bind fun _ _ _ constraints => ?_
  refine table.reads_functionBody.bind fun _ _ _ body => ?_
  exact .pure ⟨(((typeParameters.toList.mono (·.part)).cons (word.withRole .name).part).append
    (constraints.cons (parameters.withRole .parameters).part)).append body.chain, by simp⟩

theorem Table.reads_localFunction (table : C.Table rules rules') :
    C.Reads C.Operand (localFunction rules) (localFunction rules') := by
  intro start
  refine (C.reads_attributeList.gives roleless_attributeList).many.bind fun _ _ _ attributes => ?_
  refine (C.reads_localModifier.gives roleless_localModifier).many.bind fun _ _ _ modifiers => ?_
  refine (C.looks_sees "await").bind fun _ => ?_
  refine .check rfl fun _ => ?_
  refine table.type.bind fun _ _ _ type => ?_
  refine (table.reads_methodRest.gives gives_methodRest).bind fun _ _ _ following => ?_
  rcases following with ⟨following, holds⟩
  have more := following.length_pos
  have attributed := Node.HoldBodies.of_role (attributes.forall_mem (·.2))
  have modified := Node.HoldBodies.of_role (modifiers.forall_mem (·.2))
  have chain := ((attributes.mono (·.1.part)).append (modifiers.mono (·.1.part))).append
    (following.chain.cons (type.withRole .type).part)
  refine .pure ⟨C.branch chain (.of_isFunction rfl (by simp) ?_), .of_length (by simp) ?_⟩
  · simp [attributed, modified, holds, Node.IsPlaced.of_role]
  · simp
    omega

theorem standsAlone_eq (C : Correspondence left right) {start stop : Nat} {x y : Node}
    (part : C.Part start stop x y) : standsAlone y = standsAlone x := by
  unfold standsAlone
  rw [C.form_eq part]

theorem Table.reads_calledTest (table : C.Table rules rules') :
    C.Reads C.Operand (calledTest rules) (calledTest rules') := by
  intro start
  refine (table.expression (testLevel + 1) .plain).bind fun _ _ _ value => ?_
  refine (C.reads_mark "is").bind fun _ _ _ word => ?_
  refine table.reads_testedType.bind fun _ _ _ type => ?_
  refine table.reads_argumentList.bind fun _ _ _ arguments => ?_
  have test : C.Operand start _ (.branch (.otherExpression "is_expression") _)
      (.branch (.otherExpression "is_expression") _) :=
    C.operand_of_isPlain rfl (by simp) (.cons value.part (.cons word.part (.single type.part)))
  exact .pure (C.operand_of_call test arguments)

theorem Table.reads_expressionStatement (table : C.Table rules rules') :
    C.Reads C.Operand (expressionStatement rules) (expressionStatement rules') := by
  have standing {expression expression' : Reader Node}
      (reads : C.Reads C.Operand expression expression') : C.Reads C.Operand (do
        let value ← expression
        check (standsAlone value)
        let semicolon ← mark ";"
        return .branch .statement [value, semicolon]) (do
        let value ← expression'
        check (standsAlone value)
        let semicolon ← mark ";"
        return .branch .statement [value, semicolon]) := by
    intro start
    refine reads.bind fun _ _ _ value => ?_
    refine .check (C.standsAlone_eq value.part) fun _ => ?_
    refine (C.reads_mark ";").bind fun _ _ _ semicolon => ?_
    exact .pure (C.operand_of_isPlain rfl (by simp) (.cons value.part (.single semicolon.part)))
  refine (standing (table.expression 0 .plain)).orElse <|
    (standing fun _ => ?_).orElse (standing table.reads_calledTest)
  refine (C.looks_sees "(").bind fun _ => ?_
  refine .check rfl fun _ => ?_
  refine table.reads_primaryOperand.bind fun _ _ _ primary => ?_
  exact .iterate (fun _ _ _ front => table.extendExpression 0 .plain front) primary

theorem Table.reads_condition (table : C.Table rules rules') :
    C.Reads (Chain C.Part) (condition rules) (condition rules') := by
  intro start
  refine (C.reads_mark "(").bind fun _ _ _ opening => ?_
  refine (table.expression 0 .plain).bind fun _ _ _ value => ?_
  refine (C.reads_mark ")").bind fun _ _ _ closing => ?_
  exact .pure (.cons opening.part (.cons value.part (.single closing.part)))

theorem Table.reads_ifStatement (table : C.Table rules rules') :
    C.Reads C.Operand (ifStatement rules) (ifStatement rules') := by
  intro start
  refine (C.reads_mark "if").bind fun _ _ _ keyword => ?_
  refine table.reads_condition.bind fun _ _ _ test => ?_
  refine table.statement.bind fun _ _ _ whenTrue => ?_
  refine (Reads.maybeAll (V := C.Part) fun _ => ?_).bind fun _ _ _ otherwise => ?_
  · refine (C.reads_mark "else").bind fun _ _ _ word => ?_
    refine table.statement.bind fun _ _ _ whenFalse => ?_
    exact .pure (.cons word.part (.single whenFalse.part))
  · exact .pure (C.operand_of_isPlain rfl (by simp; omega)
      ((test.cons keyword.part).append (otherwise.cons whenTrue.part)))

theorem Table.reads_guardedStatement (table : C.Table rules rules') (keyword : String) :
    C.Reads C.Operand (guardedStatement keyword rules) (guardedStatement keyword rules') := by
  intro start
  refine (C.reads_mark keyword).bind fun _ _ _ word => ?_
  refine table.reads_condition.bind fun _ _ _ test => ?_
  refine table.statement.bind fun _ _ _ body => ?_
  exact .pure (C.operand_of_isPlain rfl (by simp)
    ((test.cons word.part).append (.single body.part)))

theorem Table.reads_doStatement (table : C.Table rules rules') :
    C.Reads C.Operand (doStatement rules) (doStatement rules') := by
  intro start
  refine (C.reads_mark "do").bind fun _ _ _ keyword => ?_
  refine table.statement.bind fun _ _ _ body => ?_
  refine (C.reads_mark "while").bind fun _ _ _ word => ?_
  refine table.reads_condition.bind fun _ _ _ test => ?_
  refine (C.reads_mark ";").bind fun _ _ _ semicolon => ?_
  exact .pure (C.operand_of_isPlain rfl (by simp)
    ((((test.cons word.part).cons body.part).cons keyword.part).append (.single semicolon.part)))

theorem Table.reads_forStatement (table : C.Table rules rules') :
    C.Reads C.Operand (forStatement rules) (forStatement rules') := by
  intro start
  have expressions : C.Reads (Chain C.Part)
      (maybeAll (separated "," (rules (.expression 0 .plain))))
      (maybeAll (separated "," (rules' (.expression 0 .plain)))) :=
    (((table.expression 0 .plain).mono (·.part)).separated (·.part)).maybeAll
  refine (C.reads_mark "for").bind fun _ _ _ keyword => ?_
  refine (C.reads_mark "(").bind fun _ _ _ opening => ?_
  refine (Reads.orElse (fun _ => ?_) expressions).bind fun _ _ _ first => ?_
  · refine table.reads_variableDeclaration.bind fun _ _ _ declaration => ?_
    refine (C.looks_sees ";").bind fun _ => ?_
    refine .check rfl fun _ => ?_
    exact .pure (.single declaration)
  refine (C.reads_mark ";").bind fun _ _ _ one => ?_
  refine (table.expression 0 .plain).maybe.bind fun _ _ _ test => ?_
  refine (C.reads_mark ";").bind fun _ _ _ two => ?_
  refine expressions.bind fun _ _ _ step => ?_
  refine (C.reads_mark ")").bind fun _ _ _ closing => ?_
  refine table.statement.bind fun _ _ _ body => ?_
  exact .pure (C.operand_of_isPlain rfl (by simp)
    (((((first.cons opening.part).cons keyword.part).append
      ((test.toList.mono (·.part)).cons one.part)).append (step.cons two.part)).append
        (.cons closing.part (.single body.part))))

theorem Table.reads_loopVariable (table : C.Table rules rules') :
    C.Reads (Chain C.HeadPart) (loopVariable rules) (loopVariable rules') := by
  have names : C.Reads C.Operand (do
      check (← sees "(")
      bracketed .group) (do
      check (← sees "(")
      bracketed .group) := by
    intro start
    refine (C.looks_sees "(").bind fun _ => ?_
    refine .check rfl fun _ => ?_
    exact C.reads_bracketed rfl (by simp) _
  refine Reads.orElse (fun _ => ?_) fun _ => ?_
  · refine table.type.bind fun _ _ _ type => ?_
    refine ((C.reads_name.mono (·.toOperand)).orElse names).bind fun _ _ _ word => ?_
    exact .pure (.cons (type.toOperand.head .type (by simp)) (.single (word.head .left (by simp))))
  · refine (C.looks_sees "(").bind fun _ => ?_
    refine .check rfl fun _ => ?_
    refine (C.reads_bracketed rfl (by simp)).bind fun _ _ _ names => ?_
    exact .pure (.single (names.head .left (by simp)))

theorem Table.reads_foreachStatement (table : C.Table rules rules') :
    C.Reads C.Operand (foreachStatement rules) (foreachStatement rules') := by
  intro start
  refine (C.reads_mark "await").maybe.bind fun _ _ _ waiting => ?_
  refine (C.reads_mark "foreach").bind fun _ _ _ keyword => ?_
  refine (C.reads_mark "(").bind fun _ _ _ opening => ?_
  refine table.reads_loopVariable.bind fun _ _ _ declared => ?_
  refine (C.reads_mark "in").bind fun _ _ _ word => ?_
  refine (table.expression 0 .plain).bind fun _ _ _ collection => ?_
  refine (C.reads_mark ")").bind fun _ _ _ closing => ?_
  refine table.statement.bind fun _ _ _ body => ?_
  have front := ((waiting.toList.mono (·.head)).append
    ((declared.cons opening.head).cons keyword.head)).append (.single word.head)
  have loop := C.operand_of_loop front collection closing body
  simp only [List.append_assoc] at loop
  simp only [List.append_assoc]
  exact .pure loop

theorem Table.reads_resourceStatement (table : C.Table rules rules') (keyword : String)
    {form : Form} (plain : form.isPlain = true) :
    C.Reads C.Operand (resourceStatement keyword form rules)
      (resourceStatement keyword form rules') := by
  intro start
  refine (C.reads_mark "await").maybe.bind fun _ _ _ waiting => ?_
  refine (C.reads_mark keyword).bind fun _ _ _ word => ?_
  refine (C.reads_mark "(").bind fun _ _ _ opening => ?_
  refine (Reads.orElse (fun _ => ?_) ((table.expression 0 .plain).mono (·.part))).bind
    fun _ _ _ resource => ?_
  · refine table.reads_variableDeclaration.bind fun _ _ _ declaration => ?_
    refine (C.looks_sees ")").bind fun _ => ?_
    refine .check rfl fun _ => ?_
    exact .pure declaration
  · refine (C.reads_mark ")").bind fun _ _ _ closing => ?_
    refine table.statement.bind fun _ _ _ body => ?_
    exact .pure (C.operand_of_isPlain plain (by simp)
      ((waiting.toList.mono (·.part)).append (.cons word.part (.cons opening.part
        (.cons resource (.cons closing.part (.single body.part)))))))

theorem Table.reads_caseValue (table : C.Table rules rules') :
    C.Reads (Chain C.Part) (caseValue rules) (caseValue rules') := by
  intro start
  refine (C.looks_sees "[").bind fun _ => ?_
  refine table.looks_startsOtherPattern.bind fun _ => ?_
  refine .check rfl fun _ => ?_
  refine (table.expression 0 .colon).bind fun _ _ _ value => ?_
  refine (C.looks_sees ":").bind fun _ => ?_
  refine .check rfl fun _ => ?_
  exact .pure (.single value.part)

theorem Table.reads_casePattern (table : C.Table rules rules') :
    C.Reads (Chain C.Part) (casePattern rules) (casePattern rules') := by
  intro start
  refine table.pattern.bind fun _ _ _ pattern => ?_
  refine (Reads.maybeAll (V := C.Part) fun _ => ?_).bind fun _ _ _ guard => ?_
  · refine (C.reads_mark "when").bind fun _ _ _ word => ?_
    refine (table.expression 0 .colon).bind fun _ _ _ test => ?_
    exact .pure (.cons word.part (.single test.part))
  · exact .pure (guard.cons pattern)

theorem Table.reads_switchSection (table : C.Table rules rules') :
    C.Reads C.Part (switchSection rules) (switchSection rules') := by
  intro start
  refine (Reads.orElse (V := Chain C.Part) (fun _ => ?_) fun _ => ?_).bind fun _ _ _ label => ?_
  · refine (C.reads_mark "case").bind fun _ _ _ keyword => ?_
    refine (table.reads_caseValue.orElse table.reads_casePattern).bind fun _ _ _ matched => ?_
    exact .pure (matched.cons keyword.part)
  · exact (C.reads_mark "default").bind fun _ _ _ keyword => .pure (.single keyword.part)
  refine (C.reads_mark ":").bind fun _ _ _ colon => ?_
  refine (Reads.many (V := C.Operand) fun _ => ?_).bind fun _ _ _ statements => ?_
  · refine (C.looks_sees "case").bind fun _ => ?_
    refine (C.looks_sees "default").bind fun _ => ?_
    refine (C.looks_seesAt 1 _).bind fun _ => ?_
    refine .check rfl fun _ => ?_
    exact (table.statement.orElse C.reads_brokenPart) _
  · exact .pure (C.part_of_isFree rfl (by simp)
      (label.append ((statements.mono (·.part)).cons colon.part)))

theorem Table.reads_switchStatement (table : C.Table rules rules') :
    C.Reads C.Operand (switchStatement rules) (switchStatement rules') := by
  intro start
  refine (C.reads_mark "switch").bind fun _ _ _ keyword => ?_
  refine (table.reads_condition.orElse fun _ => ?_).bind fun _ _ _ value => ?_
  · exact (table.expression unaryLevel .plain).bind fun _ _ _ value => .pure (.single value.part)
  · refine (C.reads_mark "\x7b").bind fun _ _ _ opening => ?_
    refine table.reads_switchSection.many.bind fun _ _ _ sections => ?_
    refine (C.reads_mark "\x7d").bind fun _ _ _ closing => ?_
    exact .pure (C.operand_of_isPlain rfl (by simp; omega)
      (((value.cons keyword.part).append (sections.cons opening.part)).append
        (.single closing.part)))

theorem Table.reads_catchClause (table : C.Table rules rules') :
    C.Reads C.Part (catchClause rules) (catchClause rules') := by
  intro start
  refine (C.reads_mark "catch").bind fun _ _ _ keyword => ?_
  refine (Reads.maybeAll (V := C.Part) fun _ => ?_).bind fun _ _ _ declaration => ?_
  · refine (C.reads_mark "(").bind fun _ _ _ opening => ?_
    refine table.type.bind fun _ _ _ type => ?_
    refine C.reads_name.maybe.bind fun _ _ _ word => ?_
    refine (C.reads_mark ")").bind fun _ _ _ closing => ?_
    exact .pure ((((word.toList.mono (·.part)).cons type.part).cons opening.part).append
      (.single closing.part))
  refine (Reads.maybeAll (V := C.Part) fun _ => ?_).bind fun _ _ _ guard => ?_
  · refine (C.reads_mark "when").bind fun _ _ _ word => ?_
    refine table.reads_condition.bind fun _ _ _ test => ?_
    exact .pure (test.cons word.part)
  · refine table.reads_block.bind fun _ _ _ body => ?_
    exact .pure (C.part_of_isFree rfl (by simp)
      (((declaration.cons keyword.part).append guard).append (.single body.part)))

theorem Table.reads_tryStatement (table : C.Table rules rules') :
    C.Reads C.Operand (tryStatement rules) (tryStatement rules') := by
  intro start
  refine (C.reads_mark "try").bind fun _ _ _ keyword => ?_
  refine table.reads_block.bind fun _ _ _ body => ?_
  refine table.reads_catchClause.many.bind fun _ _ _ handlers => ?_
  refine (Reads.maybe (V := C.Part) fun _ => ?_).bind fun _ _ _ cleanup => ?_
  · refine (C.reads_mark "finally").bind fun _ _ _ word => ?_
    refine table.reads_block.bind fun _ _ _ body => ?_
    exact .pure (C.part_of_isFree rfl (by simp) (.cons word.part (.single body.part)))
  · exact .pure (C.operand_of_isPlain rfl (by simp)
      (((handlers.cons body.part).cons keyword.part).append cleanup.toList))

theorem Table.reads_markedBlock (table : C.Table rules rules') :
    C.Reads C.Operand (markedBlock rules) (markedBlock rules') := by
  intro start
  refine (C.reads_markOneOf _).bind fun _ _ _ keyword => ?_
  refine table.reads_block.bind fun _ _ _ body => ?_
  exact .pure (C.operand_of_isPlain rfl (by simp) (.cons keyword.part (.single body.part)))

theorem Table.reads_leavingStatement (table : C.Table rules rules') :
    C.Reads C.Operand (leavingStatement rules) (leavingStatement rules') := by
  intro start
  refine (Reads.orElse (V := C.Parts) (fun _ => ?_) fun _ => ?_).bind fun _ _ _ words => ?_
  · refine (C.reads_mark "yield").bind fun _ _ _ first => ?_
    refine (C.reads_markOneOf _).bind fun _ _ _ second => ?_
    exact .pure ⟨.cons first.part (.single second.part), by simp⟩
  · exact (C.reads_markOneOf _).bind fun _ _ _ word => .pure ⟨.single word.part, by simp⟩
  · refine (table.expression 0 .plain).maybe.bind fun _ _ _ value => ?_
    refine (C.reads_mark ";").bind fun _ _ _ semicolon => ?_
    have more := words.length_pos
    exact .pure (C.operand_of_isPlain rfl (by simp; omega)
      ((words.chain.append (value.toList.mono (·.part))).append (.single semicolon.part)))

theorem Table.reads_gotoStatement (table : C.Table rules rules') :
    C.Reads C.Operand (gotoStatement rules) (gotoStatement rules') := by
  intro start
  refine (C.reads_mark "goto").bind fun _ _ _ keyword => ?_
  refine (Reads.orElse (V := Chain C.Part) (fun _ => ?_)
    (Reads.orElse (fun _ => ?_) fun _ => ?_)).bind fun _ _ _ target => ?_
  · exact C.reads_name.bind fun _ _ _ label => .pure (.single label.part)
  · exact (C.reads_mark "default").bind fun _ _ _ word => .pure (.single word.part)
  · refine (C.reads_mark "case").bind fun _ _ _ word => ?_
    refine (table.expression 0 .plain).bind fun _ _ _ value => ?_
    exact .pure (.cons word.part (.single value.part))
  · refine (C.reads_mark ";").bind fun _ _ _ semicolon => ?_
    exact .pure (C.operand_of_isPlain rfl (by simp)
      ((target.cons keyword.part).append (.single semicolon.part)))

theorem Table.reads_labeledStatement (table : C.Table rules rules') :
    C.Reads C.Operand (labeledStatement rules) (labeledStatement rules') := by
  intro start
  refine C.reads_name.bind fun _ _ _ label => ?_
  refine (C.reads_mark ":").bind fun _ _ _ colon => ?_
  refine table.statement.bind fun _ _ _ body => ?_
  exact .pure (C.operand_of_isPlain rfl (by simp)
    (.cons label.part (.cons colon.part (.single body.part))))

theorem reads_emptyStatement (C : Correspondence left right) :
    C.Reads C.Operand emptyStatement emptyStatement := by
  intro start
  refine (C.reads_mark ";").bind fun _ _ _ semicolon => ?_
  exact .pure (semicolon.alone rfl (by simp))

theorem Table.reads_keywordStatement (table : C.Table rules rules') :
    C.Reads C.Operand (keywordStatement rules) (keywordStatement rules') :=
  table.reads_ifStatement.orElse <| (table.reads_guardedStatement "while").orElse <|
    (table.reads_guardedStatement "lock").orElse <| table.reads_doStatement.orElse <|
    table.reads_forStatement.orElse <| table.reads_foreachStatement.orElse <|
    (table.reads_resourceStatement "using" rfl).orElse <|
    (table.reads_resourceStatement "fixed" rfl).orElse <| table.reads_switchStatement.orElse <|
    table.reads_tryStatement.orElse <| table.reads_markedBlock.orElse table.reads_gotoStatement

theorem Table.reads_statementRule (table : C.Table rules rules') :
    C.Reads C.Operand (statementRule rules) (statementRule rules') :=
  have part := (table.statement.orElse C.reads_brokenPart).mono (·.part)
  table.reads_block.orElse <| C.reads_emptyStatement.orElse <|
    (table.reads_conditionalGroup part).orElse <| table.reads_keywordStatement.orElse <|
    table.reads_leavingStatement.orElse <| table.reads_labeledStatement.orElse <|
    table.reads_localDeclaration.orElse <| table.reads_localFunction.orElse
    table.reads_expressionStatement

end Correspondence

end Grammar

end AssertionLint
