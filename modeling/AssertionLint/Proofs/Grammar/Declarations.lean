import AssertionLint.Proofs.Grammar.Statements

/-!
# Documents side by side

The rules for declarations read both documents in the same way. With them every rule of the grammar
has its lemma, so the table of the rules corresponds for every budget, by induction on it, and the
items of two documents whose tokens differ only in their places correspond
(`Correspondence.chain_itemsOf`).
-/

namespace AssertionLint

namespace Grammar

namespace Correspondence

open Reader

variable {left right : Array Token} {C : Correspondence left right} {rules rules' : Rules}

theorem reads_modifier (C : Correspondence left right) :
    C.Reads C.Operand modifier modifier := by
  intro start
  refine (C.reads_take (isBlind_isOneOf _)).bind fun _ _ _ taken => ?_
  refine .peek 0 fun _ _ peeked => ?_
  rw [taken.1.text_eq C, taken.1.kind_eq C]
  refine .check (by rw [peeked.any_eq fun _ _ _ _ => rfl]) fun _ => ?_
  refine .check (by rw [peeked.any_eq fun _ _ _ _ => rfl]) fun _ => ?_
  exact .pure (taken.1.operand C rfl)

theorem Table.reads_constructorInitializer (table : C.Table rules rules') :
    C.Reads C.Part (constructorInitializer rules) (constructorInitializer rules') := by
  intro start
  refine (C.reads_mark ":").bind fun _ _ _ colon => ?_
  refine (C.reads_markOneOf _).bind fun _ _ _ target => ?_
  refine table.reads_argumentList.bind fun _ _ _ arguments => ?_
  exact .pure (C.part_of_isFree rfl (by simp)
    (.cons colon.part (.cons target.part (.single arguments.part))))

theorem Table.reads_baseEntry (table : C.Table rules rules') :
    C.Reads C.Part (baseEntry rules) (baseEntry rules') := by
  intro start
  refine table.type.bind fun _ _ _ type => ?_
  refine table.reads_argumentList.maybe.bind fun _ _ _ arguments => ?_
  cases arguments with
  | none => exact .pure type.part
  | some arguments =>
    exact .pure (C.part_of_isFree rfl (by simp) (.cons type.part (.single arguments.part)))

theorem Table.reads_baseList (table : C.Table rules rules') :
    C.Reads C.Part (baseList rules) (baseList rules') := by
  intro start
  refine (C.reads_mark ":").bind fun _ _ _ colon => ?_
  refine (table.reads_baseEntry.separated (·.part)).bind fun _ _ _ bases => ?_
  exact .pure (C.part_of_isFree rfl (by simp) (bases.cons colon.part))

theorem Table.reads_enumMember (table : C.Table rules rules') :
    C.Reads C.Part (enumMember rules) (enumMember rules') := by
  intro start
  refine C.reads_attributeList.many.bind fun _ _ _ attributes => ?_
  refine C.reads_name.bind fun _ _ _ word => ?_
  refine table.reads_defaultValue.maybeAll.bind fun _ _ _ value => ?_
  exact .pure (C.part_of_isFree rfl (by simp)
    ((attributes.mono (·.part)).append
      ((value.mono (·.part)).cons (word.withRole .name).part)))

theorem Table.reads_enumBody (table : C.Table rules rules') :
    C.Reads C.Operand (enumBody rules) (enumBody rules') := by
  intro start
  refine (C.reads_mark "\x7b").bind fun _ _ _ opening => ?_
  refine (table.reads_enumMember.separated (·.part)).maybeAll.bind fun _ _ _ members => ?_
  refine (C.reads_trailing ",").bind fun _ _ _ comma => ?_
  refine (C.reads_mark "\x7d").bind fun _ _ _ closing => ?_
  exact .pure (C.operand_of_isPlain rfl (by simp; omega)
    (((members.cons opening.part).append (comma.mono (·.part))).append (.single closing.part)))

theorem Table.reads_declarationList (table : C.Table rules rules') :
    C.Reads C.Operand (declarationList rules) (declarationList rules') := by
  intro start
  refine (C.reads_mark "\x7b").bind fun _ _ _ opening => ?_
  refine (table.declaration.orElse (C.reads_brokenPart.mono (·.part))).many.bind
    fun _ _ _ declarations => ?_
  refine (C.reads_mark "\x7d").bind fun _ _ _ closing => ?_
  exact .pure (C.operand_of_isPlain rfl (by simp)
    ((declarations.cons opening.part).append (.single closing.part)))

/-- Parts of a declaration with what they are parts of. -/
structure Labelled {α : Type} (C : Correspondence left right) (start stop : Nat)
    (x y : List Node × α) : Prop where
  parts : C.Parts start stop x.1 y.1
  label_eq : y.2 = x.2

/-- Parts of a declaration with its form. -/
structure Member (C : Correspondence left right) (start stop : Nat) (x y : List Node × Form) :
    Prop extends C.Labelled start stop x y where
  isMember : x.2.isFree = true ∨ x.2.isFunction = true ∨
    ∃ kind, x.2 = .typeDeclaration kind ∧ kind.isDeclared = true

theorem reads_typeKeyword (C : Correspondence left right) :
    C.Reads C.Labelled typeKeyword typeKeyword := by
  refine Reads.orElse (fun _ => ?_) (Reads.orElse (fun _ => ?_)
    (Reads.orElse (fun _ => ?_) fun _ => ?_))
  · exact (C.reads_mark "class").bind fun _ _ _ word => .pure ⟨⟨.single word.part, by simp⟩, rfl⟩
  · exact (C.reads_mark "struct").bind fun _ _ _ word => .pure ⟨⟨.single word.part, by simp⟩, rfl⟩
  · exact (C.reads_mark "interface").bind fun _ _ _ word =>
      .pure ⟨⟨.single word.part, by simp⟩, rfl⟩
  · refine (C.reads_mark "record").bind fun _ _ _ keyword => ?_
    refine (C.reads_markOneOf _).maybe.bind fun _ _ _ following => ?_
    refine (C.looks_seesNameAt 0).bind fun _ => ?_
    refine (C.looks_seesAt 1 _).bind fun _ => ?_
    refine .check rfl fun _ => ?_
    exact .pure ⟨⟨(following.toList.mono (·.part)).cons keyword.part, by simp⟩, rfl⟩

theorem Table.reads_typeRest (table : C.Table rules rules') :
    C.Reads C.Labelled (typeRest rules) (typeRest rules') := by
  intro start
  refine C.reads_typeKeyword.bind fun _ one two labelled => ?_
  rcases one with ⟨keywords, kind⟩
  rcases two with ⟨keywords', kind'⟩
  rcases labelled with ⟨⟨chain, -⟩, same⟩
  cases same
  refine C.reads_name.bind fun _ _ _ word => ?_
  refine C.reads_typeParameterList.maybe.bind fun _ _ _ typeParameters => ?_
  refine table.reads_parameterList.maybe.bind fun _ _ _ parameters => ?_
  refine table.reads_baseList.maybe.bind fun _ _ _ bases => ?_
  refine table.reads_typeConstraints.many.bind fun _ _ _ constraints => ?_
  refine (Reads.orElse (V := Chain C.Part) (fun _ => ?_) fun _ => ?_).bind fun _ _ _ body => ?_
  · exact table.reads_declarationList.bind fun _ _ _ body =>
      .pure (.single (body.withRole .body).part)
  · exact (C.reads_mark ";").bind fun _ _ _ semicolon => .pure (.single semicolon.part)
  refine (C.reads_trailing ";").bind fun _ _ _ semicolon => ?_
  refine .pure ⟨⟨?_, by simp⟩, rfl⟩
  exact (((((chain.append ((typeParameters.toList.mono (·.part)).cons
    (word.withRole .name).part)).append (parameters.toList.mono (·.part))).append
      bases.toList).append constraints).append body).append (semicolon.mono (·.part))

theorem Table.reads_enumRest (table : C.Table rules rules') :
    C.Reads C.Parts (enumRest rules) (enumRest rules') := by
  intro start
  refine (C.reads_mark "enum").bind fun _ _ _ keyword => ?_
  refine C.reads_name.bind fun _ _ _ word => ?_
  refine table.reads_baseList.maybe.bind fun _ _ _ bases => ?_
  refine table.reads_enumBody.bind fun _ _ _ body => ?_
  refine (C.reads_trailing ";").bind fun _ _ _ semicolon => ?_
  exact .pure ⟨((bases.toList.cons (word.withRole .name).part).cons keyword.part).append
    ((semicolon.mono (·.part)).cons (body.withRole .body).part), by simp⟩

theorem Table.reads_delegateRest (table : C.Table rules rules') :
    C.Reads C.Parts (delegateRest rules) (delegateRest rules') := by
  intro start
  refine (C.reads_mark "delegate").bind fun _ _ _ keyword => ?_
  refine table.type.bind fun _ _ _ type => ?_
  refine C.reads_name.bind fun _ _ _ word => ?_
  refine C.reads_typeParameterList.maybe.bind fun _ _ _ typeParameters => ?_
  refine table.reads_parameterList.bind fun _ _ _ parameters => ?_
  refine table.reads_typeConstraints.many.bind fun _ _ _ constraints => ?_
  refine (C.reads_mark ";").bind fun _ _ _ semicolon => ?_
  exact .pure ⟨((((typeParameters.toList.mono (·.part)).cons (word.withRole .name).part).cons
    (type.withRole .type).part).cons keyword.part).append (constraints.cons parameters.part)
      |>.append (.single semicolon.part), by simp⟩

theorem Table.reads_accessor (table : C.Table rules rules') :
    C.Reads C.Part (accessor rules) (accessor rules') := by
  intro start
  refine (C.reads_attributeList.gives roleless_attributeList).many.bind fun _ _ _ attributes => ?_
  refine (C.reads_modifier.gives roleless_modifier).many.bind fun _ _ _ modifiers => ?_
  refine ((C.reads_markOneOf _).gives roleless_markOneOf).bind fun _ _ _ word => ?_
  refine (table.reads_functionBody.gives gives_functionBody).bind fun _ _ _ body => ?_
  have attributed := Node.HoldBodies.of_role (attributes.forall_mem (·.2))
  have modified := Node.HoldBodies.of_role (modifiers.forall_mem (·.2))
  have chain := ((attributes.mono (·.1.part)).append (modifiers.mono (·.1.part))).append
    (body.1.chain.cons word.1.part)
  refine .pure (C.branch chain (.of_isFunction rfl (by simp) ?_))
  simp [attributed, modified, body.2, Node.IsPlaced.of_role, word.2]

theorem Table.reads_accessorList (table : C.Table rules rules') :
    C.Reads C.Part (accessorList rules) (accessorList rules') := by
  intro start
  refine (C.reads_mark "\x7b").bind fun _ _ _ opening => ?_
  refine table.reads_accessor.many.bind fun _ _ _ accessors => ?_
  refine (C.reads_mark "\x7d").bind fun _ _ _ closing => ?_
  exact .pure (C.part_of_isFree rfl (by simp)
    ((accessors.cons opening.part).append (.single closing.part)))

theorem Table.reads_interfaceSpecifier (table : C.Table rules rules') :
    C.Reads (Chain C.Part) (interfaceSpecifier rules) (interfaceSpecifier rules') := by
  intro start
  refine (Reads.many (V := C.Parts) fun _ => ?_).bind fun _ parts _ isParts => ?_
  · refine table.reads_simpleTypeName.bind fun _ _ _ part => ?_
    refine (C.reads_markOneOf _).bind fun _ _ _ separator => ?_
    exact .pure ⟨.cons part.part (.single separator.part), by simp⟩
  · refine .ite isParts.isEmpty_eq (fun none => ?_) fun some => ?_
    · cases isParts with
      | nil => exact .pure .nil
      | cons => cases none
    · have nonempty : parts.flatten ≠ [] := by
        cases isParts with
        | nil => cases some
        | cons first _ => simp [first.nonempty]
      exact .pure (.single (C.part_of_isFree rfl nonempty (isParts.mono (·.chain)).flatten))

theorem reads_declaredOperator (C : Correspondence left right) :
    C.Reads C.Operand declaredOperator declaredOperator :=
  (C.reads_joined (by simp)).orElse <| (C.reads_joined (by simp)).orElse <|
    (C.reads_joined (by simp)).orElse (C.reads_markOneOf _)

theorem Table.reads_conversionRest (table : C.Table rules rules') :
    C.Reads C.Parts (conversionRest rules) (conversionRest rules') := by
  intro start
  refine (C.reads_markOneOf _).bind fun _ _ _ direction => ?_
  refine table.reads_interfaceSpecifier.bind fun _ _ _ specifier => ?_
  refine (C.reads_mark "operator").bind fun _ _ _ keyword => ?_
  refine (C.reads_mark "checked").maybe.bind fun _ _ _ word => ?_
  refine table.type.bind fun _ _ _ type => ?_
  refine table.reads_parameterList.bind fun _ _ _ parameters => ?_
  refine table.reads_functionBody.bind fun _ _ _ body => ?_
  exact .pure ⟨((specifier.cons direction.part).append
    ((word.toList.mono (·.part)).cons keyword.part)).append
      ((body.chain.cons (parameters.withRole .parameters).part).cons (type.withRole .type).part),
    by simp⟩

theorem Table.reads_destructorRest (table : C.Table rules rules') :
    C.Reads C.Parts (destructorRest rules) (destructorRest rules') := by
  intro start
  refine (C.reads_mark "~").bind fun _ _ _ tilde => ?_
  refine C.reads_name.bind fun _ _ _ word => ?_
  refine table.reads_parameterList.bind fun _ _ _ parameters => ?_
  refine table.reads_functionBody.bind fun _ _ _ body => ?_
  exact .pure ⟨((body.chain.cons (parameters.withRole .parameters).part).cons
    (word.withRole .name).part).cons tilde.part, by simp⟩

theorem Table.reads_constructorRest (table : C.Table rules rules') :
    C.Reads C.Parts (constructorRest rules) (constructorRest rules') := by
  intro start
  refine C.reads_name.bind fun _ _ _ word => ?_
  refine table.reads_parameterList.bind fun _ _ _ parameters => ?_
  refine table.reads_constructorInitializer.maybe.bind fun _ _ _ initializer => ?_
  refine table.reads_functionBody.bind fun _ _ _ body => ?_
  exact .pure ⟨((initializer.toList.cons (parameters.withRole .parameters).part).cons
    (word.withRole .name).part).append body.chain, by simp⟩

theorem Table.reads_eventRest (table : C.Table rules rules') :
    C.Reads C.Member (eventRest rules) (eventRest rules') := by
  intro start
  refine (C.reads_mark "event").bind fun _ _ _ keyword => ?_
  refine At.orElse ?_ ?_
  · refine table.type.bind fun _ _ _ type => ?_
    refine table.reads_interfaceSpecifier.bind fun _ _ _ specifier => ?_
    refine C.reads_name.bind fun _ _ _ word => ?_
    refine table.reads_accessorList.bind fun _ _ _ accessors => ?_
    exact .pure ⟨⟨⟨((specifier.cons (type.withRole .type).part).cons keyword.part).append
      (.cons (word.withRole .name).part (.single accessors)), by simp⟩, rfl⟩, .inl rfl⟩
  · refine table.reads_variableDeclaration.bind fun _ _ _ declaration => ?_
    refine (C.reads_mark ";").bind fun _ _ _ semicolon => ?_
    exact .pure ⟨⟨⟨.cons keyword.part (.cons declaration (.single semicolon.part)), by simp⟩,
      rfl⟩, .inl rfl⟩

theorem Table.reads_accessorBody (table : C.Table rules rules') :
    C.Reads (Chain C.Part) (accessorBody rules) (accessorBody rules') := by
  refine Reads.orElse (fun _ => ?_) fun _ => ?_
  · exact table.reads_accessorList.bind fun _ _ _ accessors => .pure (.single accessors)
  · refine table.reads_arrowClause.bind fun _ _ _ clause => ?_
    refine (C.reads_mark ";").bind fun _ _ _ semicolon => ?_
    exact .pure (.cons (clause.withRole .value).part (.single semicolon.part))

theorem Table.reads_propertyValue (table : C.Table rules rules') :
    C.Reads (Chain C.Part) (propertyValue rules) (propertyValue rules') := by
  intro start
  refine (C.reads_mark "=").bind fun _ _ _ equals => ?_
  refine (table.expression 0 .plain).bind fun _ _ _ value => ?_
  refine (C.reads_mark ";").bind fun _ _ _ semicolon => ?_
  exact .pure (.cons equals.part (.cons (value.withRole .value).part (.single semicolon.part)))

theorem Table.reads_typedMemberRest (table : C.Table rules rules') :
    C.Reads C.Member (typedMemberRest rules) (typedMemberRest rules') := by
  refine Reads.orElse (fun _ => ?_) fun _ => ?_
  · refine table.type.bind fun _ _ _ type => ?_
    refine table.reads_interfaceSpecifier.bind fun _ _ _ specifier => ?_
    have leading := specifier.cons (type.withRole .type).part
    refine At.orElse ?_ (At.orElse ?_ (At.orElse ?_ ?_))
    · refine (C.reads_mark "operator").bind fun _ _ _ keyword => ?_
      refine (C.reads_mark "checked").maybe.bind fun _ _ _ word => ?_
      refine C.reads_declaredOperator.bind fun _ _ _ operator => ?_
      refine table.reads_parameterList.bind fun _ _ _ parameters => ?_
      refine table.reads_functionBody.bind fun _ _ _ body => ?_
      exact .pure ⟨⟨⟨(leading.append ((word.toList.mono (·.part)).cons keyword.part)).append
        ((body.chain.cons (parameters.withRole .parameters).part).cons
          (operator.withRole .operator).part), by simp⟩, rfl⟩, .inr (.inl rfl)⟩
    · refine (C.reads_mark "this").bind fun _ _ _ keyword => ?_
      refine (table.reads_parametersBetween "[" "]").bind fun _ _ _ parameters => ?_
      refine table.reads_accessorBody.bind fun _ _ _ body => ?_
      exact .pure ⟨⟨⟨leading.append ((body.cons (parameters.withRole .parameters).part).cons
        keyword.part), by simp⟩, rfl⟩, .inl rfl⟩
    · refine table.reads_methodRest.bind fun _ _ _ following => ?_
      exact .pure ⟨⟨⟨leading.append following.chain, by simp⟩, rfl⟩, .inr (.inl rfl)⟩
    · refine C.reads_name.bind fun _ _ _ word => ?_
      refine table.reads_accessorBody.bind fun _ _ _ body => ?_
      refine table.reads_propertyValue.maybeAll.bind fun _ _ _ value => ?_
      exact .pure ⟨⟨⟨(leading.append (body.cons (word.withRole .name).part)).append value, by simp⟩,
        rfl⟩, .inl rfl⟩
  · refine table.reads_variableDeclaration.bind fun _ _ _ declaration => ?_
    refine (C.reads_mark ";").bind fun _ _ _ semicolon => ?_
    exact .pure ⟨⟨⟨.cons declaration (.single semicolon.part), by simp⟩, rfl⟩, .inl rfl⟩

theorem Table.reads_typeOrDelegateRest (table : C.Table rules rules') :
    C.Reads C.Member (typeOrDelegateRest rules) (typeOrDelegateRest rules') := by
  refine Reads.orElse (fun _ => ?_) (Reads.orElse (fun _ => ?_) fun _ => ?_)
  · refine (table.reads_typeRest.gives isDeclared_typeRest).bind fun _ one two labelled => ?_
    rcases one with ⟨parts, kind⟩
    rcases two with ⟨parts', kind'⟩
    rcases labelled with ⟨⟨parts, same⟩, isDeclared⟩
    cases same
    exact .pure ⟨⟨parts, rfl⟩, .inr (.inr ⟨kind, rfl, isDeclared⟩)⟩
  · exact table.reads_enumRest.bind fun _ _ _ parts =>
      .pure ⟨⟨parts, rfl⟩, .inr (.inr ⟨.enum, rfl, rfl⟩)⟩
  · exact table.reads_delegateRest.bind fun _ _ _ parts => .pure ⟨⟨parts, rfl⟩, .inl rfl⟩

theorem Table.reads_memberRest (table : C.Table rules rules') :
    C.Reads C.Member (memberRest rules) (memberRest rules') := by
  refine table.reads_typeOrDelegateRest.orElse <| table.reads_eventRest.orElse <|
    Reads.orElse (fun _ => ?_) <| Reads.orElse (fun _ => ?_) <| Reads.orElse (fun _ => ?_)
      table.reads_typedMemberRest
  · exact table.reads_conversionRest.bind fun _ _ _ parts => .pure ⟨⟨parts, rfl⟩, .inr (.inl rfl)⟩
  · exact table.reads_destructorRest.bind fun _ _ _ parts => .pure ⟨⟨parts, rfl⟩, .inr (.inl rfl)⟩
  · refine (C.looks_seesAt 1 _).bind fun _ => ?_
    refine .check rfl fun _ => ?_
    exact table.reads_constructorRest.bind fun _ _ _ parts => .pure ⟨⟨parts, rfl⟩, .inr (.inl rfl)⟩

/-- Attributes, modifiers and what stands behind them. -/
theorem reads_modified {rest rest' : Reader (List Node × Form)}
    (reads : C.Reads C.Member rest rest') (gives : Gives IsHeld rest) :
    C.Reads C.Part (do
      let attributes ← many attributeList
      let modifiers ← many modifier
      let (parts, form) ← rest
      return .branch form (attributes ++ modifiers ++ parts)) (do
      let attributes ← many attributeList
      let modifiers ← many modifier
      let (parts, form) ← rest'
      return .branch form (attributes ++ modifiers ++ parts)) := by
  intro start
  refine (C.reads_attributeList.gives roleless_attributeList).many.bind fun _ _ _ attributes => ?_
  refine (C.reads_modifier.gives roleless_modifier).many.bind fun _ _ _ modifiers => ?_
  refine (reads.gives gives).bind fun _ one two member => ?_
  rcases one with ⟨parts, form⟩
  rcases two with ⟨parts', form'⟩
  rcases member with ⟨⟨⟨parts, same⟩, isMember⟩, holds⟩
  cases same
  have attributed := Node.HoldBodies.of_role (attributes.forall_mem (·.2))
  have modified := Node.HoldBodies.of_role (modifiers.forall_mem (·.2))
  have nonempty := parts.nonempty
  refine .pure (C.branch (((attributes.mono (·.1.part)).append (modifiers.mono (·.1.part))).append
    parts.chain) ?_)
  rcases isMember with free | isFunction | ⟨kind, rfl, isDeclared⟩
  · exact .of_isFree free (by simp [nonempty])
  · exact .of_isFunction isFunction (by simp [nonempty])
      (by simp [attributed, modified, holds.function isFunction])
  · refine .of_typeDeclaration isDeclared (by simp [nonempty]) ?_
    rw [List.append_assoc]
    exact ((holds.type rfl).append (modifiers.forall_mem (·.2))).append
      (attributes.forall_mem (·.2))

theorem Table.reads_member (table : C.Table rules rules') :
    C.Reads C.Part (member rules) (member rules') :=
  reads_modified table.reads_memberRest gives_memberRest

theorem Table.reads_usingDirective (table : C.Table rules rules') :
    C.Reads C.Part (usingDirective rules) (usingDirective rules') := by
  intro start
  refine (C.reads_mark "global").maybe.bind fun _ _ _ everywhere => ?_
  refine (C.reads_mark "using").bind fun _ _ _ keyword => ?_
  refine (C.reads_markOneOf _).many.bind fun _ _ _ words => ?_
  refine (Reads.maybeAll (V := C.Part) fun _ => ?_).bind fun _ _ _ aliasName => ?_
  · refine C.reads_name.bind fun _ _ _ word => ?_
    refine (C.reads_mark "=").bind fun _ _ _ equals => ?_
    exact .pure (.cons word.part (.single equals.part))
  · refine table.type.bind fun _ _ _ target => ?_
    refine (C.reads_mark ";").bind fun _ _ _ semicolon => ?_
    exact .pure (C.part_of_isFree rfl (by simp)
      ((((everywhere.toList.mono (·.part)).append ((words.mono (·.part)).cons keyword.part)).append
        aliasName).append (.cons target.part (.single semicolon.part))))

theorem reads_externAlias (C : Correspondence left right) :
    C.Reads C.Part externAlias externAlias := by
  intro start
  refine (C.reads_mark "extern").bind fun _ _ _ keyword => ?_
  refine (C.reads_mark "alias").bind fun _ _ _ aliasWord => ?_
  refine C.reads_name.bind fun _ _ _ word => ?_
  refine (C.reads_mark ";").bind fun _ _ _ semicolon => ?_
  exact .pure (C.part_of_isFree rfl (by simp)
    (.cons keyword.part (.cons aliasWord.part (.cons word.part (.single semicolon.part)))))

theorem Table.reads_namespaceDeclaration (table : C.Table rules rules') :
    C.Reads C.Part (namespaceDeclaration rules) (namespaceDeclaration rules') := by
  intro start
  refine (C.reads_mark "namespace").bind fun _ _ _ keyword => ?_
  refine C.reads_namespaceName.bind fun _ _ _ path => ?_
  refine At.orElse ?_ ?_
  · refine table.reads_declarationList.bind fun _ _ _ body => ?_
    refine (C.reads_trailing ";").bind fun _ _ _ semicolon => ?_
    exact .pure (C.part_of_isFree rfl (by simp)
      ((((semicolon.mono (·.part)).cons (body.withRole .body).part).cons
        (path.withRole .name).part).cons keyword.part))
  · refine (C.reads_mark ";").bind fun _ _ _ semicolon => ?_
    exact .pure (C.part_of_isFree rfl (by simp)
      (.cons keyword.part (.cons (path.withRole .name).part (.single semicolon.part))))

theorem Table.reads_directiveOrNamespace (table : C.Table rules rules') :
    C.Reads C.Part (directiveOrNamespace rules) (directiveOrNamespace rules') :=
  C.reads_externAlias.orElse <| table.reads_usingDirective.orElse table.reads_namespaceDeclaration

theorem Table.reads_declarationRule (table : C.Table rules rules') :
    C.Reads C.Part (declarationRule rules) (declarationRule rules') :=
  table.reads_directiveOrNamespace.orElse <| (C.reads_emptyStatement.mono (·.part)).orElse <|
    ((table.reads_conditionalGroup (table.declaration.orElse
      (C.reads_brokenPart.mono (·.part)))).mono (·.part)).orElse table.reads_member

theorem Table.reads_outerType (table : C.Table rules rules') :
    C.Reads C.Part (outerType rules) (outerType rules') :=
  reads_modified table.reads_typeOrDelegateRest gives_typeOrDelegateRest

theorem reads_globalAttribute (C : Correspondence left right) :
    C.Reads C.Part globalAttribute globalAttribute := by
  intro start
  refine (C.looks_seesAt 1 _).bind fun _ => ?_
  refine .check rfl fun _ => ?_
  exact (C.reads_attributeList _).mono (·.part)

theorem Table.reads_outerItem (table : C.Table rules rules') :
    C.Reads C.Part (outerItem rules) (outerItem rules') := by
  refine table.reads_directiveOrNamespace.orElse <| C.reads_globalAttribute.orElse <|
    table.reads_outerType.orElse fun _ => ?_
  refine table.statement.bind fun _ _ _ statement => ?_
  exact .pure (C.part_of_isFree rfl (by simp) (.single statement.part))

theorem reads_strayToken (C : Correspondence left right) :
    C.Reads C.Part strayToken strayToken := by
  intro start
  refine (C.reads_take fun _ _ _ _ => rfl).bind fun _ _ _ taken => ?_
  exact .pure (C.part_of_isFree rfl (by simp) (.single (taken.1.mark C).part))

theorem Table.reads_items (table : C.Table rules rules') :
    C.Reads (Chain C.Part) (items rules) (items rules') := by
  refine Reads.many ?_
  exact ((table.reads_conditionalGroup (table.reads_outerItem.orElse
    (C.reads_brokenPart.mono (·.part)))).mono (·.part)).orElse <|
      table.reads_outerItem.orElse <| (C.reads_broken.mono (·.part)).orElse C.reads_strayToken

/-- The tables of the rules correspond for every budget. -/
theorem table_rules (C : Correspondence left right) (budget : Nat) :
    C.Table (Grammar.rules budget) (Grammar.rules budget) := by
  induction budget with
  | zero => exact ⟨fun _ _ _ => .failure, fun _ _ => .failure, fun _ => .failure, fun _ => .failure,
      fun _ => .failure, fun _ => .failure⟩
  | succ budget ih =>
    exact ⟨ih.reads_expressionRule, fun _ _ => gives_expressionRule, ih.reads_typeRule,
      ih.reads_patternRule, ih.reads_statementRule, ih.reads_declarationRule⟩

/-- The items of the two documents are built from the same tokens, one behind the other. -/
theorem chain_itemsOf (C : Correspondence left right) :
    ∃ stop, Chain C.Part 0 stop (itemsOf left) (itemsOf right) := by
  have table := C.table_rules (depthPerToken * (left.size + 1))
  unfold itemsOf
  rw [C.size_eq]
  rcases table.reads_items 0 with ⟨one, two⟩ | ⟨x, y, stop, one, two, related⟩
  · rw [one, two]
    exact ⟨0, .nil⟩
  · rw [one, two]
    exact ⟨stop, related⟩

end Correspondence

end Grammar

end AssertionLint
