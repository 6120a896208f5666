import AssertionLint.Proofs.Grammar.Values

/-!
# Types side by side

The rules for types and names read both documents in the same way. What they build can be a type,
and no part of it is an equals sign.
-/

namespace AssertionLint

namespace Grammar

namespace Correspondence

open Reader

variable {left right : Array Token} {C : Correspondence left right} {α : Type} {position : Nat}
  {rules rules' : Rules}

/-- The rules that refer to each other read both documents in the same way. -/
structure Table (C : Correspondence left right) (rules rules' : Rules) : Prop where
  expression : ∀ floor ending, C.Reads C.Operand (rules (.expression floor ending))
    (rules' (.expression floor ending))
  value : ∀ floor ending, Gives Node.IsValue (rules (.expression floor ending))
  type : C.Reads C.TypePart (rules .type) (rules' .type)
  pattern : C.Reads C.Part (rules .pattern) (rules' .pattern)
  statement : C.Reads C.Operand (rules .statement) (rules' .statement)
  declaration : C.Reads C.Part (rules .declaration) (rules' .declaration)

theorem Table.reads_value (table : C.Table rules rules') :
    C.Reads C.Value (rules (.expression 0 .plain)) (rules' (.expression 0 .plain)) :=
  ((table.expression 0 .plain).gives (table.value 0 .plain)).mono fun both => ⟨both.1, both.2⟩

theorem looks_seesNamedClause (C : Correspondence left right) :
    C.Looks seesNamedClause seesNamedClause := by
  intro start
  refine (C.looks_seesOneOf _).bind fun _ => ?_
  refine .peek 1 fun _ _ peeked => ?_
  refine .pure ⟨rfl, ?_⟩
  rw [peeked.any_eq fun _ _ _ _ => rfl]

theorem Table.reads_typeArguments (table : C.Table rules rules') :
    C.Reads C.InnerPart (typeArguments rules) (typeArguments rules') := by
  intro start
  refine (C.reads_mark "<").bind fun _ _ _ opening => ?_
  refine (Reads.orElse (V := Chain C.Part) (fun _ => ?_) fun _ => ?_).bind
    fun _ _ _ arguments => ?_
  · refine ((table.type.mono (·.part)).separated (·.part)).bind fun _ _ _ arguments => ?_
    refine (C.reads_mark ">").bind fun _ _ _ closing => ?_
    exact .pure (arguments.append (.single closing.part))
  · refine (C.reads_mark ",").many.bind fun _ _ _ commas => ?_
    refine (C.reads_mark ">").bind fun _ _ _ closing => ?_
    exact .pure ((commas.mono (·.part)).append (.single closing.part))
  · exact .pure ⟨C.part_of_isFree rfl (by simp) (.cons opening.part arguments), by simp⟩

theorem Table.reads_simpleTypeName (table : C.Table rules rules') :
    C.Reads C.TypePart (simpleTypeName rules) (simpleTypeName rules') := by
  intro start
  refine C.reads_name.bind fun _ _ _ word => ?_
  refine table.reads_typeArguments.maybe.bind fun _ _ _ arguments => ?_
  cases arguments with
  | none => exact .pure word
  | some arguments =>
    exact .pure (C.type_of_inner rfl (by simp) (.cons word.inner (.single arguments)))

theorem Table.reads_rootTypeName (table : C.Table rules rules') :
    C.Reads C.TypePart (rootTypeName rules) (rootTypeName rules') := by
  intro start
  refine (C.looks_seesAt 1 ["::"]).bind fun _ => ?_
  refine .ite rfl (fun _ => ?_) fun _ => table.reads_simpleTypeName _
  refine C.reads_name.bind fun _ _ _ aliasName => ?_
  refine (C.reads_mark "::").bind fun _ _ _ colons => ?_
  refine table.reads_simpleTypeName.bind fun _ _ _ member => ?_
  exact .pure (C.type_of_inner rfl (by simp)
    (.cons aliasName.inner (.cons (colons.inner (by simp)) (.single member.inner))))

theorem Table.reads_typeName (table : C.Table rules rules') :
    C.Reads C.TypePart (typeName rules) (typeName rules') := by
  intro start
  refine table.reads_rootTypeName.bind fun _ _ _ root => ?_
  refine .iterate (fun _ _ _ qualifier => ?_) root
  refine (C.reads_mark ".").bind fun _ _ _ dot => ?_
  refine table.reads_simpleTypeName.bind fun _ _ _ member => ?_
  exact .pure (C.type_of_inner rfl (by simp)
    (.cons qualifier.inner (.cons (dot.inner (by simp)) (.single member.inner))))

theorem reads_namespaceName (C : Correspondence left right) :
    C.Reads C.TypePart namespaceName namespaceName := by
  intro start
  refine (Reads.orElse (V := C.TypePart) (fun _ => ?_) C.reads_name).bind fun _ _ _ root => ?_
  · refine C.reads_name.bind fun _ _ _ aliasName => ?_
    refine (C.reads_mark "::").bind fun _ _ _ colons => ?_
    refine C.reads_name.bind fun _ _ _ member => ?_
    exact .pure (C.type_of_inner rfl (by simp)
      (.cons aliasName.inner (.cons (colons.inner (by simp)) (.single member.inner))))
  · refine .iterate (fun _ _ _ qualifier => ?_) root
    refine (C.reads_mark ".").bind fun _ _ _ dot => ?_
    refine C.reads_name.bind fun _ _ _ member => ?_
    exact .pure (C.type_of_inner rfl (by simp)
      (.cons qualifier.inner (.cons (dot.inner (by simp)) (.single member.inner))))

theorem reads_keywordType (C : Correspondence left right) :
    C.Reads C.TypePart keywordType keywordType := by
  intro start
  refine (C.reads_take fun _ _ _ _ => rfl).bind fun _ _ _ taken => ?_
  rw [taken.1.text_eq C]
  exact .pure ⟨taken.1.operand C rfl, rfl⟩

theorem Table.reads_tupleTypeElement (table : C.Table rules rules') :
    C.Reads C.InnerPart (tupleTypeElement rules) (tupleTypeElement rules') := by
  intro start
  refine table.type.bind fun _ _ _ element => ?_
  refine C.reads_name.maybe.bind fun _ _ _ label => ?_
  exact .pure ⟨C.part_of_isFree rfl (by simp)
    (.cons element.part (label.toList.mono (·.part))), by simp⟩

theorem Table.reads_tupleType (table : C.Table rules rules') :
    C.Reads C.TypePart (tupleType rules) (tupleType rules') := by
  intro start
  refine (C.reads_mark "(").bind fun _ _ _ opening => ?_
  refine (table.reads_tupleTypeElement.separated (·.inner (by simp))).bind
    fun _ _ _ elements => ?_
  refine .check (by rw [elements.length_eq]) fun _ => ?_
  refine (C.reads_mark ")").bind fun _ _ _ closing => ?_
  exact .pure (C.type_of_inner rfl (by simp)
    ((elements.cons (opening.inner (by simp))).append (.single (closing.inner (by simp)))))

theorem Table.reads_referenceType (table : C.Table rules rules') :
    C.Reads C.TypePart (referenceType rules) (referenceType rules') := by
  intro start
  refine (C.looks_sees "ref").bind fun _ => ?_
  refine .ite rfl (fun _ => ?_) fun _ => ?_
  · refine (C.reads_mark "ref").bind fun _ _ _ reference => ?_
    refine (C.reads_mark "readonly").maybe.bind fun _ _ _ word => ?_
    refine table.type.bind fun _ _ _ referred => ?_
    exact .pure (C.type_of_inner rfl (by simp)
      (((word.toList.mono (·.inner (by simp))).cons (reference.inner (by simp))).append
        (.single referred.inner)))
  · refine (C.reads_mark "scoped").bind fun _ _ _ restriction => ?_
    refine (C.looks_sees "ref").bind fun _ => ?_
    refine (C.looks_seesNameAt 1).bind fun _ => ?_
    refine (C.looks_seesAt 1 ["<", "."]).bind fun _ => ?_
    refine .check rfl fun _ => ?_
    refine table.type.bind fun _ _ _ referred => ?_
    exact .pure (C.type_of_inner rfl (by simp)
      (.cons (restriction.inner (by simp)) (.single referred.inner)))

theorem Table.reads_functionPointerType (table : C.Table rules rules') :
    C.Reads C.TypePart (functionPointerType rules) (functionPointerType rules') := by
  intro start
  refine (C.reads_mark "delegate").bind fun _ _ _ keyword => ?_
  refine (C.reads_mark "*").bind fun _ _ _ star => ?_
  refine C.reads_name.many.bind fun _ _ _ convention => ?_
  refine (C.reads_mark "<").bind fun _ _ _ opening => ?_
  refine (Reads.separated (W := C.InnerPart) (fun _ => ?_) (·.inner (by simp))).bind
    fun _ _ _ parameters => ?_
  · refine (C.reads_markOneOf _).maybe.bind fun _ _ _ modifier => ?_
    refine table.type.bind fun _ _ _ type => ?_
    exact .pure ⟨C.part_of_isFree rfl (by simp)
      ((modifier.toList.mono (·.part)).append (.single type.part)), by simp⟩
  · refine (C.reads_mark ">").bind fun _ _ _ closing => ?_
    exact .pure (C.type_of_inner rfl (by simp)
      (((((convention.mono (·.inner)).cons (star.inner (by simp))).cons
        (keyword.inner (by simp))).append (parameters.cons (opening.inner (by simp)))).append
          (.single (closing.inner (by simp)))))

theorem Table.reads_baseType (table : C.Table rules rules') :
    C.Reads C.TypePart (baseType rules) (baseType rules') :=
  C.reads_keywordType.orElse <| table.reads_functionPointerType.orElse <|
    table.reads_referenceType.orElse <| table.reads_typeName.orElse table.reads_tupleType

theorem reads_openRank (C : Correspondence left right) :
    C.Reads C.InnerPart openRank openRank := by
  intro start
  refine (C.reads_mark "[").bind fun _ _ _ opening => ?_
  refine (C.reads_mark ",").many.bind fun _ _ _ commas => ?_
  refine (C.reads_mark "]").bind fun _ _ _ closing => ?_
  exact .pure ⟨C.part_of_isFree rfl (by simp)
    (((commas.mono (·.part)).cons opening.part).append (.single closing.part)), by simp⟩

theorem Table.reads_sizedRank (table : C.Table rules rules') :
    C.Reads C.InnerPart (sizedRank rules) (sizedRank rules') := by
  intro start
  refine (C.reads_mark "[").bind fun _ _ _ opening => ?_
  refine (((table.expression 0 .plain).mono (·.part)).separated (·.part)).maybeAll.bind
    fun _ _ _ sizes => ?_
  refine (C.reads_mark ",").many.bind fun _ _ _ commas => ?_
  refine (C.reads_mark "]").bind fun _ _ _ closing => ?_
  exact .pure ⟨C.part_of_isFree rfl (by simp)
    (((sizes.cons opening.part).append (commas.mono (·.part))).append (.single closing.part)),
    by simp⟩

section Suffixes

variable {start : Nat} {x y : Node}

theorem TypePart.arraySuffix (type : C.TypePart start position x y) :
    C.At position (C.TypePart start) (arraySuffix x) (arraySuffix y) := by
  refine C.reads_openRank.bind fun _ _ _ rank => ?_
  exact .pure (C.type_of_inner rfl (by simp)
    (.cons (type.withRole .type).inner (.single rank)))

theorem TypePart.sizedSuffix (type : C.TypePart start position x y)
    (table : C.Table rules rules') :
    C.At position (C.TypePart start) (sizedSuffix rules x) (sizedSuffix rules' y) := by
  refine table.reads_sizedRank.bind fun _ _ _ rank => ?_
  exact .pure (C.type_of_inner rfl (by simp)
    (.cons (type.withRole .type).inner (.single rank)))

theorem TypePart.nullableSuffix (type : C.TypePart start position x y) :
    C.At position (C.TypePart start) (nullableSuffix x) (nullableSuffix y) := by
  refine (C.reads_mark "?").bind fun _ _ _ question => ?_
  exact .pure (C.type_of_inner rfl (by simp)
    (.cons type.inner (.single (question.inner (by simp)))))

theorem TypePart.pointerSuffix (type : C.TypePart start position x y) :
    C.At position (C.TypePart start) (pointerSuffix x) (pointerSuffix y) := by
  refine (C.reads_mark "*").bind fun _ _ _ star => ?_
  exact .pure (C.type_of_inner rfl (by simp)
    (.cons type.inner (.single (star.inner (by simp)))))

end Suffixes

theorem Table.reads_typeRule (table : C.Table rules rules') :
    C.Reads C.TypePart (typeRule rules) (typeRule rules') := by
  intro start
  refine table.reads_baseType.bind fun _ _ _ base => ?_
  refine .iterate (fun _ _ _ type => ?_) base
  exact type.arraySuffix.orElse (type.nullableSuffix.orElse type.pointerSuffix)

theorem Table.reads_testedType (table : C.Table rules rules') :
    C.Reads C.TypePart (testedType rules) (testedType rules') := by
  intro start
  refine table.reads_baseType.bind fun _ _ _ base => ?_
  refine .iterate (fun _ _ _ type => ?_) base
  refine (type.sizedSuffix table).orElse ?_
  refine .peek 1 fun _ _ peeked => ?_
  refine .check (by rw [peeked.any_eq fun _ _ _ _ => rfl]) fun _ => ?_
  exact type.nullableSuffix

theorem Table.reads_castType (table : C.Table rules rules') :
    C.Reads C.TypePart (castType rules) (castType rules') := by
  intro start
  refine table.type.bind fun _ _ _ base => ?_
  refine .iterate (fun _ _ _ type => ?_) base
  refine .behindBrackets fun _ _ peeked => ?_
  refine .check (by rw [peeked.any_eq fun _ _ _ _ => rfl]) fun _ => ?_
  exact type.sizedSuffix table

theorem Table.reads_createdType (table : C.Table rules rules') :
    C.Reads C.TypePart (createdType rules) (createdType rules') := by
  intro start
  refine table.reads_baseType.bind fun _ _ _ base => ?_
  refine .iterate (fun _ _ _ type => ?_) base
  refine At.orElse ?_ type.pointerSuffix
  refine (C.looks_seesAt 1 _).bind fun _ => ?_
  refine .check rfl fun _ => ?_
  exact type.nullableSuffix

end Correspondence

end Grammar

end AssertionLint
