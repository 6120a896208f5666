import AssertionLint.CSharp.Grammar.Patterns
import AssertionLint.Proofs.Grammar.Parameters

/-!
# Patterns side by side

The rules for patterns read both documents in the same way. Whether a pattern is taken for a
constant depends on the form of its node and on the tokens ahead, never on places.
-/

namespace AssertionLint

namespace Grammar

namespace Correspondence

open Reader

variable {left right : Array Token} {C : Correspondence left right} {position : Nat}
  {rules rules' : Rules}

section Forms

variable {start stop : Nat} {x y : Node}

theorem isConstant_eq (C : Correspondence left right) (part : C.Part start stop x y) :
    isConstant y = isConstant x := by
  unfold isConstant
  rw [C.form_eq part]

theorem isTypePattern_eq (C : Correspondence left right) (part : C.Part start stop x y) :
    isTypePattern y = isTypePattern x := by
  unfold isTypePattern
  rw [C.form_eq part]

end Forms

theorem reads_patternNames (C : Correspondence left right) :
    C.Reads C.Operand patternNames patternNames := by
  refine Reads.orElse (C.reads_designation.mono (·.toOperand)) fun _ => ?_
  refine (C.looks_sees "(").bind fun _ => ?_
  refine .check rfl fun _ => ?_
  exact C.reads_bracketed rfl (by simp) _

theorem reads_memberPath (C : Correspondence left right) :
    C.Reads (Chain C.Part) memberPath memberPath := by
  intro start
  refine C.reads_name.bind fun _ _ _ root => ?_
  refine At.bind (.iterate (U := C.Operand start) (fun _ _ _ target => ?_) root.toOperand)
    fun _ _ _ path => ?_
  · refine (C.reads_mark ".").bind fun _ _ _ dot => ?_
    refine C.reads_name.bind fun _ _ _ member => ?_
    exact .pure (C.operand_of_operands rfl (by simp) (by simp)
      (.cons target (.cons dot.toOperand (.single member.toOperand))))
  · refine (C.reads_mark ":").bind fun _ _ _ colon => ?_
    exact .pure (.cons path.part (.single colon.part))

theorem Table.reads_subpattern (table : C.Table rules rules') :
    C.Reads C.Part (subpattern rules) (subpattern rules') := by
  intro start
  refine C.reads_memberPath.maybeAll.bind fun _ _ _ label => ?_
  refine table.pattern.bind fun _ _ _ pattern => ?_
  exact .pure (C.part_of_isFree rfl (by simp) (label.append (.single pattern)))

theorem Table.reads_propertyClause (table : C.Table rules rules') :
    C.Reads C.Part (propertyClause rules) (propertyClause rules') := by
  intro start
  refine (C.reads_mark "\x7b").bind fun _ _ _ opening => ?_
  refine (table.reads_subpattern.separated (·.part)).maybeAll.bind fun _ _ _ patterns => ?_
  refine (C.reads_trailing ",").bind fun _ _ _ comma => ?_
  refine (C.reads_mark "\x7d").bind fun _ _ _ closing => ?_
  exact .pure (C.part_of_isFree rfl (by simp)
    (((patterns.cons opening.part).append (comma.mono (·.part))).append (.single closing.part)))

theorem Table.reads_positionalClause (table : C.Table rules rules') :
    C.Reads C.Part (positionalClause rules) (positionalClause rules') := by
  intro start
  refine (C.reads_mark "(").bind fun _ _ _ opening => ?_
  refine (table.reads_subpattern.separated (·.part)).maybeAll.bind fun _ _ _ patterns => ?_
  refine (C.reads_mark ")").bind fun _ _ _ closing => ?_
  exact .pure (C.part_of_isFree rfl (by simp)
    ((patterns.cons opening.part).append (.single closing.part)))

theorem Table.reads_listPattern (table : C.Table rules rules') :
    C.Reads C.Part (listPattern rules) (listPattern rules') := by
  intro start
  refine (C.reads_mark "[").bind fun _ _ _ opening => ?_
  refine (table.pattern.separated (·.part)).maybeAll.bind fun _ _ _ patterns => ?_
  refine (C.reads_trailing ",").bind fun _ _ _ comma => ?_
  refine (C.reads_mark "]").bind fun _ _ _ closing => ?_
  exact .pure (C.part_of_isFree rfl (by simp)
    (((patterns.cons opening.part).append (comma.mono (·.part))).append (.single closing.part)))

theorem Table.reads_partPatterns (table : C.Table rules rules') :
    C.Reads C.Parts (partPatterns rules) (partPatterns rules') := by
  intro start
  refine table.reads_positionalClause.maybe.bind fun _ positions _ isPositions => ?_
  refine table.reads_propertyClause.maybe.bind fun _ properties _ isProperties => ?_
  refine .check (by rw [isPositions.isSome_eq, isProperties.isSome_eq]) fun present => ?_
  refine .pure ⟨isPositions.toList.append isProperties.toList, ?_⟩
  cases positions <;> cases properties <;> simp at present ⊢

theorem Table.reads_typedPatternRest (table : C.Table rules rules') :
    C.Reads C.Parts (typedPatternRest rules) (typedPatternRest rules') := by
  intro start
  refine (table.reads_partPatterns.mono (·.chain)).maybeAll.bind fun _ parts _ isParts => ?_
  refine C.reads_designation.maybe.bind fun _ word _ isWord => ?_
  refine .check (by rw [isParts.isEmpty_eq, isWord.isSome_eq]) fun present => ?_
  refine .pure ⟨isParts.append (isWord.toList.mono (·.part)), ?_⟩
  cases parts <;> cases word <;> simp at present ⊢

theorem Table.reads_typedPattern (table : C.Table rules rules') :
    C.Reads C.Part (typedPattern rules) (typedPattern rules') := by
  intro start
  refine table.reads_testedType.bind fun _ _ _ type => ?_
  refine At.orElse ?_ (At.orElse ?_ ?_)
  · refine table.reads_typedPatternRest.bind fun _ _ _ following => ?_
    exact .pure (C.part_of_isFree rfl (by simp) (following.chain.cons type.part))
  · refine (C.looks_sees ".").bind fun _ => ?_
    refine .check (by rw [C.isTypePattern_eq type.part]) fun _ => ?_
    exact .pure type.part
  · refine (C.looks_seesOneOf _).bind fun _ => ?_
    refine .check rfl fun _ => ?_
    refine .pure (C.branch (.single type.part)
      ⟨by simp, nofun, nofun, ?_, nofun, nofun, nofun, nofun, nofun, nofun, .of_not_isBodied rfl⟩)
    simpa using fun _ => type.inner.untyped

theorem Table.reads_relationalPattern (table : C.Table rules rules') :
    C.Reads C.Part (relationalPattern rules) (relationalPattern rules') := by
  intro start
  refine ((C.reads_joined (by simp)).orElse (C.reads_markOneOf _)).bind fun _ _ _ operator => ?_
  refine (table.expression 0 .arrow).bind fun _ _ _ bound => ?_
  exact .pure (C.part_of_isFree rfl (by simp) (.cons operator.part (.single bound.part)))

theorem reads_varPattern (C : Correspondence left right) :
    C.Reads C.Part varPattern varPattern := by
  intro start
  refine (C.reads_mark "var").bind fun _ _ _ word => ?_
  refine C.reads_patternNames.bind fun _ _ _ names => ?_
  exact .pure (C.part_of_isFree rfl (by simp) (.cons word.part (.single names.part)))

theorem Table.reads_slicePattern (table : C.Table rules rules') :
    C.Reads C.Part (slicePattern rules) (slicePattern rules') := by
  intro start
  refine (C.reads_mark "..").bind fun _ _ _ dots => ?_
  refine table.pattern.maybe.bind fun _ _ _ pattern => ?_
  exact .pure (C.part_of_isFree rfl (by simp) (pattern.toList.cons dots.part))

theorem Table.reads_untypedPattern (table : C.Table rules rules') :
    C.Reads C.Part (untypedPattern rules) (untypedPattern rules') := by
  intro start
  refine table.reads_partPatterns.bind fun _ _ _ parts => ?_
  refine (C.looks_sees "[").bind fun _ => ?_
  refine .check rfl fun _ => ?_
  refine C.reads_designation.maybe.bind fun _ _ _ word => ?_
  exact .pure (C.part_of_isFree rfl (by simp [parts.nonempty])
    (parts.chain.append (word.toList.mono (·.part))))

theorem Table.looks_startsOtherPattern (table : C.Table rules rules') :
    C.Looks (startsOtherPattern rules) (startsOtherPattern rules') := by
  refine Reads.holds (V := fun _ _ _ _ => True) fun start => ?_
  refine (Reads.many (V := Chain C.Part) fun _ => ?_).bind fun _ _ _ openings => ?_
  · refine (C.looks_seesOneOf _).bind fun _ => ?_
    refine .check rfl fun _ => ?_
    refine table.reads_typeName.maybe.bind fun _ _ _ type => ?_
    refine (C.reads_markOneOf _).bind fun _ _ _ opening => ?_
    exact .pure ((type.toList.mono (·.part)).append (.single opening.part))
  · refine At.orElse ((C.reads_markOneOf _ _).mono fun _ => trivial) (At.orElse ?_ ?_)
    · refine .check (by rw [openings.isEmpty_eq]) fun _ => ?_
      refine table.reads_declarationExpression.bind fun _ _ _ declared => ?_
      refine (C.looks_seesOneOf _).bind fun _ => ?_
      refine .check rfl fun _ => ?_
      exact .pure trivial
    · refine .check (by rw [openings.isEmpty_eq]) fun _ => ?_
      refine C.reads_name.bind fun _ _ _ type => ?_
      refine table.reads_typeArguments.bind fun _ _ _ arguments => ?_
      refine C.reads_designation.bind fun _ _ _ word => ?_
      exact .pure trivial

theorem looks_seesTypedPatternRest (C : Correspondence left right) {start stop : Nat} {x y : Node}
    (part : C.Part start stop x y) :
    C.Looks (seesTypedPatternRest x) (seesTypedPatternRest y) := by
  intro start
  refine (C.looks_sees "?").bind fun _ => ?_
  refine .ite rfl (fun _ => ?_) fun _ => ?_
  · rw [C.form_eq part]
    split
    all_goals first
      | exact .pure ⟨rfl, rfl⟩
      | refine .peek 1 fun _ _ peeked => ?_
        rw [peeked.any_eq fun _ _ _ _ => rfl]
        exact .pure ⟨rfl, rfl⟩
  · refine C.looks_seesNamedClause.bind fun _ => ?_
    refine .peek 0 fun _ _ peeked => ?_
    rw [peeked.any_eq fun _ _ _ _ => rfl]
    exact .pure ⟨rfl, rfl⟩

theorem Table.reads_constantPattern (table : C.Table rules rules') :
    C.Reads C.Operand (constantPattern rules) (constantPattern rules') := by
  intro start
  refine table.looks_startsOtherPattern.bind fun _ => ?_
  refine .check rfl fun _ => ?_
  refine (table.expression binaryFloor .arrow).bind fun _ _ _ value => ?_
  refine (C.looks_seesTypedPatternRest value.part).bind fun _ => ?_
  refine .check (by rw [C.isConstant_eq value.part]) fun _ => ?_
  exact .pure value

theorem Table.reads_shortConstantPattern (table : C.Table rules rules') :
    C.Reads C.Operand (shortConstantPattern rules) (shortConstantPattern rules') := by
  refine Reads.orElse (fun _ => ?_) (table.expression unaryLevel .arrow)
  refine (table.expression (testLevel + 1) .arrow).bind fun _ _ _ value => ?_
  refine .check (by rw [C.isConstant_eq value.part]) fun _ => ?_
  exact .pure value

theorem Table.reads_primaryPattern (table : C.Table rules rules') :
    C.Reads C.Part (primaryPattern rules) (primaryPattern rules') :=
  C.reads_varPattern.orElse <| table.reads_relationalPattern.orElse <|
    (table.reads_constantPattern.mono (·.part)).orElse <| table.reads_untypedPattern.orElse <|
      table.reads_typedPattern.orElse <| table.reads_listPattern.orElse <|
        table.reads_slicePattern.orElse (table.reads_shortConstantPattern.mono (·.part))

theorem Table.reads_negatedPattern (table : C.Table rules rules') :
    C.Reads C.Part (negatedPattern rules) (negatedPattern rules') := by
  intro start
  refine (C.reads_mark "not").many.bind fun _ _ _ words => ?_
  refine table.reads_primaryPattern.bind fun _ _ _ pattern => ?_
  refine .ite words.isEmpty_eq (fun none => ?_) fun _ => ?_
  · cases words with
    | nil => exact .pure pattern
    | cons => cases none
  · exact .pure (C.part_of_isFree rfl (by simp) ((words.mono (·.part)).append (.single pattern)))

theorem reads_joinedPatterns {item item' : Reader Node} (word : String)
    (reads : C.Reads C.Part item item') :
    C.Reads C.Part (joinedPatterns word item) (joinedPatterns word item') := by
  intro start
  refine reads.bind fun _ _ _ first => ?_
  refine .iterate (fun _ _ _ front => ?_) first
  refine (C.reads_mark word).bind fun _ _ _ between => ?_
  refine reads.bind fun _ _ _ back => ?_
  exact .pure (C.part_of_isFree rfl (by simp) (.cons front (.cons between.part (.single back))))

theorem Table.reads_patternRule (table : C.Table rules rules') :
    C.Reads C.Part (patternRule rules) (patternRule rules') :=
  reads_joinedPatterns "or" (reads_joinedPatterns "and" table.reads_negatedPattern)

end Correspondence

end Grammar

end AssertionLint
