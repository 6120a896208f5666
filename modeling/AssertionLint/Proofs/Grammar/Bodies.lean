import AssertionLint.CSharp.Grammar.Declarations
import AssertionLint.Proofs.Grammar.Values

/-!
# Where bodies stand

Only the rules for bodies give a part of a function the role of its body, and what they give it to
is a block or an expression behind an arrow. So every part of a function that is its body is one of
the two (`Grammar.gives_memberRest`, `Grammar.gives_methodRest`). A type declaration starts with its
keywords, which name kinds of types that can be declared.
-/

namespace AssertionLint

namespace Grammar

open Reader Node

variable {rules : Rules}

section Roles

theorem roleless_mark {text : String} : Gives (·.role = none) (mark text) :=
  .bind fun _ => .pure rfl

theorem roleless_markOneOf {texts : List String} : Gives (·.role = none) (markOneOf texts) :=
  .bind fun _ => .pure rfl

theorem roleless_bracketed {form : Form} : Gives (·.role = none) (bracketed form) := by
  intro tokens position value stop read
  unfold bracketed at read
  rw [Option.map_eq_some_iff] at read
  rcases read with ⟨length, -, same⟩
  cases same
  rfl

theorem roleless_attributeList : Gives (·.role = none) attributeList :=
  .bind fun _ => .bind fun _ => roleless_bracketed

theorem roleless_modifier : Gives (·.role = none) modifier :=
  .bind fun _ => .bind fun _ => .bind fun _ => .bind fun _ => .pure rfl

theorem roleless_localModifier : Gives (·.role = none) localModifier :=
  .bind fun _ => .bind fun _ => .bind fun _ => .pure rfl

theorem roleless_typeParameterList : Gives (·.role = none) typeParameterList :=
  .bind fun _ => .bind fun _ => .bind fun _ => .pure rfl

theorem roleless_typeConstraints : Gives (·.role = none) (typeConstraints rules) :=
  .bind fun _ => .bind fun _ => .bind fun _ => .bind fun _ => .pure rfl

theorem roleless_constructorInitializer : Gives (·.role = none) (constructorInitializer rules) :=
  .bind fun _ => .bind fun _ => .bind fun _ => .pure rfl

theorem roleless_interfaceSpecifier :
    Gives (∀ part ∈ ·, part.role = none) (interfaceSpecifier rules) := by
  refine .bind fun parts => ?_
  split
  · exact .pure (by simp)
  · exact .pure (by simp [Node.branch, Node.role])

end Roles

section Functions

theorem form_block : Gives (·.form = .block) (block rules) :=
  .bind fun _ => .bind fun _ => .bind fun _ => .pure rfl

theorem form_arrowClause : Gives (·.form = .arrowClause) (arrowClause rules) :=
  .bind fun _ => .bind fun _ => .pure rfl

theorem gives_functionBody : Gives HoldBodies (functionBody rules) := by
  refine .orElse ?_ (.orElse ?_ ?_)
  · refine .after form_block fun body isBlock => .pure ?_
    simp [isPlaced_body (.inl isBlock)]
  · refine .after form_arrowClause fun clause isClause => ?_
    refine .after roleless_mark fun semicolon noRole => .pure ?_
    simp [isPlaced_body (.inr isClause), IsPlaced.of_role, noRole]
  · refine .after roleless_mark fun semicolon noRole => .pure ?_
    simp [IsPlaced.of_role, noRole]

theorem gives_methodRest : Gives HoldBodies (methodRest rules) := by
  refine .bind fun word => ?_
  refine .after roleless_typeParameterList.maybe fun typeParameters listed => ?_
  refine .bind fun parameters => ?_
  refine .after roleless_typeConstraints.many fun constraints constrained => ?_
  refine .after gives_functionBody fun body holds => .pure ?_
  simp [IsPlaced.of_role, HoldBodies.of_role listed, HoldBodies.of_role constrained, holds]

theorem gives_conversionRest : Gives HoldBodies (conversionRest rules) := by
  refine .after roleless_markOneOf fun direction noRole => ?_
  refine .after roleless_interfaceSpecifier fun specifier specified => ?_
  refine .after roleless_mark fun keyword noRole' => ?_
  refine .after roleless_mark.maybe fun checkedWord checks => ?_
  refine .bind fun type => .bind fun parameters => ?_
  refine .after gives_functionBody fun body holds => .pure ?_
  simp [IsPlaced.of_role, noRole, noRole', HoldBodies.of_role specified, HoldBodies.of_role checks,
    holds]

theorem gives_destructorRest : Gives HoldBodies (destructorRest rules) := by
  refine .after roleless_mark fun tilde noRole => ?_
  refine .bind fun word => .bind fun parameters => ?_
  refine .after gives_functionBody fun body holds => .pure ?_
  simp [IsPlaced.of_role, noRole, holds]

theorem gives_constructorRest : Gives HoldBodies (constructorRest rules) := by
  refine .bind fun word => .bind fun parameters => ?_
  refine .after roleless_constructorInitializer.maybe fun initializer calls => ?_
  refine .after gives_functionBody fun body holds => .pure ?_
  simp [IsPlaced.of_role, HoldBodies.of_role calls, holds]

end Functions

/-- If the form is one of a function, the parts hold bodies; if it is one of a type, they do not
start with one. -/
structure IsHeld (member : List Node × Form) : Prop where
  function : member.2.isFunction = true → HoldBodies member.1
  type : member.2.isTypeDeclaration = true → StartWithoutBody member.1

/-- The first keyword of a type declaration is no body. -/
theorem gives_typeKeyword :
    Gives (fun head => ∃ first rest, head.1 = first :: rest ∧ first.role = none) typeKeyword := by
  refine .orElse ?_ (.orElse ?_ (.orElse ?_ ?_))
  · exact .after roleless_mark fun word noRole => .pure ⟨word, [], rfl, noRole⟩
  · exact .after roleless_mark fun word noRole => .pure ⟨word, [], rfl, noRole⟩
  · exact .after roleless_mark fun word noRole => .pure ⟨word, [], rfl, noRole⟩
  · refine .after roleless_mark fun word noRole => ?_
    exact .bind fun following => .bind fun _ => .bind fun _ => .bind fun _ =>
      .pure ⟨word, following.toList, rfl, noRole⟩

theorem gives_typeRest : Gives (StartWithoutBody ·.1) (typeRest rules) := by
  refine .after gives_typeKeyword fun head starts => ?_
  rcases starts with ⟨first, rest, head_eq, noRole⟩
  refine .bind fun _ => .bind fun _ => .bind fun _ => .bind fun _ => .bind fun _ => .bind fun _ =>
    .bind fun _ => .pure ?_
  simp [head_eq, noRole]

theorem gives_enumRest : Gives StartWithoutBody (enumRest rules) := by
  refine .after roleless_mark fun keyword noRole => ?_
  refine .bind fun _ => .bind fun _ => .bind fun _ => .bind fun _ => .pure ?_
  simp [noRole]

theorem gives_typedMemberRest : Gives IsHeld (typedMemberRest rules) := by
  refine .orElse ?_ (.bind fun _ => .bind fun _ => .pure ⟨nofun, nofun⟩)
  refine .bind fun type => .after roleless_interfaceSpecifier fun specifier specified => ?_
  refine .orElse ?_ (.orElse ?_ (.orElse ?_ ?_))
  · refine .after roleless_mark fun keyword noRole => ?_
    refine .after roleless_mark.maybe fun checkedWord checks => ?_
    refine .bind fun operator => .bind fun parameters => ?_
    refine .after gives_functionBody fun body holds => .pure ⟨fun _ => ?_, nofun⟩
    simp [IsPlaced.of_role, noRole, HoldBodies.of_role specified, HoldBodies.of_role checks, holds]
  · exact .bind fun _ => .bind fun _ => .bind fun _ => .pure ⟨nofun, nofun⟩
  · refine .after gives_methodRest fun following holds => .pure ⟨fun _ => ?_, nofun⟩
    simp [IsPlaced.of_role, HoldBodies.of_role specified, holds]
  · exact .bind fun _ => .bind fun _ => .bind fun _ => .pure ⟨nofun, nofun⟩

theorem gives_typeOrDelegateRest : Gives IsHeld (typeOrDelegateRest rules) := by
  refine .orElse ?_ (.orElse ?_ ?_)
  · exact .after gives_typeRest fun parts starts => .pure ⟨nofun, fun _ => starts⟩
  · exact .after gives_enumRest fun parts starts => .pure ⟨nofun, fun _ => starts⟩
  · exact .bind fun _ => .pure ⟨nofun, nofun⟩

theorem gives_eventRest : Gives IsHeld (eventRest rules) :=
  .bind fun _ => .orElse
    (.bind fun _ => .bind fun _ => .bind fun _ => .bind fun _ => .pure ⟨nofun, nofun⟩)
    (.bind fun _ => .bind fun _ => .pure ⟨nofun, nofun⟩)

/-- The parts of a method, a constructor or an operator hold bodies. -/
theorem gives_memberRest : Gives IsHeld (memberRest rules) := by
  refine .orElse gives_typeOrDelegateRest (.orElse gives_eventRest (.orElse ?_ (.orElse ?_
    (.orElse ?_ gives_typedMemberRest))))
  · exact .after gives_conversionRest fun parts holds => .pure ⟨fun _ => holds, nofun⟩
  · exact .after gives_destructorRest fun parts holds => .pure ⟨fun _ => holds, nofun⟩
  · exact .bind fun _ => .bind fun _ => .after gives_constructorRest fun parts holds =>
      .pure ⟨fun _ => holds, nofun⟩

theorem isDeclared_typeKeyword : Gives (·.2.isDeclared = true) typeKeyword := by
  refine .orElse ?_ (.orElse ?_ (.orElse ?_ ?_))
  · exact .bind fun _ => .pure rfl
  · exact .bind fun _ => .pure rfl
  · exact .bind fun _ => .pure rfl
  · exact .bind fun _ => .bind fun _ => .bind fun _ => .bind fun _ => .bind fun _ => .pure rfl

theorem isDeclared_typeRest : Gives (·.2.isDeclared = true) (typeRest rules) := by
  refine .after isDeclared_typeKeyword fun head isDeclared => ?_
  exact .bind fun _ => .bind fun _ => .bind fun _ => .bind fun _ => .bind fun _ => .bind fun _ =>
    .bind fun _ => .pure isDeclared

end Grammar

end AssertionLint
