import AssertionLint.Proofs.Model.Simulation
import Mathlib.Data.List.Forall2

/-!
# Constraints are decomposed without loss

Reading a constraint only groups its segments. The operands of `&` and `|` come one after the other;
the parts of an operand, with the combinators between them, are the chain of its segments again; and
a combinator is left out exactly where another segment follows. All this holds whatever a model
answers and however its answers change. If a model answers consistently, the root of a part is its
first segment with the type of a constraint (`ConstraintExpr.read_isDecomposition`).
-/

namespace AssertionLint

namespace ConstraintExpr

/-- The operands of `&` and `|`, through parentheses, from left to right. -/
inductive Operands : Expr → List Expr → Prop
  | parenthesized {inner : Expr} {operands : List Expr} (span : Option Span) :
      Operands inner operands → Operands (.parenthesized inner span) operands
  | joined {operator : BinaryOperator} {left right : Expr} {lefts rights : List Expr}
      (span : Option Span) (joins : operator = .bitwiseAnd ∨ operator = .bitwiseOr) :
      Operands left lefts → Operands right rights →
      Operands (.binary operator left right span) (lefts ++ rights)
  | single {expr : Expr} (noParentheses : ∀ inner span, expr ≠ .parenthesized inner span)
      (noOperator : ∀ operator left right span, expr = .binary operator left right span →
        operator ≠ .bitwiseAnd ∧ operator ≠ .bitwiseOr) : Operands expr [expr]

/-- An expression is a member, or the call of a member, of another one. -/
inductive IsMemberOf : Expr → Expr → Prop
  | member (target : Expr) (member : SimpleName) (span : Option Span) :
      IsMemberOf (.memberAccess target member span) target
  | call (target : Expr) (member : SimpleName) (span : Option Span) (arguments : ArgumentList)
      (callSpan : Option Span) :
      IsMemberOf (.invocation (.memberAccess target member span) arguments callSpan) target

/-- The segments of an expression from the innermost to the outermost. -/
inductive IsChain : Expr → List Expr → Prop
  | start {expr : Expr} (isFirst : ∀ target, ¬IsMemberOf expr target) : IsChain expr [expr]
  | segment {expr target : Expr} {chain : List Expr} (isMember : IsMemberOf expr target) :
      IsChain target chain → IsChain expr (chain ++ [expr])

/-- The segment is a member that joins two parts. -/
def Joins (segment : Expr) : Prop :=
  ∃ target member span, segment = .memberAccess target member span ∧
    member.identifier ∈ ["And", "Or", "With"]

/-- The segments of parts with a combinator behind each part but the last. The combinators are
marked. -/
def rejoined : List (List Expr) → List Expr → List (Expr × Bool)
  | part :: parts, combinator :: others =>
    part.map (·, false) ++ (combinator, true) :: rejoined parts others
  | parts, [] => parts.flatten.map (·, false)
  | [], _ => []

/-- With a combinator between each two of them, the parts are the segments of the chain. The
combinators are the segments that join two parts and are followed by another one. -/
def Rejoins (parts : List (List Expr)) (chain : List Expr) : Prop :=
  ∃ combinators, combinators.length + 1 = parts.length ∧
    (rejoined parts combinators).map (·.1) = chain ∧
    ∀ before segment isLeftOut after,
      rejoined parts combinators = before ++ (segment, isLeftOut) :: after →
        (isLeftOut = true ↔ Joins segment ∧ after ≠ [])

theorem operands_operands (expr : Expr) : Operands expr (operands expr) := by
  fun_induction operands expr with
  | case1 inner span ih => exact .parenthesized span ih
  | case2 left right span leftIh rightIh => exact .joined span (.inl rfl) leftIh rightIh
  | case3 left right span leftIh rightIh => exact .joined span (.inr rfl) leftIh rightIh
  | case4 expr noParentheses notAnd notOr =>
    refine .single noParentheses ?_
    rintro operator left right span rfl
    exact ⟨fun isAnd => notAnd left right span (isAnd ▸ rfl),
      fun isOr => notOr left right span (isOr ▸ rfl)⟩

theorem qualifier?_eq_some_iff {expr target : Expr} :
    qualifier? expr = some target ↔ IsMemberOf expr target := by
  constructor
  · intro found
    unfold qualifier? at found
    split at found <;> cases found
    · exact .call ..
    · exact .member ..
  · rintro (_ | _) <;> rfl

theorem isChain_segments (expr : Expr) : IsChain expr (segments expr) := by
  fun_induction segments expr with
  | case1 expr target found ih => exact .segment (qualifier?_eq_some_iff.mp found) ih
  | case2 expr noTarget =>
    refine .start fun target isMember => ?_
    rw [qualifier?_eq_some_iff.mpr isMember] at noTarget
    cases noTarget

theorem IsChain.sizeOf_le {expr : Expr} {chain : List Expr} (isChain : IsChain expr chain) :
    ∀ segment ∈ chain, sizeOf segment ≤ sizeOf expr := by
  induction isChain with
  | start => simp
  | segment isMember _ ih =>
    have smaller := sizeOf_lt_of_qualifier? (qualifier?_eq_some_iff.mpr isMember)
    intro segment member
    rcases List.mem_append.mp member with inner | outer
    · have := ih segment inner
      omega
    · exact Nat.le_of_eq (congrArg sizeOf (List.mem_singleton.mp outer))

/-- No segment occurs twice in a chain, since each one contains those in front of it. -/
theorem IsChain.nodup {expr : Expr} {chain : List Expr} (isChain : IsChain expr chain) :
    chain.Nodup := by
  induction isChain with
  | start => simp
  | segment isMember inner ih =>
    have smaller := sizeOf_lt_of_qualifier? (qualifier?_eq_some_iff.mpr isMember)
    refine List.nodup_append.mpr ⟨ih, by simp, ?_⟩
    rintro segment member _ outer rfl
    have := inner.sizeOf_le segment member
    rw [List.mem_singleton.mp outer] at this
    omega

theorem isCombinator_iff {segment : Expr} : isCombinator segment = true ↔ Joins segment := by
  constructor
  · intro combines
    unfold isCombinator at combines
    split at combines
    · exact ⟨_, _, _, rfl, by simpa [Names.combinators] using combines⟩
    · cases combines
  · rintro ⟨target, member, span, rfl, named⟩
    simpa [isCombinator, Names.combinators] using named

theorem rejoined_cons (segment : Expr) (part : List Expr) (parts : List (List Expr))
    (combinators : List Expr) :
    rejoined ((segment :: part) :: parts) combinators =
      (segment, false) :: rejoined (part :: parts) combinators := by
  cases combinators <;> rfl

/-- A segment in front of a chain, left out or not, is marked as the others are. -/
theorem isLeftOut_iff_cons {marked : List (Expr × Bool)} {head : Expr} {headIsLeftOut : Bool}
    (nonempty : marked ≠ []) (atHead : headIsLeftOut = true ↔ Joins head)
    (rest : ∀ before segment isLeftOut after, marked = before ++ (segment, isLeftOut) :: after →
      (isLeftOut = true ↔ Joins segment ∧ after ≠ []))
    (before : List (Expr × Bool)) (segment : Expr) (isLeftOut : Bool) (after : List (Expr × Bool))
    (split : (head, headIsLeftOut) :: marked = before ++ (segment, isLeftOut) :: after) :
    isLeftOut = true ↔ Joins segment ∧ after ≠ [] := by
  rcases List.cons_eq_append_iff.mp split with ⟨rfl, same⟩ | ⟨others, rfl, same⟩
  · cases same
    exact atHead.trans (and_iff_left nonempty).symm
  · exact rest others segment isLeftOut after same

/-- Splitting a chain at its combinators loses nothing. -/
theorem rejoins_splitCombinators (chain : List Expr) : Rejoins (splitCombinators chain) chain := by
  fun_induction splitCombinators chain with
  | case1 => exact ⟨[], rfl, rfl, by simp [rejoined]⟩
  | case2 segment =>
    refine ⟨[], rfl, rfl, ?_⟩
    rintro before other isLeftOut after split
    rcases List.cons_eq_append_iff.mp split with ⟨rfl, same⟩ | ⟨others, rfl, same⟩
    · cases same
      simp
    · simp at same
  | case3 segment rest notLast combines ih =>
    rcases ih with ⟨combinators, count, whole, marks⟩
    refine ⟨segment :: combinators, by simp [count], by simp [rejoined, whole], ?_⟩
    refine isLeftOut_iff_cons ?_ (by simpa using isCombinator_iff.mp combines) marks
    rintro nothing
    rw [nothing] at whole
    exact notLast whole.symm
  | case4 segment rest notLast keeps split ih =>
    rcases ih with ⟨combinators, count, -, -⟩
    simp [split] at count
  | case5 segment rest notLast keeps part parts split ih =>
    rcases ih with ⟨combinators, count, whole, marks⟩
    rw [split] at count whole marks
    refine ⟨combinators, by simpa using count, by simp [rejoined_cons, whole], ?_⟩
    rw [rejoined_cons]
    refine isLeftOut_iff_cons ?_ ?_ marks
    · rintro nothing
      rw [nothing] at whole
      exact notLast whole.symm
    · simpa using fun joins => keeps (isCombinator_iff.mpr joins)

/-- The type of the segment is a constraint. -/
def HasConstraintType (model : SemanticModel Id) (segment : Expr) : Prop :=
  ∃ type, model.typeOf segment = some type ∧ model.isDerivedFrom type Names.constraintBase = true

theorem isConstraint_eq_true_iff {model : SemanticModel Id} {segment : Expr} :
    Id.run (isConstraint model segment) = true ↔ HasConstraintType model segment := by
  unfold HasConstraintType isConstraint
  simp only [bind, pure, Id.run]
  cases model.typeOf segment with
  | none => simp
  | some type =>
    refine ⟨fun derived => ⟨type, rfl, derived⟩, ?_⟩
    rintro ⟨_, same, derived⟩
    cases same
    exact derived

/-- Each segment of a part passes the test for what it was taken for, and suffixes only follow a
root. -/
structure IsRead (test : Expr → Bool → Prop) (part : ConstraintPart) : Prop where
  prefixes : ∀ segment ∈ part.prefixes, test segment false
  root : ∀ segment ∈ part.root, test segment true
  suffixes : part.root = none → part.suffixes = []

section

variable {σ : Type} {model : SemanticModel (StateM σ)} {invariant : σ → Prop}
  {test : Expr → Bool → Prop}
  (asksHelper : ∀ segment, Ensures invariant (fun _ => True) (isHelper model segment))
  (asksRoot : ∀ segment, Ensures invariant (test segment) (isConstraint model segment))

include asksRoot

theorem ensures_spanConstraint (segments : List Expr) :
    Ensures invariant (fun found => found.1 ++ found.2 = segments ∧
      (∀ segment ∈ found.1, test segment false) ∧ ∀ segment ∈ found.2.head?, test segment true)
      (spanConstraint model segments) := by
  induction segments with
  | nil => exact .pure (by simp)
  | cons segment rest ih =>
    refine (asksRoot segment).bind ?_
    rintro (_ | _) answered
    · refine ih.bind ?_
      rintro ⟨before, after⟩ ⟨whole, prefixes, root⟩
      exact .pure ⟨by simp [← whole], List.forall_mem_cons.mpr ⟨answered, prefixes⟩, root⟩
    · exact .pure ⟨rfl, by simp, by simpa using answered⟩

include asksHelper

theorem ensures_readPart (segments : List Expr) :
    Ensures invariant (fun part => part.segments = segments ∧ IsRead test part)
      (readPart model segments) := by
  -- what is read behind a helper and without one differs in the mark of an unknown part only
  have behind (helper : Option Expr) {rest : List Expr}
      {next : List Expr × List Expr → StateM σ ConstraintPart}
      (whole : helper.toList ++ rest = segments)
      (unrooted : ∀ prefixes, ∃ isUnknown,
        next (prefixes, []) = pure ⟨helper, prefixes, none, [], isUnknown⟩)
      (rooted : ∀ prefixes root suffixes, ∃ isUnknown,
        next (prefixes, root :: suffixes) =
          pure ⟨helper, prefixes, some root, suffixes, isUnknown⟩) :
      Ensures invariant (fun part => part.segments = segments ∧ IsRead test part)
        (spanConstraint model rest >>= next) := by
    refine (ensures_spanConstraint asksRoot rest).bind ?_
    rintro ⟨prefixes, _ | ⟨root, suffixes⟩⟩ ⟨split, areNot, isRoot⟩
    · obtain ⟨isUnknown, next_eq⟩ := unrooted prefixes
      exact next_eq ▸ .pure ⟨by simpa [ConstraintPart.segments, ← whole] using split, areNot,
        by simp, fun _ => rfl⟩
    · obtain ⟨isUnknown, next_eq⟩ := rooted prefixes root suffixes
      exact next_eq ▸ .pure ⟨by simpa [ConstraintPart.segments, ← whole] using split, areNot,
        by simpa using isRoot, by simp⟩
  unfold readPart
  dsimp only
  split
  · rw [pure_bind]
    refine behind none rfl ?_ ?_
    · exact fun _ => ⟨_, rfl⟩
    · exact fun _ _ _ => ⟨_, rfl⟩
  · refine (asksHelper _).bind ?_
    rintro (_ | _) -
    · rw [if_neg Bool.false_ne_true, pure_bind]
      refine behind none rfl ?_ ?_
      · exact fun _ => ⟨_, rfl⟩
      · exact fun _ _ _ => ⟨_, rfl⟩
    · rw [if_pos rfl, pure_bind]
      refine behind (some _) rfl ?_ ?_
      · exact fun _ => ⟨_, rfl⟩
      · exact fun _ _ _ => ⟨_, rfl⟩

theorem ensures_readParts (chains : List (List Expr)) :
    Ensures invariant (fun parts => parts.map (·.segments) = chains ∧
      ∀ part ∈ parts, IsRead test part)
      (readParts model chains) := by
  induction chains with
  | nil => exact .pure (by simp)
  | cons chain rest ih =>
    refine (ensures_readPart asksHelper asksRoot chain).bind ?_
    rintro part ⟨partIs, isRead⟩
    refine ih.bind ?_
    rintro others ⟨othersAre, areRead⟩
    exact .pure ⟨by rw [List.map_cons, partIs, othersAre],
      List.forall_mem_cons.mpr ⟨isRead, areRead⟩⟩

theorem ensures_read (expr : Expr) :
    Ensures invariant (fun constraint => constraint.parts.map (·.segments) = chains expr ∧
      ∀ part ∈ constraint.parts, IsRead test part) (read model expr) :=
  (ensures_readParts asksHelper asksRoot (chains expr)).bind fun _ areParts => .pure areParts

end

/-- Parts with the segments of several lists come in one group for each list. -/
theorem exists_groups {split : Expr → List (List Expr)} {operands : List Expr}
    {parts : List ConstraintPart} (same : parts.map (·.segments) = operands.flatMap split) :
    ∃ groups, parts = groups.flatten ∧
      List.Forall₂ (fun operand group => group.map (·.segments) = split operand) operands
        groups := by
  induction operands generalizing parts with
  | nil => exact ⟨[], by simpa using same, .nil⟩
  | cons operand rest ih =>
    rw [List.flatMap_cons, List.map_eq_append_iff] at same
    rcases same with ⟨group, others, rfl, groupIs, othersAre⟩
    rcases ih othersAre with ⟨groups, rfl, follow⟩
    exact ⟨group :: groups, rfl, .cons groupIs follow⟩

/-- The parts of a constraint come from its operands in order. With the combinators that join them
they are the segments of each operand again, and nothing else is left out. Where the model answers
consistently, the root of a part is its first segment with the type of a constraint. -/
theorem read_isDecomposition {σ : Type} (model : SemanticModel (StateM σ)) (expr : Expr)
    (state : σ) :
    ∃ operands groups, Operands expr operands ∧
      ((read model expr).run state).1.parts = groups.flatten ∧
      List.Forall₂ (fun operand group => ∃ chain, IsChain operand chain ∧ chain.Nodup ∧
        Rejoins (group.map fun part => part.helper.toList ++ part.prefixes ++ part.root.toList ++
          part.suffixes) chain) operands groups ∧
      ∀ part ∈ groups.flatten, (part.root = none → part.suffixes = []) ∧
        ∀ (reference : SemanticModel Id) (invariant : σ → Prop),
          model.Answers reference invariant → invariant state →
          (∀ segment ∈ part.prefixes, ¬HasConstraintType reference segment) ∧
            ∀ segment ∈ part.root, HasConstraintType reference segment := by
  have untested := @ensures_read σ model (fun _ => True) (fun _ _ => True) (fun _ => .always _)
    (fun _ => .always _) expr
  rcases (untested state trivial).1 with ⟨partsAre, areRead⟩
  rcases exists_groups partsAre with ⟨groups, whole, follow⟩
  refine ⟨operands expr, groups, operands_operands expr, whole, ?_, ?_⟩
  · refine follow.imp fun operand group groupIs => ?_
    refine ⟨segments operand, isChain_segments operand, (isChain_segments operand).nodup, ?_⟩
    exact groupIs ▸ rejoins_splitCombinators (segments operand)
  · intro part member
    rw [← whole] at member
    refine ⟨(areRead part member).suffixes, ?_⟩
    intro reference invariant answers inside
    have typed (segment : Expr) : Ensures invariant
        (fun found => found = true ↔ HasConstraintType reference segment)
        (isConstraint model segment) :=
      (answers.isConstraint segment).weaken fun _ same => same ▸ isConstraint_eq_true_iff
    have asksHelper (segment : Expr) : Ensures invariant (fun _ => True) (isHelper model segment) :=
      (answers.isHelper segment).weaken fun _ _ => trivial
    have isTyped := (ensures_read asksHelper typed expr state inside).1.2 part member
    exact ⟨fun segment isPrefix => by simpa using isTyped.prefixes segment isPrefix,
      fun segment isRoot => by simpa using isTyped.root segment isRoot⟩

end ConstraintExpr

end AssertionLint
