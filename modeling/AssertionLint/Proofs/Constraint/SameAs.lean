import AssertionLint.Proofs.Analysis.Reported
import AssertionLint.Proofs.Constraint.Decomposition
import Mathlib.Data.List.Induction

/-!
# Comparisons of values by reference

`SameAs` never holds of a value, so it is reported if the actual value or the expected one is a
value. Whether it is applied to the actual value itself is decided by the segments since the last
combinator: each of them must be a helper class or `Not` (`Finding.mem_sameAs_iff`). What stands in
front of a combinator is not looked at. After `And` and `Or` nothing of it matters, but `With` goes
on with the values that it has selected, so `Has.Some.With.SameAs(null)` is reported for a number
(`Configuration.exists_report_behind_with`), which `Has.Some.SameAs(null)` is not.
-/

namespace AssertionLint

namespace ConstraintExpr

theorem splitCombinators_of_joins {segment : Expr} {rest : List Expr} (joins : Joins segment)
    (notLast : rest ≠ []) : splitCombinators (segment :: rest) = [] :: splitCombinators rest := by
  rw [splitCombinators, if_pos (isCombinator_iff.mpr joins)]
  exact notLast

theorem splitCombinators_of_keeps {segment : Expr} {rest part : List Expr}
    {parts : List (List Expr)} (keeps : ¬Joins segment) (notLast : rest ≠ [])
    (split : splitCombinators rest = part :: parts) :
    splitCombinators (segment :: rest) = (segment :: part) :: parts := by
  rw [splitCombinators, if_neg (fun combines => keeps (isCombinator_iff.mp combines)), split]
  exact notLast

/-- The first part reaches at least to the first segment that is known to be no combinator. -/
theorem exists_splitCombinators_append {between : List Expr} {root : Expr} (after : List Expr)
    (keeps : ∀ segment ∈ between, ¬Joins segment) (rootKeeps : ¬Joins root) :
    ∃ rest parts,
      splitCombinators (between ++ root :: after) = (between ++ root :: rest) :: parts := by
  induction between with
  | nil =>
    rcases after with _ | ⟨next, after⟩
    · exact ⟨[], [], rfl⟩
    · rcases rejoins_splitCombinators (next :: after) with ⟨combinators, count, -, -⟩
      rcases split : splitCombinators (next :: after) with _ | ⟨part, parts⟩
      · simp [split] at count
      · exact ⟨part, parts, splitCombinators_of_keeps rootKeeps (by simp) split⟩
  | cons segment between ih =>
    rw [List.forall_mem_cons] at keeps
    rcases ih keeps.2 with ⟨rest, parts, split⟩
    exact ⟨rest, parts, splitCombinators_of_keeps keeps.1 (by simp) split⟩

/-- Behind a combinator the splitting starts anew. -/
theorem exists_splitCombinators_behind {combinator : Expr} {rest : List Expr}
    (before : List Expr) (joins : Joins combinator) (notLast : rest ≠ []) :
    ∃ part parts, splitCombinators (before ++ combinator :: rest) =
      part :: parts ++ splitCombinators rest := by
  induction before with
  | nil => exact ⟨[], [], splitCombinators_of_joins joins notLast⟩
  | cons segment before ih =>
    rcases ih with ⟨part, parts, split⟩
    by_cases joinsHere : Joins segment
    · refine ⟨[], part :: parts, ?_⟩
      rw [List.cons_append, splitCombinators_of_joins joinsHere (by simp), split]
      rfl
    · exact ⟨segment :: part, parts, splitCombinators_of_keeps joinsHere (by simp) split⟩

/-- In front of a part stands nothing or a combinator. -/
theorem exists_rejoined_append {part : List Expr} {front back : List (List Expr)}
    {combinators : List Expr} (count : combinators.length + 1 = (front ++ part :: back).length) :
    ∃ before after, rejoined (front ++ part :: back) combinators =
        before ++ part.map (·, false) ++ after ∧
      (before = [] ∨ ∃ others combinator, before = others ++ [(combinator, true)]) := by
  induction front generalizing combinators with
  | nil =>
    rcases combinators with _ | ⟨combinator, others⟩
    · exact ⟨[], back.flatten.map (·, false), by simp [rejoined], .inl rfl⟩
    · exact ⟨[], (combinator, true) :: rejoined back others, by simp [rejoined], .inl rfl⟩
  | cons first front ih =>
    rcases combinators with _ | ⟨combinator, others⟩
    · simp at count
    · rcases @ih others (by simpa using count) with ⟨before, after, same, isEmpty | ends⟩
      · refine ⟨first.map (·, false) ++ [(combinator, true)], after, ?_, .inr ⟨_, _, rfl⟩⟩
        simp [rejoined, same, isEmpty]
      · rcases ends with ⟨inner, last, rfl⟩
        refine ⟨first.map (·, false) ++ (combinator, true) :: inner ++ [(last, true)], after, ?_,
          .inr ⟨_, _, rfl⟩⟩
        simp [rejoined, same]

/-- The segment is a member with one of the names. -/
def IsMemberNamed (names : List String) (segment : Expr) : Prop :=
  ∃ target member span, segment = .memberAccess target member span ∧ member.identifier ∈ names

/-- There is no segment, or the last one is a member with one of the names. -/
def EndsWith (names : List String) (segments : List Expr) : Prop :=
  segments = [] ∨ ∃ others last, segments = others ++ [last] ∧ IsMemberNamed names last

/-- A part stands behind nothing or a combinator, and has none in front of another segment. -/
theorem exists_append_of_mem_splitCombinators {chain part : List Expr}
    (member : part ∈ splitCombinators chain) :
    ∃ before after, chain = before ++ part ++ after ∧ EndsWith Names.combinators before ∧
      ∀ left segment right, part = left ++ segment :: right → right ≠ [] → ¬Joins segment := by
  rcases rejoins_splitCombinators chain with ⟨combinators, count, whole, marks⟩
  rcases List.append_of_mem member with ⟨front, back, split⟩
  rw [split] at count whole marks
  rcases exists_rejoined_append count with ⟨before, after, same, starts⟩
  rw [same] at whole marks
  refine ⟨before.map (·.1), after.map (·.1), ?_, ?_, ?_⟩
  · simp [← whole, Function.comp_def]
  · rcases starts with rfl | ⟨others, combinator, rfl⟩
    · exact .inl rfl
    · have joins := (marks others combinator true (part.map (·, false) ++ after) (by simp)).mp rfl
      exact .inr ⟨others.map (·.1), combinator, by simp, joins.1⟩
  · rintro left segment right rfl notLast joins
    have kept := marks (before ++ left.map (·, false)) segment false
      (right.map (·, false) ++ after) (by simp)
    exact Bool.false_ne_true (kept.mpr ⟨joins, by simp [notLast]⟩)

/-- A segment belongs to a part with all segments since the last combinator. -/
theorem exists_mem_splitCombinators_iff {chain between : List Expr} {root : Expr}
    (rootKeeps : ¬Joins root) :
    (∃ after, between ++ root :: after ∈ splitCombinators chain) ↔
      ∃ before after, chain = before ++ between ++ root :: after ∧
        EndsWith Names.combinators before ∧ ∀ segment ∈ between, ¬Joins segment := by
  constructor
  · rintro ⟨after, member⟩
    rcases exists_append_of_mem_splitCombinators member with ⟨before, behind, rfl, starts, keeps⟩
    refine ⟨before, after ++ behind, by simp, starts, ?_⟩
    intro segment isBetween
    rcases List.append_of_mem isBetween with ⟨left, right, rfl⟩
    exact keeps left segment (right ++ root :: after) (by simp) (by simp)
  · rintro ⟨before, after, rfl, starts, keeps⟩
    rcases exists_splitCombinators_append after keeps rootKeeps with ⟨rest, parts, split⟩
    refine ⟨rest, ?_⟩
    rcases starts with rfl | ⟨others, combinator, rfl, joins⟩
    · simp [split]
    · rcases exists_splitCombinators_behind others joins
        (show between ++ root :: after ≠ [] by simp) with ⟨part, front, whole⟩
      rw [split] at whole
      simp [whole]

/-- A list ends with its last segment of some names and those behind it. -/
theorem exists_endsWith_append (names : List String) (segments : List Expr) :
    ∃ before after, segments = before ++ after ∧ EndsWith names before ∧
      ∀ segment ∈ after, ¬IsMemberNamed names segment := by
  induction segments using List.reverseRecOn with
  | nil => exact ⟨[], [], rfl, .inl rfl, by simp⟩
  | append_singleton segments last ih =>
    by_cases named : IsMemberNamed names last
    · exact ⟨segments ++ [last], [], by simp, .inr ⟨segments, last, rfl, named⟩, by simp⟩
    · rcases ih with ⟨before, after, rfl, ends, keeps⟩
      refine ⟨before, after ++ [last], by simp, ends, ?_⟩
      simpa [or_imp, forall_and] using ⟨keeps, named⟩

/-- Behind a combinator stands what was selected since the last `And` or `Or`. -/
theorem endsWith_combinators_iff {before : List Expr} : EndsWith Names.combinators before ↔
    ∃ front selected, before = front ++ selected ∧ EndsWith ["And", "Or"] front ∧
      (∀ segment ∈ selected, ¬IsMemberNamed ["And", "Or"] segment) ∧
      EndsWith ["With"] selected := by
  constructor
  · intro ends
    rcases exists_endsWith_append ["And", "Or"] before with ⟨front, selected, rfl, starts, keeps⟩
    refine ⟨front, selected, rfl, starts, keeps, ?_⟩
    rcases List.eq_nil_or_concat selected with rfl | ⟨others, last, rfl⟩
    · exact .inl rfl
    rw [List.concat_eq_append] at ends keeps ⊢
    rcases ends with isEmpty | ⟨_, same, whole, target, member, span, rfl, named⟩
    · simp at isEmpty
    · rw [← List.append_assoc] at whole
      rcases List.append_inj' whole rfl with ⟨-, sameLast⟩
      rw [List.singleton_inj.mp sameLast] at keeps ⊢
      refine .inr ⟨others, _, rfl, target, member, span, rfl, ?_⟩
      have notJoined := keeps _ (List.mem_append_right _ (List.mem_singleton_self _))
      by_contra notWith
      refine notJoined ⟨target, member, span, rfl, ?_⟩
      simp only [Names.combinators, List.mem_cons, List.not_mem_nil, or_false] at named notWith ⊢
      tauto
  · rintro ⟨front, selected, rfl, starts, -, rfl | ends⟩
    · rcases starts with rfl | ⟨others, last, rfl, target, member, span, rfl, named⟩
      · exact .inl rfl
      · refine .inr ⟨others, _, List.append_nil _, target, member, span, rfl, ?_⟩
        exact List.mem_append_left ["With"] named
    · rcases ends with ⟨others, last, rfl, target, member, span, rfl, named⟩
      refine .inr ⟨front ++ others, _, (List.append_assoc ..).symm, target, member, span, rfl, ?_⟩
      exact List.mem_append_right ["And", "Or"] named

/-- There is one first element with a property. -/
theorem append_cons_inj_of_first {α : Type} {property : α → Prop}
    {front front' back back' : List α} {first first' : α}
    (same : front ++ first :: back = front' ++ first' :: back')
    (notFront : ∀ element ∈ front, ¬property element)
    (notFront' : ∀ element ∈ front', ¬property element)
    (holds : property first) (holds' : property first') : front = front' ∧ first = first' := by
  rcases List.append_eq_append_iff.mp same with ⟨more, rfl, rest⟩ | ⟨more, rfl, rest⟩
  · rcases more with _ | ⟨next, more⟩
    · exact ⟨by simp, by simpa using (List.cons.inj rest).1⟩
    · rw [(List.cons.inj rest).1] at holds
      exact absurd holds (notFront' next (by simp))
  · rcases more with _ | ⟨next, more⟩
    · exact ⟨by simp, by simpa using (List.cons.inj rest).1.symm⟩
    · rw [(List.cons.inj rest).1] at holds'
      exact absurd holds' (notFront next (by simp))

/-- The segment names a helper class. -/
def NamesHelper (model : SemanticModel Id) (segment : Expr) : Prop :=
  Id.run (isHelper model segment) = true

/-- In a chain, `root` is the first constraint behind `between`, which reaches back to the last
combinator. If this is `With`, it goes on with the values of the segments `selected` since the last
`And` or `Or`. A helper class is not asked for its type. -/
structure IsRootBehind (model : SemanticModel Id) (chain selected between : List Expr)
    (root : Expr) : Prop where
  place : ∃ before after, chain = before ++ selected ++ between ++ root :: after ∧
    EndsWith ["And", "Or"] before
  selects : EndsWith ["With"] selected
  keepsSelected : ∀ segment ∈ selected, ¬IsMemberNamed ["And", "Or"] segment
  keeps : ∀ segment ∈ between, ¬Joins segment
  noConstraint : ∀ segment ∈ between, NamesHelper model segment ∨ ¬HasConstraintType model segment
  isConstraint : HasConstraintType model root

theorem NamesHelper.exists_name {model : SemanticModel Id} {segment : Expr}
    (names : NamesHelper model segment) :
    ∃ name, segment.asName? = some name ∧ name.identifier ∈ Names.helpers := by
  unfold NamesHelper isHelper at names
  split at names
  · rename_i name named
    split at names
    · rename_i isHelper
      exact ⟨name, named, by simpa using isHelper⟩
    · cases names
  · cases names

/-- Only the first segment of a chain may name a helper class. -/
theorem IsChain.not_namesHelper {model : SemanticModel Id} {expr : Expr} {chain : List Expr}
    (isChain : IsChain expr chain) : ∀ segment ∈ chain.tail, ¬NamesHelper model segment := by
  induction isChain with
  | start => simp
  | @segment expr target chain isMember inner ih =>
    have notEmpty : chain ≠ [] := by cases inner <;> simp
    rw [List.tail_append_of_ne_nil notEmpty]
    intro segment member names
    rcases List.mem_append.mp member with isInner | isOuter
    · exact ih segment isInner names
    · rcases names.exists_name with ⟨name, named, -⟩
      rw [List.mem_singleton.mp isOuter] at named
      cases isMember <;> cases named

section

variable {model : SemanticModel Id}

theorem helper_readPart (segments : List Expr) :
    (Id.run (readPart model segments)).helper =
      segments.head?.filter fun segment => Id.run (isHelper model segment) := by
  rcases segments with _ | ⟨first, others⟩
  · simp only [readPart, bind, pure, Id.run]
    split
    split <;> rfl
  · simp only [readPart, bind, pure, Id.run, List.head?_cons, Option.filter]
    split <;> split <;> split <;> rfl

/-- What is known of a part that is read from some segments. -/
structure IsPartOf (model : SemanticModel Id) (segments : List Expr) (part : ConstraintPart) :
    Prop where
  whole : part.segments = segments
  helper : ∀ segment ∈ part.helper, NamesHelper model segment
  prefixes : ∀ segment ∈ part.prefixes,
    ¬NamesHelper model segment ∧ ¬HasConstraintType model segment
  root : ∀ segment ∈ part.root, ¬NamesHelper model segment ∧ HasConstraintType model segment
  suffixes : part.root = none → part.suffixes = []

theorem isPartOf_readPart {segments : List Expr}
    (onlyFirst : ∀ segment ∈ segments.tail, ¬NamesHelper model segment) :
    IsPartOf model segments (Id.run (readPart model segments)) := by
  have answers := model.answers_counting
  have typed (segment : Expr) : Ensures (fun _ => True)
      (fun found => found = true ↔ HasConstraintType model segment)
      (isConstraint model.counting segment) :=
    (answers.isConstraint segment).weaken fun _ same => same ▸ isConstraint_eq_true_iff
  have asksHelper (segment : Expr) : Ensures (fun _ => True) (fun _ => True)
      (isHelper model.counting segment) :=
    (answers.isHelper segment).weaken fun _ _ => trivial
  have read := (ensures_readPart asksHelper typed segments 0 trivial).1
  rw [(answers.readPart segments).eq_run trivial] at read
  have helper := @helper_readPart model segments
  generalize Id.run (readPart model segments) = part at read helper
  rcases read with ⟨whole, isRead⟩
  -- behind the helper class, or where there is none, no segment names one
  have noHelper : ∀ segment ∈ part.prefixes ++ part.root.toList, ¬NamesHelper model segment := by
    intro segment member
    rcases start : part.helper with _ | first
    · have inside : segment ∈ segments := by
        simpa [← whole, ConstraintPart.segments, start] using
          List.mem_append_left part.suffixes member
      rcases segments with _ | ⟨first, others⟩
      · cases inside
      · rcases List.mem_cons.mp inside with rfl | inOthers
        · intro names
          simp [start, Option.filter, show Id.run (isHelper model segment) = true from names]
            at helper
        · exact onlyFirst segment inOthers
    · refine onlyFirst segment ?_
      simpa [← whole, ConstraintPart.segments, start] using
        List.mem_append_left part.suffixes member
  exact
    { whole
      helper := by
        intro segment isHelper
        rw [helper] at isHelper
        exact (Option.mem_filter_iff.mp isHelper).2
      prefixes := fun segment isPrefix => ⟨noHelper segment (by simp [isPrefix]),
        by simpa using isRead.prefixes segment isPrefix⟩
      root := fun segment isRoot => ⟨noHelper segment (by simp [Option.mem_def.mp isRoot]),
        by simpa using isRead.root segment isRoot⟩
      suffixes := isRead.suffixes }

namespace IsPartOf

variable {segments between after : List Expr} {root : Expr} {part : ConstraintPart}
  (isPart : IsPartOf model segments part)

include isPart

theorem appliesToActual_iff : part.appliesToActual = true ↔
    ∀ segment ∈ part.helper.toList ++ part.prefixes,
      NamesHelper model segment ∨ ConstraintPart.segmentName? segment = some "Not" := by
  constructor
  · intro applies segment member
    rcases List.mem_append.mp member with isHelper | isPrefix
    · exact .inl (isPart.helper segment (by simpa using isHelper))
    · refine .inr ?_
      simpa using List.all_eq_true.mp applies segment isPrefix
  · intro allowed
    refine List.all_eq_true.mpr fun segment isPrefix => ?_
    rcases allowed segment (List.mem_append_right _ isPrefix) with names | isNot
    · exact absurd names (isPart.prefixes segment isPrefix).1
    · simpa using isNot

/-- The root is the first constraint that is no helper class. -/
theorem root_iff (rootKeeps : ¬NamesHelper model root) :
    part.helper.toList ++ part.prefixes = between ∧ part.root = some root ↔
      (∃ after, segments = between ++ root :: after) ∧
        (∀ segment ∈ between, NamesHelper model segment ∨ ¬HasConstraintType model segment) ∧
        HasConstraintType model root := by
  have noRoot : ∀ segment ∈ part.helper.toList ++ part.prefixes,
      NamesHelper model segment ∨ ¬HasConstraintType model segment := by
    intro segment member
    rcases List.mem_append.mp member with isHelper | isPrefix
    · exact .inl (isPart.helper segment (by simpa using isHelper))
    · exact .inr (isPart.prefixes segment isPrefix).2
  constructor
  · rintro ⟨rfl, isRoot⟩
    refine ⟨⟨part.suffixes, ?_⟩, noRoot, (isPart.root root isRoot).2⟩
    simp [← isPart.whole, ConstraintPart.segments, isRoot]
  · rintro ⟨⟨after, rfl⟩, areNot, isRoot⟩
    have whole := isPart.whole
    rcases found : part.root with _ | other
    · have inside : root ∈ part.helper.toList ++ part.prefixes := by
        rw [ConstraintPart.segments, found, isPart.suffixes found] at whole
        simp only [Option.toList_none, List.append_nil] at whole
        simp [whole]
      rcases noRoot root inside with names | isNot
      · exact absurd names rootKeeps
      · exact absurd isRoot isNot
    · rw [ConstraintPart.segments, found, Option.toList_some, List.append_assoc] at whole
      have isFirst {front : List Expr} (none : ∀ segment ∈ front,
          NamesHelper model segment ∨ ¬HasConstraintType model segment) :
          ∀ segment ∈ front, ¬(¬NamesHelper model segment ∧ HasConstraintType model segment) :=
        fun segment member => by have := none segment member; tauto
      rcases append_cons_inj_of_first whole (isFirst noRoot) (isFirst areNot)
        (isPart.root other found) ⟨rootKeeps, isRoot⟩ with ⟨front, rfl⟩
      exact ⟨front, rfl⟩

end IsPartOf

theorem readParts_eq (chains : List (List Expr)) : Id.run (readParts model chains) =
    chains.map fun chain => Id.run (readPart model chain) := by
  induction chains with
  | nil => rfl
  | cons chain rest ih => exact congrArg (Id.run (readPart model chain) :: ·) ih

theorem isPartOf_of_mem_splitCombinators {operand : Expr} {chain : List Expr}
    (member : chain ∈ splitCombinators (segments operand)) :
    IsPartOf model chain (Id.run (readPart model chain)) := by
  refine isPartOf_readPart fun segment inTail => ?_
  rcases exists_append_of_mem_splitCombinators member with ⟨before, after, whole, -⟩
  have sublist : chain.Sublist (segments operand) := by
    rw [whole]
    exact (List.sublist_append_right before chain).trans (List.sublist_append_left _ after)
  exact (isChain_segments operand).not_namesHelper segment (sublist.tail.subset inTail)

theorem mem_parts_iff {expr : Expr} {part : ConstraintPart} :
    part ∈ (Id.run (read model expr)).parts ↔ ∃ operand ∈ operands expr,
      ∃ chain ∈ splitCombinators (segments operand), Id.run (readPart model chain) = part := by
  have parts : (Id.run (read model expr)).parts =
      (chains expr).map fun chain => Id.run (readPart model chain) := readParts_eq (chains expr)
  rw [parts, List.mem_map]
  constructor
  · rintro ⟨chain, inChains, isRead⟩
    rcases List.mem_flatMap.mp inChains with ⟨operand, isOperand, inOperand⟩
    exact ⟨operand, isOperand, chain, inOperand, isRead⟩
  · rintro ⟨operand, isOperand, chain, inOperand, isRead⟩
    exact ⟨chain, List.mem_flatMap.mpr ⟨operand, isOperand, inOperand⟩, isRead⟩

theorem appliesToActual_iff_of_mem_parts {expr : Expr} {part : ConstraintPart}
    (member : part ∈ (Id.run (read model expr)).parts) : part.appliesToActual = true ↔
      ∀ segment ∈ part.helper.toList ++ part.prefixes,
        NamesHelper model segment ∨ ConstraintPart.segmentName? segment = some "Not" := by
  rcases mem_parts_iff.mp member with ⟨operand, -, chain, inOperand, rfl⟩
  exact (isPartOf_of_mem_splitCombinators inOperand).appliesToActual_iff

/-- The parts of an expression that have a root, by the place of the root. -/
theorem exists_part_iff {expr root : Expr} {between : List Expr} (rootKeeps : ¬Joins root)
    (noHelper : ¬NamesHelper model root) :
    (∃ part ∈ (Id.run (read model expr)).parts, part.root = some root ∧
        part.helper.toList ++ part.prefixes = between) ↔
      ∃ operand ∈ operands expr, ∃ selected,
        IsRootBehind model (segments operand) selected between root := by
  constructor
  · rintro ⟨part, member, isRoot, isBetween⟩
    rcases mem_parts_iff.mp member with ⟨operand, isOperand, chain, inOperand, rfl⟩
    have isPart := @isPartOf_of_mem_splitCombinators model _ _ inOperand
    rcases (isPart.root_iff noHelper).mp ⟨isBetween, isRoot⟩ with
      ⟨⟨after, rfl⟩, areNot, isConstraint⟩
    rcases (exists_mem_splitCombinators_iff rootKeeps).mp ⟨after, inOperand⟩ with
      ⟨before, behind, whole, starts, keeps⟩
    rcases endsWith_combinators_iff.mp starts with
      ⟨front, selected, rfl, ends, keepsSelected, selects⟩
    exact ⟨operand, isOperand, selected, ⟨front, behind, whole, ends⟩, selects, keepsSelected,
      keeps, areNot, isConstraint⟩
  · rintro ⟨operand, isOperand, selected, isRootBehind⟩
    rcases isRootBehind.place with ⟨front, behind, whole, ends⟩
    have starts := endsWith_combinators_iff.mpr
      ⟨front, selected, rfl, ends, isRootBehind.keepsSelected, isRootBehind.selects⟩
    rcases (exists_mem_splitCombinators_iff rootKeeps).mpr
      ⟨front ++ selected, behind, whole, starts, isRootBehind.keeps⟩ with ⟨after, inOperand⟩
    have isPart := @isPartOf_of_mem_splitCombinators model _ _ inOperand
    rcases (isPart.root_iff noHelper).mpr
      ⟨⟨after, rfl⟩, isRootBehind.noConstraint, isRootBehind.isConstraint⟩ with ⟨isBetween, isRoot⟩
    exact ⟨_, mem_parts_iff.mpr ⟨operand, isOperand, _, inOperand, rfl⟩, isRoot, isBetween⟩

end

end ConstraintExpr

/-- The type of the expression is a value type. -/
def SemanticModel.IsValue (model : SemanticModel Id) (expr : Expr) : Prop :=
  ∃ type, model.typeOf expr = some type ∧ type.isValueType = true

namespace Finding

open ConstraintExpr

variable {model : SemanticModel Id} {part : ConstraintPart} {root : Expr} {finding : Finding}

/-- The finding is about the name `SameAs` that a root ends with. -/
def IsSameAs (finding : Finding) (root : Expr) : Prop :=
  ∃ name rename span, root.trailingName? = some name ∧ name.identifier = "SameAs" ∧
    name.span = some rename ∧ root.span = some span ∧
    finding = ⟨span, .sameAsOnValueType rename "EqualTo"⟩

/-- The first argument of a call. -/
def IsFirstArgument (expected call : Expr) : Prop :=
  ∃ target list span argument, call = .invocation target list span ∧
    list.arguments.head? = some argument ∧ argument.expression = expected

theorem IsSameAs.keeps (isSameAs : finding.IsSameAs root) :
    ¬Joins root ∧ ¬NamesHelper model root := by
  rcases isSameAs with ⟨name, -, -, named, isSame, -⟩
  constructor
  · rintro ⟨target, member, span, rfl, joins⟩
    cases named
    simp [isSame] at joins
  · intro names
    rcases names.exists_name with ⟨other, isName, isHelper⟩
    cases root <;> cases isName
    cases named
    simp [isSame, Names.helpers] at isHelper

theorem segmentName?_of_trailingName? {segment : Expr} {name : SimpleName}
    (named : segment.trailingName? = some name) :
    ConstraintPart.segmentName? segment = some name.identifier := by
  unfold ConstraintPart.segmentName?
  split
  · cases named
  · cases named
  · rw [named]
    rfl

theorem isSameAs_iff (isRoot : part.root = some root) : finding.IsSameAs root ↔
    part.rootName? = some "SameAs" ∧ ofSameAsPart? part = some finding := by
  simp only [ConstraintPart.rootName?, isRoot, ofSameAsPart?, bind, pure, Option.bind_some,
    Option.bind_eq_some_iff, Option.some.injEq]
  constructor
  · rintro ⟨name, rename, span, named, isSame, renamed, spanned, rfl⟩
    refine ⟨?_, name, named, rename, renamed, span, spanned, rfl⟩
    rw [segmentName?_of_trailingName? named, isSame]
  · rintro ⟨isSame, name, named, rename, renamed, span, spanned, rfl⟩
    refine ⟨name, rename, span, named, ?_, renamed, spanned, rfl⟩
    rw [segmentName?_of_trailingName? named] at isSame
    exact Option.some.inj isSame

theorem isValueTyped_iff {expr : Expr} :
    Id.run (isValueTyped model expr) = true ↔ model.IsValue expr :=
  Option.any_eq_true ..

theorem comparesValues_iff {actual : Expr} (isRoot : part.root = some root)
    (isSameAs : finding.IsSameAs root) :
    Id.run (comparesValues model (Id.run (isValueTyped model actual)) part) = true ↔
      model.IsValue actual ∧ part.appliesToActual = true ∨
        ∃ expected, IsFirstArgument expected root ∧ model.IsValue expected := by
  have expects (expected : Expr) :
      part.expectedArgument? = some expected ↔ IsFirstArgument expected root := by
    rcases isSameAs with ⟨name, -, -, named, -⟩
    rw [ConstraintPart.expectedArgument?, isRoot]
    split
    · simp_all [IsFirstArgument]
    · simp_all [Expr.trailingName?]
    · simp_all [IsFirstArgument]
  by_cases applies : model.IsValue actual ∧ part.appliesToActual = true
  · have decided : (Id.run (isValueTyped model actual) && part.appliesToActual) = true := by
      rw [Bool.and_eq_true]
      exact applies.imp_left isValueTyped_iff.mpr
    rw [comparesValues, if_pos decided]
    exact iff_of_true rfl (.inl applies)
  · have decided : ¬(Id.run (isValueTyped model actual) && part.appliesToActual) = true := by
      rw [Bool.and_eq_true]
      exact mt (And.imp_left isValueTyped_iff.mp) applies
    rw [comparesValues, if_neg decided, or_iff_right applies]
    split
    · rename_i expected isExpected
      rw [isValueTyped_iff]
      refine ⟨fun isValue => ⟨expected, (expects expected).mp isExpected, isValue⟩, ?_⟩
      rintro ⟨other, isFirst, isValue⟩
      rw [(expects other).mpr isFirst] at isExpected
      exact Option.some.inj isExpected ▸ isValue
    · rename_i noExpected
      refine iff_of_false Bool.false_ne_true ?_
      rintro ⟨other, isFirst, -⟩
      rw [(expects other).mpr isFirst] at noExpected
      cases noExpected

theorem mem_sameAsParts_iff {actualIsValue : Bool} {parts : List ConstraintPart} :
    finding ∈ Id.run (sameAsParts model actualIsValue parts) ↔
      ∃ part ∈ parts, part.rootName? = some "SameAs" ∧ ofSameAsPart? part = some finding ∧
        Id.run (comparesValues model actualIsValue part) = true := by
  induction parts with
  | nil => simp [sameAsParts, Id.run, pure]
  | cons part rest ih =>
    rw [List.exists_mem_cons_iff, ← ih]
    simp only [sameAsParts, bind, pure, Id.run]
    split
    · split
      · simp_all
      · simp_all
    · simp_all

/-- A comparison of references is reported exactly if it is applied to a value or expects one. It
counts as applied to the actual value if there are only `Not` and a helper class behind the last
combinator, whatever a combinator `With` was applied to. -/
theorem mem_sameAs_iff {σ : Type} {model : SemanticModel (StateM σ)} {reference : SemanticModel Id}
    {invariant : σ → Prop} (answers : model.Answers reference invariant) {state : σ}
    (inside : invariant state) {shape : CallShape} {actual expr : Expr}
    (isThat : shape.method.name = "That") (call : constraintCall? shape = some (actual, expr))
    (finding : Finding) :
    finding ∈ ((sameAs shape model).run state).1 ↔
      ∃ operand ∈ operands expr, ∃ selected between root,
        IsRootBehind reference (segments operand) selected between root ∧
          finding.IsSameAs root ∧
          ((reference.IsValue actual ∧ ∀ segment ∈ between, NamesHelper reference segment ∨
              ConstraintPart.segmentName? segment = some "Not") ∨
            ∃ expected, IsFirstArgument expected root ∧ reference.IsValue expected) := by
  rw [(answers.sameAs shape).eq_run inside]
  have reported : finding ∈ Id.run (sameAs shape reference) ↔ finding ∈
      Id.run (sameAsParts reference (Id.run (isValueTyped reference actual))
        (Id.run (read reference expr)).parts) := by
    rw [sameAs, isThat, call]
    rfl
  rw [reported, mem_sameAsParts_iff]
  constructor
  · rintro ⟨part, member, isSame, found, compares⟩
    rcases isRoot : part.root with _ | root
    · simp [ConstraintPart.rootName?, isRoot] at isSame
    · have isSameAs := (isSameAs_iff isRoot).mpr ⟨isSame, found⟩
      rcases isSameAs.keeps with ⟨rootKeeps, noHelper⟩
      rcases (exists_part_iff rootKeeps noHelper).mp ⟨part, member, isRoot, rfl⟩ with
        ⟨operand, isOperand, selected, isRootBehind⟩
      refine ⟨operand, isOperand, selected, _, root, isRootBehind, isSameAs, ?_⟩
      rw [← appliesToActual_iff_of_mem_parts member]
      exact (comparesValues_iff isRoot isSameAs).mp compares
  · rintro ⟨operand, isOperand, selected, between, root, isRootBehind, isSameAs, condition⟩
    rcases isSameAs.keeps with ⟨rootKeeps, noHelper⟩
    rcases (exists_part_iff rootKeeps noHelper).mpr ⟨operand, isOperand, selected, isRootBehind⟩
      with ⟨part, member, isRoot, rfl⟩
    rw [← appliesToActual_iff_of_mem_parts member] at condition
    rcases (isSameAs_iff isRoot).mp isSameAs with ⟨isSame, found⟩
    exact ⟨part, member, isSame, found, (comparesValues_iff isRoot isSameAs).mpr condition⟩

/-- A model of constraints on numbers, where every call is a constraint. -/
def numbers : SemanticModel Id where
  resolveMethod _ := none
  symbolInfo _ := none
  typeOf
    | .invocation .. => some (.named "NUnit.Framework.Constraints" "Constraint" .class)
    | .literal ⟨.integer, _⟩ _ => some (.named "System" "Int32" .struct)
    | _ => none
  classifyConversion _ _ := .identity
  isDerivedFrom type fullName := type.fullName == fullName

/-- The call `Assert.That(1, constraint)`. -/
def callOn (constraint : Expr) : CallShape where
  span := ⟨0, 60⟩
  target := .dotted ["Assert", "That"]
  method :=
    { name := "That"
      containingType := .named "NUnit.Framework" "Assert" .class
      parameters := [⟨"actual", .empty, false, false⟩, ⟨"expression", .empty, false, false⟩]
      returnType := .empty
      typeArguments := []
      isStatic := true
      isExtension := false
      isReducedExtension := false }
  assigned := [⟨⟨"actual", .empty, false, false⟩, .ofExpr (.literal ⟨.integer, "1"⟩ none)⟩,
    ⟨⟨"expression", .empty, false, false⟩, .ofExpr constraint⟩]

/-- The constraint `Has.Some.With.SameAs(null)`. -/
def someWithSameAs : Expr :=
  .invocation
    (.memberAccess (.dotted ["Has", "Some", "With"]) ⟨"SameAs", none, some ⟨30, 36⟩⟩ none)
    (.ofArguments [.ofExpr (.literal ⟨.null, "null"⟩ none)]) (some ⟨16, 42⟩)

/-- `SameAs` counts as applied to a number, though it is applied to what `Has.Some` selects. -/
theorem mem_sameAs_someWithSameAs :
    numbers.counting.Answers numbers (fun _ => True) ∧
    constraintCall? (callOn someWithSameAs) =
      some (.literal ⟨.integer, "1"⟩ none, someWithSameAs) ∧
    ⟨⟨16, 42⟩, .sameAsOnValueType ⟨30, 36⟩ "EqualTo"⟩ ∈
      ((sameAs (callOn someWithSameAs) numbers.counting).run 0).1 := by
  have call : constraintCall? (callOn someWithSameAs) =
      some (.literal ⟨.integer, "1"⟩ none, someWithSameAs) := rfl
  refine ⟨numbers.answers_counting, call, ?_⟩
  let selected : List Expr :=
    [.identifier "Has", .dotted ["Has", "Some"], .dotted ["Has", "Some", "With"]]
  have chain : segments someWithSameAs = selected ++ [] ++ someWithSameAs :: [] := by
    simp [someWithSameAs, selected, segments, qualifier?, Expr.dotted, Expr.identifier, Expr.member]
  refine (mem_sameAs_iff numbers.answers_counting trivial rfl call _).mpr
    ⟨someWithSameAs, List.mem_singleton_self _, selected, [], someWithSameAs, ?_, ?_, ?_⟩
  · exact
      { place := ⟨[], [], chain, .inl rfl⟩
        selects := .inr ⟨[.identifier "Has", .dotted ["Has", "Some"]], _, rfl, _, _, _, rfl,
          List.mem_singleton_self _⟩
        keepsSelected := by
          rintro segment member ⟨target, name, span, rfl, named⟩
          simp [selected, Expr.dotted, Expr.identifier, Expr.member] at member
          rcases member with ⟨-, rfl, -⟩ | ⟨-, rfl, -⟩ <;>
            simp [SimpleName.ofIdentifier] at named
        keeps := by simp
        noConstraint := by simp
        isConstraint := ⟨_, rfl, rfl⟩ }
  · exact ⟨_, _, _, rfl, rfl, rfl, rfl, rfl⟩
  · exact .inl ⟨⟨_, rfl, rfl⟩, by simp⟩

end Finding

namespace Configuration

/-- A comparison with the elements of a collection is reported as one with the number itself. -/
theorem exists_report_behind_with :
    let source := "using NUnit.Framework;Assert.That(1, Has.Some.With.SameAs(null));"
    ∃ diagnostic,
      (Node.ofSource source).hasError = false ∧
      reported (.ofSource source) = .ok [diagnostic] ∧
      diagnostic.observation.descriptor = .sameAsOnValueTypes ∧
      diagnostic.span.textWithin? source = some "Has.Some.With.SameAs(null)" := by
  refine ⟨⟨⟨37, 63⟩, .sameAsOnValueType ⟨51, 57⟩ "EqualTo",
    (Observation.sameAsOnValueType ⟨51, 57⟩ "EqualTo").message, .error⟩, ?_⟩
  decide +kernel

end Configuration

end AssertionLint
