import AssertionLint.Proofs.Analysis.Order
import AssertionLint.Proofs.Analysis.Reported
import AssertionLint.Proofs.Binding.MethodGroup
import AssertionLint.Proofs.Constraint.Segments
import AssertionLint.Proofs.Syntax.Nesting

/-!
# No diagnostic is listed twice

A finding is reported at its call or at a segment of the constraint in the call. Findings about one
call with the same id are about different parts of the constraint. Findings about two calls with the
same span would share a segment, but then one of the calls would stand in the constraint of the
other one and have the segment among its own arguments, where no segments are. So if the expressions
of a document have different spans, its diagnostics are strictly ordered by their spans and ids
(`Configuration.pairwise_before_analyze`). Those of a document whose concrete syntax is laid out do
(`Configuration.pairwise_before_ofNode`).
-/

namespace AssertionLint

namespace Observation

/-- The number of the rule that makes an observation. -/
def ruleNumber : Observation → Nat
  | classic _ _ => 0
  | condition _ _ _ => 1
  | nullConstraint => 2
  | sameAsOnValueType _ _ => 3
  | formatString => 4

/-- The number of the rule with an id. -/
def ruleNumberOf (id : String) : Nat :=
  if ["NUnit2010", "NUnit2011", "NUnit2012", "NUnit2013", "NUnit2014", "NUnit2043"].contains id then
    1
  else if id = "NUnit2023" then 2
  else if id = "NUnit2040" then 3
  else if id = "NUnit2050" then 4
  else 0

theorem ruleNumberOf_id (observation : Observation) :
    ruleNumberOf observation.descriptor.id = observation.ruleNumber := by
  cases observation with
  | classic rule => cases rule <;> rfl
  | condition rule => cases rule <;> rfl
  | nullConstraint => rfl
  | sameAsOnValueType => rfl
  | formatString => rfl

theorem ruleNumber_eq_of_id_eq {left right : Observation}
    (sameId : left.descriptor.id = right.descriptor.id) : left.ruleNumber = right.ruleNumber := by
  rw [← ruleNumberOf_id, sameId, ruleNumberOf_id]

end Observation

namespace Finding

/-- The findings differ in their spans or in their ids. -/
def Apart (left right : Finding) : Prop :=
  left.span = right.span → left.observation.descriptor.id ≠ right.observation.descriptor.id

theorem apart_of_ruleNumber_ne {left right : Finding}
    (different : left.observation.ruleNumber ≠ right.observation.ruleNumber) : left.Apart right :=
  fun _ sameId => different (Observation.ruleNumber_eq_of_id_eq sameId)

variable {model : SemanticModel Id} {shape : CallShape} {finding : Finding}

/-- Where a finding about a call is reported: at the call, or at a segment of its constraint. -/
inductive IsAt (shape : CallShape) (finding : Finding) : Prop
  | call (spanIs : finding.span = shape.span) (notNull : finding.observation ≠ .nullConstraint)
      (named : ∀ rename replacement,
        finding.observation = .sameAsOnValueType rename replacement →
          shape.method.name ≠ "SameAs")
  | segment {actual constraint segment : Expr}
      (isConstraint : constraintCall? shape = some (actual, constraint))
      (isSegment : segment ∈ ConstraintExpr.allSegments constraint)
      (spanIs : segment.span = some finding.span)
      (observed : finding.observation = .nullConstraint ∨
        ∃ rename, finding.observation = .sameAsOnValueType rename "EqualTo" ∧
          ConstraintPart.segmentName? segment = some "SameAs")

end Finding

namespace ConstraintExpr

/-- The roots of different parts have different spans. -/
def RootsApart (parts : List ConstraintPart) : Prop :=
  parts.Pairwise fun left right => ∀ one ∈ left.root, ∀ other ∈ right.root, one.span ≠ other.span

theorem map_segments_read (model : SemanticModel Id) (expr : Expr) :
    (Id.run (read model expr)).parts.map (·.segments) = chains expr := by
  have counted := (@ensures_read _ model.counting (fun _ => True) (fun _ _ => True)
    (fun _ => .always _) (fun _ => .always _) expr 0 trivial).1
  rw [(model.answers_counting.read expr).eq_run trivial] at counted
  exact counted.1

theorem rootsApart_read (model : SemanticModel Id) {expr : Expr}
    (distinct : (expr.walk.map Expr.span).Nodup) :
    RootsApart (Id.run (read model expr)).parts := by
  have nodup := (flatten_chains_sublist expr).nodup
    (nodup_allSegments (List.Nodup.of_map _ distinct))
  have inside {part : ConstraintPart} (isPart : part ∈ (Id.run (read model expr)).parts)
      {root : Expr} (isRoot : root ∈ part.root) : root ∈ expr.walk :=
    mem_walk_of_mem_allSegments
      (mem_allSegments_of_mem_root (map_segments_read model expr) isPart isRoot)
  rw [← map_segments_read model expr, ← List.flatMap_def, List.nodup_flatMap] at nodup
  refine nodup.2.imp_of_mem ?_
  intro left right isLeft isRight apart one isOne other isOther sameSpan
  have same := List.inj_on_of_nodup_map distinct (inside isLeft isOne) (inside isRight isOther)
    sameSpan
  exact apart (mem_segments_of_mem_root isOne) (same ▸ mem_segments_of_mem_root isOther)

end ConstraintExpr

namespace Finding

variable {model : SemanticModel Id} {shape : CallShape} {finding : Finding}

/-- The finding is about the root of a part. -/
structure IsAtRoot (part : ConstraintPart) (root : Expr) (finding : Finding) : Prop where
  isRoot : root ∈ part.root
  spanIs : root.span = some finding.span

theorem IsAtRoot.apart {left right : ConstraintPart} {one other : Finding} {root otherRoot : Expr}
    (isOne : IsAtRoot left root one) (isOther : IsAtRoot right otherRoot other)
    (apart : ∀ one ∈ left.root, ∀ other ∈ right.root, one.span ≠ other.span) : one.Apart other :=
  fun sameSpan => absurd (isOne.spanIs.trans (sameSpan ▸ isOther.spanIs.symm))
    (apart _ isOne.isRoot _ isOther.isRoot)

/-- Comparisons with `null` are found part by part, if they are looked for. -/
theorem nullConstraints_eq (shape : CallShape) (model : SemanticModel Id) :
    Id.run (nullConstraints shape model) = [] ∨
    ∃ actual constraint, constraintCall? shape = some (actual, constraint) ∧
      ∃ find : ConstraintPart → Option Finding,
        (∀ part finding, find part = some finding → finding.observation = .nullConstraint ∧
          ∃ root, IsAtRoot part root finding) ∧
        Id.run (nullConstraints shape model) =
          (Id.run (ConstraintExpr.read model constraint)).parts.filterMap find := by
  simp only [nullConstraints, bind, pure, Id.run]
  split
  · split
    · exact .inl rfl
    next actual constraint isConstraint =>
      split
      · exact .inl rfl
      · split
        · refine .inr ⟨actual, constraint, isConstraint, _, ?_, rfl⟩
          intro part finding found
          split at found
          · rcases Option.map_eq_some_iff.mp found with ⟨span, spanIs, rfl⟩
            rcases Option.bind_eq_some_iff.mp spanIs with ⟨root, isRoot, spanIs⟩
            exact ⟨rfl, root, isRoot, spanIs⟩
          · cases found
        · exact .inl rfl
  · exact .inl rfl

theorem ofSameAsPart?_eq_some {part : ConstraintPart} (found : ofSameAsPart? part = some finding) :
    (∃ rename, finding.observation = .sameAsOnValueType rename "EqualTo") ∧
      ∃ root, IsAtRoot part root finding := by
  simp only [ofSameAsPart?, bind, pure, Option.bind_eq_some_iff, Option.some.injEq] at found
  rcases found with ⟨root, isRoot, name, -, rename, -, span, spanIs, rfl⟩
  exact ⟨⟨rename, rfl⟩, root, isRoot, spanIs⟩

/-- Comparisons by reference are found part by part. -/
theorem sameAsParts_cons (actualIsValue : Bool) (part : ConstraintPart)
    (rest : List ConstraintPart) :
    ∃ found : Option Finding, Id.run (sameAsParts model actualIsValue (part :: rest)) =
        found.toList ++ Id.run (sameAsParts model actualIsValue rest) ∧
      ∀ finding, found = some finding → part.rootName? = some "SameAs" ∧
        ofSameAsPart? part = some finding := by
  simp only [sameAsParts, bind, pure, Id.run]
  split
  next named =>
    split
    · exact ⟨ofSameAsPart? part, rfl, fun _ found => ⟨by simpa using named, found⟩⟩
    · exact ⟨none, rfl, by simp⟩
  next => exact ⟨none, rfl, by simp⟩

theorem exists_part_of_mem_sameAsParts {actualIsValue : Bool} {parts : List ConstraintPart}
    (reported : finding ∈ Id.run (sameAsParts model actualIsValue parts)) :
    ∃ part ∈ parts, part.rootName? = some "SameAs" ∧ ofSameAsPart? part = some finding := by
  induction parts with
  | nil => simp [sameAsParts, Id.run, pure] at reported
  | cons part rest ih =>
    rcases sameAsParts_cons actualIsValue part rest with ⟨found, split, isPart⟩
    rw [split, List.mem_append, Option.mem_toList] at reported
    rcases reported with here | later
    · exact ⟨part, List.mem_cons_self, isPart finding here⟩
    · rcases ih later with ⟨other, isOther, found⟩
      exact ⟨other, List.mem_cons_of_mem _ isOther, found⟩

theorem pairwise_apart_sameAsParts (actualIsValue : Bool) {parts : List ConstraintPart}
    (rootsApart : ConstraintExpr.RootsApart parts) :
    (Id.run (sameAsParts model actualIsValue parts)).Pairwise Apart := by
  induction parts with
  | nil => exact .nil
  | cons part rest ih =>
    rw [ConstraintExpr.RootsApart, List.pairwise_cons] at rootsApart
    rcases sameAsParts_cons actualIsValue part rest with ⟨found, split, isPart⟩
    rw [split]
    refine List.pairwise_append.mpr ⟨by cases found <;> simp, ih rootsApart.2, ?_⟩
    intro one isOne other isOther
    rcases ofSameAsPart?_eq_some (isPart one (Option.mem_toList.mp isOne)).2 with ⟨-, root, oneAt⟩
    rcases exists_part_of_mem_sameAsParts isOther with ⟨otherPart, isPart, -, found⟩
    rcases ofSameAsPart?_eq_some found with ⟨-, otherRoot, otherAt⟩
    exact oneAt.apart otherAt (rootsApart.1 otherPart isPart)

/-- A classic comparison by reference is reported at the call. -/
theorem eq_of_sameAsCall? {replacement : String}
    (reported : Id.run (sameAsCall? shape model replacement) = some finding) :
    ∃ rename, finding = ⟨shape.span, .sameAsOnValueType rename replacement⟩ := by
  simp only [sameAsCall?, bind, pure, Id.run] at reported
  split at reported
  · have named : (shape.memberName?.bind (·.span)).map (fun rename =>
        (⟨shape.span, .sameAsOnValueType rename replacement⟩ : Finding)) = some finding := by
      split at reported <;> split at reported
      · exact reported
      · cases reported
      · exact reported
      · cases reported
    rcases Option.map_eq_some_iff.mp named with ⟨rename, -, rfl⟩
    exact ⟨rename, rfl⟩
  · cases reported

/-- Comparisons by reference are found in the parts of a constraint or are the call itself. -/
theorem sameAs_eq (shape : CallShape) (model : SemanticModel Id) :
    (∃ replacement, shape.method.name ≠ "SameAs" ∧ Id.run (sameAs shape model) =
      (Id.run (sameAsCall? shape model replacement)).toList) ∨
    (∃ actual constraint actualIsValue, constraintCall? shape = some (actual, constraint) ∧
      Id.run (sameAs shape model) = Id.run (sameAsParts model actualIsValue
        (Id.run (ConstraintExpr.read model constraint)).parts)) ∨
    Id.run (sameAs shape model) = [] := by
  simp only [sameAs, bind, pure, Id.run]
  split
  next =>
    split
    · exact .inr (.inr rfl)
    next actual constraint isConstraint =>
      exact .inr (.inl ⟨actual, constraint, _, isConstraint, rfl⟩)
  next isAreSame => exact .inl ⟨_, by rw [isAreSame]; decide, rfl⟩
  next isAreNotSame => exact .inl ⟨_, by rw [isAreNotSame]; decide, rfl⟩
  next => exact .inr (.inr rfl)

theorem isAt_of_mem_nullConstraints (reported : finding ∈ Id.run (nullConstraints shape model)) :
    IsAt shape finding := by
  rcases nullConstraints_eq shape model with
    none | ⟨actual, constraint, isConstraint, find, finds, split⟩
  · simp [none] at reported
  · rw [split] at reported
    rcases List.mem_filterMap.mp reported with ⟨part, isPart, found⟩
    rcases finds part finding found with ⟨observed, root, isAtRoot⟩
    have isSegment := ConstraintExpr.mem_allSegments_of_mem_root
      (ConstraintExpr.map_segments_read model constraint) isPart isAtRoot.isRoot
    exact .segment isConstraint isSegment isAtRoot.spanIs (.inl observed)

theorem isAt_of_mem_sameAs (reported : finding ∈ Id.run (sameAs shape model)) :
    IsAt shape finding := by
  rcases sameAs_eq shape model with
    ⟨replacement, named, call⟩ | ⟨actual, constraint, actualIsValue, isConstraint, parts⟩ | none
  · rw [call, Option.mem_toList] at reported
    rcases eq_of_sameAsCall? reported with ⟨rename, rfl⟩
    exact .call rfl nofun fun _ _ _ => named
  · rw [parts] at reported
    rcases exists_part_of_mem_sameAsParts reported with ⟨part, isPart, named, found⟩
    rcases ofSameAsPart?_eq_some found with ⟨⟨rename, observed⟩, root, isAtRoot⟩
    have isSegment := ConstraintExpr.mem_allSegments_of_mem_root
      (ConstraintExpr.map_segments_read model constraint) isPart isAtRoot.isRoot
    refine .segment isConstraint isSegment isAtRoot.spanIs (.inr ⟨rename, observed, ?_⟩)
    rwa [ConstraintPart.rootName?, Option.mem_def.mp isAtRoot.isRoot] at named
  · simp [none] at reported

theorem isAt_of_mem_ofCall (reported : finding ∈ Id.run (ofCall shape model)) :
    IsAt shape finding := by
  rcases mem_ofCall.mp reported with found | found | found | found | found
  · rcases classic?_eq_some_iff.mp found with ⟨rule, -, -, rfl⟩
    exact .call rfl nofun nofun
  · rcases condition?_eq_some_iff.mp found with ⟨condition, found, -, -, rfl⟩
    exact .call rfl nofun nofun
  · exact isAt_of_mem_nullConstraints found
  · exact isAt_of_mem_sameAs found
  · rcases (formatString?_eq_some_iff.mp found) with ⟨-, -, -, -, rfl⟩
    exact .call rfl nofun nofun

/-- No two expressions of the constraint in the call have the same span. -/
def ConstraintIsDistinct (shape : CallShape) : Prop :=
  ∀ actual constraint, constraintCall? shape = some (actual, constraint) →
    (constraint.walk.map Expr.span).Nodup

theorem pairwise_apart_nullConstraints (model : SemanticModel Id)
    (distinct : ConstraintIsDistinct shape) :
    (Id.run (nullConstraints shape model)).Pairwise Apart := by
  rcases nullConstraints_eq shape model with
    none | ⟨actual, constraint, isConstraint, find, finds, split⟩
  · rw [none]
    exact .nil
  · rw [split, List.pairwise_filterMap]
    refine (ConstraintExpr.rootsApart_read model (distinct actual constraint isConstraint)).imp ?_
    intro left right apart one isOne other isOther
    rcases finds left one isOne with ⟨-, root, oneAt⟩
    rcases finds right other isOther with ⟨-, otherRoot, otherAt⟩
    exact oneAt.apart otherAt apart

theorem pairwise_apart_sameAs (model : SemanticModel Id)
    (distinct : ConstraintIsDistinct shape) :
    (Id.run (sameAs shape model)).Pairwise Apart := by
  rcases sameAs_eq shape model with
    ⟨replacement, -, call⟩ | ⟨actual, constraint, actualIsValue, isConstraint, parts⟩ | none
  · rw [call]
    cases Id.run (sameAsCall? shape model replacement) <;> simp
  · rw [parts]
    exact pairwise_apart_sameAsParts actualIsValue
      (ConstraintExpr.rootsApart_read model (distinct actual constraint isConstraint))
  · rw [none]
    exact .nil

/-- The findings are apart and come from rules with smaller numbers. -/
def AreApartBelow (number : Nat) (findings : List Finding) : Prop :=
  findings.Pairwise Apart ∧ ∀ finding ∈ findings, finding.observation.ruleNumber < number

theorem AreApartBelow.append {number : Nat} {findings others : List Finding}
    (below : AreApartBelow number findings) (apart : others.Pairwise Apart)
    (numbered : ∀ finding ∈ others, finding.observation.ruleNumber = number) :
    AreApartBelow (number + 1) (findings ++ others) := by
  refine ⟨List.pairwise_append.mpr ⟨below.1, apart, ?_⟩, ?_⟩
  · intro one isOne other isOther
    have := below.2 one isOne
    have := numbered other isOther
    exact apart_of_ruleNumber_ne (by omega)
  · intro finding member
    rcases List.mem_append.mp member with isOne | isOther
    · exact Nat.lt_succ_of_lt (below.2 finding isOne)
    · exact Nat.lt_succ_of_le (Nat.le_of_eq (numbered finding isOther))

theorem pairwise_apart_toList (found : Option Finding) : found.toList.Pairwise Apart := by
  cases found <;> simp

/-- Findings about the same call differ in their spans or in their ids. -/
theorem pairwise_apart_ofCall (model : SemanticModel Id)
    (distinct : ConstraintIsDistinct shape) :
    (Id.run (ofCall shape model)).Pairwise Apart := by
  have nothing : AreApartBelow 0 [] := ⟨.nil, nofun⟩
  have classic := nothing.append (pairwise_apart_toList (classic? shape)) (by
    intro finding found
    rcases classic?_eq_some_iff.mp (Option.mem_toList.mp found) with ⟨rule, -, -, rfl⟩
    rfl)
  have condition := classic.append (pairwise_apart_toList (Id.run (condition? shape model))) (by
    intro finding found
    rcases condition?_eq_some_iff.mp (Option.mem_toList.mp found) with ⟨_, _, -, -, rfl⟩
    rfl)
  have nulls := condition.append (pairwise_apart_nullConstraints model distinct) (by
    intro finding found
    rw [observation_of_mem_nullConstraints found]
    rfl)
  have references := nulls.append (pairwise_apart_sameAs model distinct) (by
    intro finding found
    rcases observation_of_mem_sameAs found with ⟨rename, replacement, observed⟩
    rw [observed]
    rfl)
  have formats := references.append (pairwise_apart_toList (formatString? shape)) (by
    intro finding found
    rcases formatString?_eq_some_iff.mp (Option.mem_toList.mp found) with ⟨-, -, -, -, rfl⟩
    rfl)
  exact formats.1

end Finding

namespace CallShape

/-- The constraint of a call is one of its arguments. -/
theorem exists_argument_of_constraintCall? {call : Expr} {shape : CallShape}
    {method : MethodSymbol} {actual constraint : Expr}
    (read : bind? call method = some shape)
    (isConstraint : Finding.constraintCall? shape = some (actual, constraint)) :
    ∃ target list span argument, call = .invocation target list span ∧
      argument ∈ list.arguments ∧ argument.expression = constraint := by
  rcases exists_of_bind? read with ⟨list, rfl, arguments, -⟩
  simp only [Finding.constraintCall?, bind, pure, Option.bind_eq_some_iff, Option.some.injEq,
    Prod.mk.injEq] at isConstraint
  rcases isConstraint with ⟨-, -, argument, isArgument, -, rfl⟩
  rcases Option.map_eq_some_iff.mp isArgument with ⟨entry, found, rfl⟩
  have isBound := List.mem_of_find?_eq_some found
  refine ⟨_, list, _, entry.argument, rfl, ?_, rfl⟩
  exact arguments ▸ List.mem_map_of_mem (List.mem_filter.mp isBound).1

end CallShape

namespace SyntaxTree

variable {tree : SyntaxTree} (distinct : (tree.expressions.map Expr.span).Nodup)

include distinct

theorem eq_of_span_eq {left right : Expr} (isLeft : left ∈ tree.expressions)
    (isRight : right ∈ tree.expressions) (sameSpan : left.span = right.span) : left = right :=
  List.inj_on_of_nodup_map distinct isLeft isRight sameSpan

theorem nodup_spans_walk {expr : Expr} (member : expr ∈ tree.expressions) :
    (expr.walk.map Expr.span).Nodup := by
  rcases mem_expressions.mp member with ⟨root, isRoot, inside⟩
  refine distinct.sublist (((Expr.walk_sublist_of_mem_walk inside).trans ?_).map _)
  exact List.sublist_flatten_of_mem (List.mem_map_of_mem isRoot)

/-- Of two expressions of the document that have a part in common one contains the other. -/
theorem mem_walk_or_mem_walk {left right part : Expr} (isLeft : left ∈ tree.expressions)
    (isRight : right ∈ tree.expressions) (inLeft : part ∈ left.walk) (inRight : part ∈ right.walk) :
    left ∈ right.walk ∨ right ∈ left.walk := by
  rcases mem_expressions.mp isLeft with ⟨root, isRoot, leftInside⟩
  rcases mem_expressions.mp isRight with ⟨otherRoot, isOtherRoot, rightInside⟩
  have nodup : tree.expressions.Nodup := List.Nodup.of_map _ distinct
  cases Expr.eq_of_nodup_flatMap nodup isRoot isOtherRoot (Expr.mem_walk_trans leftInside inLeft)
    (Expr.mem_walk_trans rightInside inRight)
  exact Expr.mem_walk_or_mem_walk ((List.nodup_flatMap.mp nodup).1 root isRoot) leftInside
    rightInside inLeft inRight

end SyntaxTree

namespace Finding

variable {tree : SyntaxTree} {left right : Expr} {leftShape rightShape : CallShape}
  {one other : Finding}

/-- The shape is read from a call of the document that is called by the name of its method. -/
structure IsRead (tree : SyntaxTree) (call : Expr) (shape : CallShape) : Prop where
  inside : call ∈ tree.expressions
  read : CallShape.bind? call shape.method = some shape
  named : call.trailingName?.map (·.identifier) = some shape.method.name

theorem isRead_of_classify? {model : SemanticModel Id} (named : model.ResolvesByName)
    {root : RootExpression} (inside : left ∈ tree.expressions)
    (classified : Id.run (CallShape.classify? left root model) = some leftShape) :
    IsRead tree left leftShape := by
  rcases CallShape.resolved_of_classify? classified with ⟨resolved, -, read⟩
  refine ⟨inside, read, named left _ ?_ resolved⟩
  rcases CallShape.exists_of_bind? read with ⟨list, rfl, -⟩
  rfl

theorem IsRead.constraint (isRead : IsRead tree left leftShape) {actual constraint : Expr}
    (isConstraint : constraintCall? leftShape = some (actual, constraint)) :
    constraint ∈ left.children ∧ constraint ∈ tree.expressions := by
  rcases CallShape.exists_argument_of_constraintCall? isRead.read isConstraint with
    ⟨target, list, span, argument, rfl, isArgument, rfl⟩
  have isChild : argument.expression ∈ (Expr.invocation target list span).children :=
    List.mem_cons_of_mem _ (List.mem_map_of_mem isArgument)
  rcases SyntaxTree.mem_expressions.mp isRead.inside with ⟨root, isRoot, inside⟩
  exact ⟨isChild, SyntaxTree.mem_expressions.mpr ⟨root, isRoot, Expr.child_mem_walk inside isChild⟩⟩

variable (distinct : (tree.expressions.map Expr.span).Nodup)

include distinct

/-- A segment with the span of a call is the call, so it has the name of the method called. -/
theorem not_same_at_call_and_segment (leftRead : IsRead tree left leftShape)
    (spanIs : one.span = leftShape.span) (notNull : one.observation ≠ .nullConstraint)
    (named : ∀ rename replacement, one.observation = .sameAsOnValueType rename replacement →
      leftShape.method.name ≠ "SameAs")
    {segment : Expr} (isSegment : segment ∈ tree.expressions)
    (segmentSpan : segment.span = some other.span)
    (observed : other.observation = .nullConstraint ∨
      ∃ rename, other.observation = .sameAsOnValueType rename "EqualTo" ∧
        ConstraintPart.segmentName? segment = some "SameAs")
    (sameSpan : one.span = other.span) (sameNumber : one.observation.ruleNumber =
      other.observation.ruleNumber) : False := by
  have isCall : segment = left := by
    refine SyntaxTree.eq_of_span_eq distinct isSegment leftRead.inside ?_
    rw [segmentSpan, ← sameSpan, spanIs, CallShape.span_of_bind? leftRead.read]
  subst isCall
  rcases observed with observed | ⟨rename, observed, isSameAs⟩
  · rw [observed] at sameNumber
    generalize one.observation = observation at sameNumber notNull
    cases observation <;> simp [Observation.ruleNumber] at sameNumber notNull
  · rw [observed] at sameNumber
    have name : ConstraintPart.segmentName? segment = some leftShape.method.name := by
      rcases CallShape.exists_of_bind? leftRead.read with ⟨list, rfl, -⟩
      exact leftRead.named
    rw [isSameAs, Option.some.injEq] at name
    generalize one.observation = observation at sameNumber named
    cases observation <;> simp [Observation.ruleNumber] at sameNumber
    exact named _ _ rfl name.symm

/-- No segment of the constraint of a call is one of the constraint of another call inside. -/
theorem not_common_segment (leftRead : IsRead tree left leftShape)
    (rightRead : IsRead tree right rightShape) (different : left ≠ right)
    (isInner : right ∈ left.walk) {actual constraint otherActual otherConstraint segment : Expr}
    (isConstraint : constraintCall? leftShape = some (actual, constraint))
    (isSegment : segment ∈ ConstraintExpr.allSegments constraint)
    (isOtherConstraint : constraintCall? rightShape = some (otherActual, otherConstraint))
    (isOtherSegment : segment ∈ ConstraintExpr.allSegments otherConstraint) : False := by
  rcases CallShape.exists_argument_of_constraintCall? rightRead.read isOtherConstraint with
    ⟨target, list, span, argument, rfl, isArgument, rfl⟩
  have nodup := List.Nodup.of_map _ (SyntaxTree.nodup_spans_walk distinct leftRead.inside)
  exact ConstraintExpr.notMem_walk_of_inner_call isArgument nodup
    (leftRead.constraint isConstraint).1 isSegment isInner different.symm
    (ConstraintExpr.mem_walk_of_mem_allSegments isOtherSegment)

/-- Findings about different calls differ in their spans or in their ids. -/
theorem apart_of_different_calls (leftRead : IsRead tree left leftShape)
    (rightRead : IsRead tree right rightShape) (different : left ≠ right)
    (oneAt : IsAt leftShape one) (otherAt : IsAt rightShape other) : one.Apart other := by
  intro sameSpan sameId
  have sameNumber := Observation.ruleNumber_eq_of_id_eq sameId
  have inTree {call : Expr} {shape : CallShape} (isRead : IsRead tree call shape)
      {actual constraint segment : Expr}
      (isConstraint : constraintCall? shape = some (actual, constraint))
      (isSegment : segment ∈ ConstraintExpr.allSegments constraint) :
      segment ∈ tree.expressions := by
    rcases SyntaxTree.mem_expressions.mp (isRead.constraint isConstraint).2 with
      ⟨root, isRoot, inside⟩
    exact SyntaxTree.mem_expressions.mpr ⟨root, isRoot,
      Expr.mem_walk_trans inside (ConstraintExpr.mem_walk_of_mem_allSegments isSegment)⟩
  -- a finding is reported at its call or at a segment of its constraint
  cases oneAt with
  | call spanIs notNull named =>
    cases otherAt with
    | call otherSpanIs =>
      refine different (SyntaxTree.eq_of_span_eq distinct leftRead.inside rightRead.inside ?_)
      rw [CallShape.span_of_bind? leftRead.read, CallShape.span_of_bind? rightRead.read, ← spanIs,
        sameSpan, otherSpanIs]
    | segment isConstraint isSegment segmentSpan observed =>
      exact not_same_at_call_and_segment distinct leftRead spanIs notNull named
        (inTree rightRead isConstraint isSegment) segmentSpan observed sameSpan sameNumber
  | segment isConstraint isSegment segmentSpan observed =>
    cases otherAt with
    | call spanIs notNull named =>
      exact not_same_at_call_and_segment distinct rightRead spanIs notNull named
        (inTree leftRead isConstraint isSegment) segmentSpan observed sameSpan.symm sameNumber.symm
    | segment isOtherConstraint isOtherSegment otherSegmentSpan =>
      have same := SyntaxTree.eq_of_span_eq distinct (inTree leftRead isConstraint isSegment)
        (inTree rightRead isOtherConstraint isOtherSegment)
        (by rw [segmentSpan, otherSegmentSpan, sameSpan])
      subst same
      have inCall {call constraint segment : Expr} (isChild : constraint ∈ call.children)
          (isSegment : segment ∈ ConstraintExpr.allSegments constraint) : segment ∈ call.walk :=
        Expr.mem_walk_of_mem_children isChild (ConstraintExpr.mem_walk_of_mem_allSegments isSegment)
      -- a segment of two calls makes one of them part of the constraint of the other
      rcases SyntaxTree.mem_walk_or_mem_walk distinct leftRead.inside rightRead.inside
        (inCall (leftRead.constraint isConstraint).1 isSegment)
        (inCall (rightRead.constraint isOtherConstraint).1 isOtherSegment) with
        leftInner | rightInner
      · exact not_common_segment distinct rightRead leftRead different.symm leftInner
          isOtherConstraint isOtherSegment isConstraint isSegment
      · exact not_common_segment distinct leftRead rightRead different rightInner
          isConstraint isSegment isOtherConstraint isOtherSegment

theorem constraintIsDistinct (isRead : IsRead tree left leftShape) :
    ConstraintIsDistinct leftShape :=
  fun _ _ isConstraint =>
    SyntaxTree.nodup_spans_walk distinct (isRead.constraint isConstraint).2

end Finding

namespace Diagnostic

/-- The diagnostics differ in their spans or in their ids. -/
def Apart (left right : Diagnostic) : Prop := left.span = right.span → left.id ≠ right.id

/-- The first diagnostic has a smaller start, the same start and a smaller end, or the same span and
a smaller id. -/
def Before (left right : Diagnostic) : Prop :=
  left.span.start < right.span.start ∨
    left.span.start = right.span.start ∧
      (left.span.stop < right.span.stop ∨
        left.span.stop = right.span.stop ∧ left.id < right.id)

theorem before_of_notAfter {left right : Diagnostic} (notAfter : left.notAfter right = true)
    (apart : left.Apart right) : left.Before right := by
  rcases notAfter_iff.mp notAfter with start | ⟨start, stop | ⟨stop, notLess⟩⟩
  · exact .inl start
  · exact .inr ⟨start, .inl stop⟩
  · have sameSpan : left.span = right.span := by
      rcases left with ⟨⟨_, _⟩, _, _, _⟩
      rcases right with ⟨⟨_, _⟩, _, _, _⟩
      simp_all
    refine .inr ⟨start, .inr ⟨stop, ?_⟩⟩
    by_contra notLessEither
    exact apart sameSpan
      (String.le_antisymm (String.not_lt.mp notLess) (String.not_lt.mp notLessEither))

/-- Sorted diagnostics that are apart are strictly ordered. -/
theorem pairwise_before_mergeSort {diagnostics : List Diagnostic}
    (apart : diagnostics.Pairwise Apart) :
    (diagnostics.mergeSort notAfter).Pairwise Before := by
  have stillApart : (diagnostics.mergeSort notAfter).Pairwise Apart := by
    refine (List.mergeSort_perm diagnostics notAfter).symm.pairwise apart ?_
    exact fun {left right} apart sameSpan sameId => apart sameSpan.symm sameId.symm
  exact (pairwise_mergeSort_notAfter diagnostics).imp₂ (fun _ _ => before_of_notAfter) stillApart

end Diagnostic

namespace Configuration

variable {configuration : Configuration} {model : SemanticModel Id} {token : CancellationToken}
  {tree : SyntaxTree}

theorem exists_isAt_of_mem_diagnoseCall (named : model.ResolvesByName)
    {call : Expr × RootExpression} (inside : call.1 ∈ tree.expressions) {diagnostic : Diagnostic}
    (reported : diagnostic ∈ Id.run (configuration.diagnoseCall model call)) :
    ∃ shape finding, Finding.IsRead tree call.1 shape ∧ Finding.IsAt shape finding ∧
      diagnostic.span = finding.span ∧ diagnostic.id = finding.observation.descriptor.id := by
  rcases mem_diagnoseCall.mp reported with ⟨shape, classified, finding, isFinding, reported⟩
  rcases report?_eq_some_iff.mp reported with ⟨rfl, -, -⟩
  exact ⟨shape, _, Finding.isRead_of_classify? named inside classified,
    Finding.isAt_of_mem_ofCall isFinding, rfl, rfl⟩

theorem pairwise_apart_diagnoseCall (distinct : (tree.expressions.map Expr.span).Nodup)
    (named : model.ResolvesByName) {call : Expr × RootExpression}
    (inside : call.1 ∈ tree.expressions) :
    (Id.run (configuration.diagnoseCall model call)).Pairwise Diagnostic.Apart := by
  simp only [diagnoseCall, bind, pure, Id.run]
  split
  · exact .nil
  next shape classified =>
    rw [List.pairwise_filterMap]
    refine (Finding.pairwise_apart_ofCall model (Finding.constraintIsDistinct distinct
      (Finding.isRead_of_classify? named inside classified))).imp ?_
    intro one other apart left isLeft right isRight
    rcases report?_eq_some_iff.mp isLeft with ⟨rfl, -, -⟩
    rcases report?_eq_some_iff.mp isRight with ⟨rfl, -, -⟩
    exact apart

theorem pairwise_apart_diagnoseCalls (distinct : (tree.expressions.map Expr.span).Nodup)
    (named : model.ResolvesByName) {calls : List (Expr × RootExpression)}
    (inside : ∀ call ∈ calls, call.1 ∈ tree.expressions)
    (different : (calls.map (·.1)).Nodup) {diagnostics : List Diagnostic}
    (diagnosed : Id.run (configuration.diagnoseCalls model token calls) = .ok diagnostics) :
    diagnostics.Pairwise Diagnostic.Apart := by
  induction calls generalizing diagnostics with
  | nil =>
    cases diagnosed
    exact .nil
  | cons call rest ih =>
    rw [List.forall_mem_cons] at inside
    rw [List.map_cons, List.nodup_cons] at different
    unfold diagnoseCalls at diagnosed
    split at diagnosed
    · cases diagnosed
    simp only [bind, pure, Id.run] at diagnosed
    cases restDiagnosed : configuration.diagnoseCalls model token rest with
    | error error =>
      rw [restDiagnosed] at diagnosed
      cases diagnosed
    | ok others =>
      rw [restDiagnosed] at diagnosed
      cases diagnosed
      refine List.pairwise_append.mpr ⟨pairwise_apart_diagnoseCall distinct named inside.1,
        ih inside.2 different.2 restDiagnosed, ?_⟩
      intro left isLeft right isRight
      rcases (mem_diagnoseCalls restDiagnosed).mp isRight with ⟨other, isOther, isRight⟩
      rcases exists_isAt_of_mem_diagnoseCall named inside.1 isLeft with
        ⟨shape, finding, isRead, isAt, spanIs, idIs⟩
      rcases exists_isAt_of_mem_diagnoseCall named (inside.2 other isOther) isRight with
        ⟨otherShape, otherFinding, otherIsRead, otherIsAt, otherSpanIs, otherIdIs⟩
      have differentCalls : call.1 ≠ other.1 := by
        intro same
        exact different.1 (same ▸ List.mem_map_of_mem isOther)
      unfold Diagnostic.Apart
      rw [spanIs, idIs, otherSpanIs, otherIdIs]
      exact Finding.apart_of_different_calls distinct isRead otherIsRead differentCalls isAt
        otherIsAt

theorem invocations_sublist_expressions (tree : SyntaxTree) :
    (tree.invocations.map (·.1)).Sublist tree.expressions := by
  unfold SyntaxTree.invocations SyntaxTree.expressions
  induction tree.roots with
  | nil => simp
  | cons root rest ih =>
    rw [List.flatMap_cons, List.flatMap_cons, List.map_append, List.map_map]
    refine List.Sublist.append ?_ ih
    simp [Function.comp_def]

/-- The diagnostics are strictly ordered, if analysis gives some. -/
theorem pairwise_before_of_analyze (distinct : (tree.expressions.map Expr.span).Nodup)
    (named : model.ResolvesByName) {diagnostics : List Diagnostic}
    (analyzed : Id.run (configuration.analyze tree model token) = .ok diagnostics) :
    diagnostics.Pairwise Diagnostic.Before := by
  simp only [analyze, bind, pure, Id.run] at analyzed
  cases diagnosed : configuration.diagnoseCalls model token tree.invocations with
  | error error =>
    rw [diagnosed] at analyzed
    cases analyzed
  | ok found =>
    rw [diagnosed] at analyzed
    cases analyzed
    have calls := invocations_sublist_expressions tree
    exact Diagnostic.pairwise_before_mergeSort (pairwise_apart_diagnoseCalls distinct named
      (fun call isCall => calls.subset (List.mem_map_of_mem isCall))
      ((List.Nodup.of_map _ distinct).sublist calls) diagnosed)

/-- If the expressions of a document have different spans and calls are taken for methods of their
names, then the diagnostics are strictly ordered by their spans and ids, whatever a model remembers
and however the rules are configured. They are all that is found with rules that are turned on, and
there are diagnostics unless the host asks to stop. -/
theorem pairwise_before_analyze {σ : Type} {remembering : SemanticModel (StateM σ)}
    {invariant : σ → Prop} (configuration : Configuration)
    (distinct : (tree.expressions.map Expr.span).Nodup)
    (answers : remembering.Answers model invariant) (named : model.ResolvesByName)
    (token : CancellationToken) {state : σ} (inside : invariant state) :
    (∀ diagnostics,
      ((configuration.analyze tree remembering token).run state).1 = .ok diagnostics →
        diagnostics.Pairwise Diagnostic.Before ∧ ∀ diagnostic, diagnostic ∈ diagnostics ↔
          ∃ shape, configuration.IsReported tree model diagnostic shape) ∧
      (token.isCancelled = false → ∃ diagnostics,
        ((configuration.analyze tree remembering token).run state).1 = .ok diagnostics) := by
  rw [(answers.analyze configuration tree token).eq_run inside]
  refine ⟨?_, exists_analyze configuration tree model token⟩
  intro diagnostics analyzed
  exact ⟨pairwise_before_of_analyze distinct named analyzed, fun _ => mem_analyze analyzed⟩

/-- The diagnostics of `SyntaxTree.nestedCalls` in strict order. -/
theorem pairwise_before_nestedDiagnostics :
    SemanticModel.ofMemberNames.ResolvesByName ∧
    SemanticModel.ofMemberNames.counting.Answers .ofMemberNames (fun _ => True) ∧
    (SyntaxTree.nestedCalls.expressions.map Expr.span).Nodup ∧
    ((Configuration.analyze {} .nestedCalls SemanticModel.ofMemberNames.counting {}).run 3).1 =
      .ok SyntaxTree.nestedDiagnostics ∧
    SyntaxTree.nestedDiagnostics.Pairwise Diagnostic.Before := by
  have named := SemanticModel.resolvesByName_ofMemberNames
  have answers := SemanticModel.ofMemberNames.answers_counting
  have distinct := SyntaxTree.isWellSpanned_nestedCalls.distinct
  have analyzed : ((Configuration.analyze {} .nestedCalls SemanticModel.ofMemberNames.counting
      {}).run 3).1 = .ok SyntaxTree.nestedDiagnostics :=
    ((answers.analyze {} .nestedCalls {}).eq_run trivial).trans analyze_nestedCalls
  exact ⟨named, answers, distinct, analyzed,
    ((pairwise_before_analyze {} distinct answers named {} trivial).1 _ analyzed).1⟩

/-- The diagnostics of a document are strictly ordered if its model answers without memory. -/
theorem pairwise_before_ofNode (configuration : Configuration) {source : String} {node : Node}
    (isDocument : node.IsDocument source) :
    ∃ diagnostics,
      Id.run (configuration.analyze (ParsedDocument.ofNode source node).tree
        (ParsedDocument.ofNode source node).totalBinder.toModel {}) = .ok diagnostics ∧
      diagnostics.Pairwise Diagnostic.Before := by
  rcases exists_analyze configuration (ParsedDocument.ofNode source node).tree
    (ParsedDocument.ofNode source node).totalBinder.toModel {} rfl with ⟨diagnostics, analyzed⟩
  exact ⟨diagnostics, analyzed, pairwise_before_of_analyze (ParsedDocument.nodup_spans isDocument)
    (ParsedDocument.ofNode source node).resolvesByName_totalBinder analyzed⟩

end Configuration

end AssertionLint
