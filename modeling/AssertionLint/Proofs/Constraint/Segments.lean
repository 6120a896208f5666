import AssertionLint.Proofs.Constraint.Decomposition
import AssertionLint.Proofs.Syntax.Search
import Mathlib.Data.List.Pairwise

/-!
# Segments of a constraint in a tree

In a tree in which no expression occurs twice the parts of different expressions are the same only
if one of them contains the other (`Expr.mem_walk_or_mem_walk`). The segments of a constraint are
different parts of it, and none of them stands among the arguments of a call: where a chain goes
through a call, it goes on with the expression that the method is called on
(`ConstraintExpr.notMem_walk_of_mem_allSegments`).
-/

namespace AssertionLint

namespace Expr

theorem sizeOf_le_of_mem_walk {expr part : Expr} (inside : part ∈ expr.walk) :
    sizeOf part ≤ sizeOf expr := by
  induction expr using inductionOnChildren with
  | step expr ih =>
    rcases mem_walk_iff.mp inside with rfl | ⟨child, isChild, below⟩
    · exact Nat.le_refl _
    · have := ih child isChild below
      have := sizeOf_lt_of_mem_children isChild
      omega

/-- The expressions of a part are among those of the whole, in the same order. -/
theorem walk_sublist_of_mem_walk {expr part : Expr} (inside : part ∈ expr.walk) :
    part.walk.Sublist expr.walk := by
  induction expr using inductionOnChildren with
  | step expr ih =>
    rcases mem_walk_iff.mp inside with rfl | ⟨child, isChild, below⟩
    · exact List.Sublist.refl _
    · rw [walk_eq expr]
      refine (ih child isChild below).trans (.cons expr ?_)
      exact List.sublist_flatten_of_mem (List.mem_map_of_mem isChild)

/-- In a list collected without repetition each entry comes from one place only. -/
theorem eq_of_nodup_flatMap {α : Type} {items : List α} {parts : α → List Expr}
    (nodup : (items.flatMap parts).Nodup) {left right : α} {part : Expr} (isLeft : left ∈ items)
    (isRight : right ∈ items) (inLeft : part ∈ parts left) (inRight : part ∈ parts right) :
    left = right := by
  have : Std.Symm (Function.onFun List.Disjoint parts) :=
    ⟨fun _ _ apart _ isRight isLeft => apart isLeft isRight⟩
  by_contra different
  exact (List.nodup_flatMap.mp nodup).2.forall isLeft isRight different inLeft inRight

/-- The children of an expression without repetition have no part in common. -/
theorem nodup_walk_children {expr : Expr} (nodup : expr.walk.Nodup) :
    (∀ child ∈ expr.children, child.walk.Nodup) ∧
      expr.children.Pairwise fun left right => ∀ part ∈ left.walk, part ∉ right.walk := by
  rw [walk_eq, List.nodup_cons, List.nodup_flatMap] at nodup
  refine ⟨nodup.2.1, nodup.2.2.imp ?_⟩
  intro left right disjoint part isLeft isRight
  exact disjoint isLeft isRight

theorem child_eq_of_common_part {expr left right part : Expr} (nodup : expr.walk.Nodup)
    (isLeft : left ∈ expr.children) (isRight : right ∈ expr.children)
    (inLeft : part ∈ left.walk) (inRight : part ∈ right.walk) : left = right := by
  rw [walk_eq, List.nodup_cons] at nodup
  exact eq_of_nodup_flatMap nodup.2 isLeft isRight inLeft inRight

/-- An expression with a part in a child is in this child, or is the whole. -/
theorem mem_walk_child {expr child inner part : Expr} (nodup : expr.walk.Nodup)
    (isChild : child ∈ expr.children) (inChild : part ∈ child.walk) (inside : inner ∈ expr.walk)
    (notWhole : inner ≠ expr) (inInner : part ∈ inner.walk) : inner ∈ child.walk := by
  rcases mem_walk_iff.mp inside with isWhole | ⟨other, isOther, below⟩
  · exact absurd isWhole notWhole
  · rwa [child_eq_of_common_part nodup isChild isOther inChild (mem_walk_trans below inInner)]

/-- Of two expressions that have a part in common one contains the other. -/
theorem mem_walk_or_mem_walk {root left right part : Expr} (nodup : root.walk.Nodup)
    (isLeft : left ∈ root.walk) (isRight : right ∈ root.walk) (inLeft : part ∈ left.walk)
    (inRight : part ∈ right.walk) : left ∈ right.walk ∨ right ∈ left.walk := by
  induction root using inductionOnChildren with
  | step root ih =>
    rcases mem_walk_iff.mp isLeft with rfl | ⟨leftChild, isLeftChild, belowLeft⟩
    · exact .inr isRight
    rcases mem_walk_iff.mp isRight with rfl | ⟨rightChild, isRightChild, belowRight⟩
    · exact .inl isLeft
    cases child_eq_of_common_part nodup isLeftChild isRightChild (mem_walk_trans belowLeft inLeft)
      (mem_walk_trans belowRight inRight)
    exact ih leftChild isLeftChild ((nodup_walk_children nodup).1 leftChild isLeftChild) belowLeft
      belowRight

end Expr

namespace ConstraintExpr

/-- The segments of all operands. -/
def allSegments (expr : Expr) : List Expr := (operands expr).flatMap segments

theorem flatten_splitCombinators_sublist (chain : List Expr) :
    (splitCombinators chain).flatten.Sublist chain := by
  fun_induction splitCombinators chain with
  | case1 => simp
  | case2 segment => simp
  | case3 segment rest notLast combines ih => exact ih.cons segment
  | case4 segment rest notLast keeps split ih => simp
  | case5 segment rest notLast keeps part parts split ih =>
    rw [split] at ih
    exact ih.cons_cons segment

theorem flatten_chains_sublist (expr : Expr) :
    (chains expr).flatten.Sublist (allSegments expr) := by
  unfold chains allSegments
  induction operands expr with
  | nil => simp
  | cons operand rest ih =>
    rw [List.flatMap_cons, List.flatMap_cons, List.flatten_append]
    exact (flatten_splitCombinators_sublist (segments operand)).append ih

theorem mem_walk_of_mem_operands {expr operand part : Expr} (isOperand : operand ∈ operands expr)
    (inside : part ∈ operand.walk) : part ∈ expr.walk := by
  fun_induction operands expr with
  | case1 inner span ih =>
    exact Expr.mem_walk_of_mem_children (by simp [Expr.children]) (ih isOperand)
  | case2 left right span leftIh rightIh | case3 left right span leftIh rightIh =>
    rcases List.mem_append.mp isOperand with isLeft | isRight
    · exact Expr.mem_walk_of_mem_children (by simp [Expr.children]) (leftIh isLeft)
    · exact Expr.mem_walk_of_mem_children (by simp [Expr.children]) (rightIh isRight)
  | case4 => exact List.mem_singleton.mp isOperand ▸ inside

theorem mem_walk_of_mem_segments {expr segment : Expr} (member : segment ∈ segments expr) :
    segment ∈ expr.walk := by
  fun_induction segments expr with
  | case1 expr target found ih =>
    rcases List.mem_append.mp member with inner | outer
    · cases qualifier?_eq_some_iff.mp found with
      | member => exact Expr.mem_walk_of_mem_children (by simp [Expr.children]) (ih inner)
      | call =>
        exact Expr.mem_walk_of_mem_children List.mem_cons_self
          (Expr.mem_walk_of_mem_children (by simp [Expr.children]) (ih inner))
    · exact List.mem_singleton.mp outer ▸ Expr.mem_walk_self expr
  | case2 expr => exact List.mem_singleton.mp member ▸ Expr.mem_walk_self expr

theorem mem_walk_of_mem_allSegments {expr segment : Expr}
    (isSegment : segment ∈ allSegments expr) : segment ∈ expr.walk := by
  rcases List.mem_flatMap.mp isSegment with ⟨operand, isOperand, member⟩
  exact mem_walk_of_mem_operands isOperand (mem_walk_of_mem_segments member)

theorem mem_segments_of_mem_root {part : ConstraintPart} {root : Expr}
    (isRoot : root ∈ part.root) : root ∈ part.segments := by
  simp [ConstraintPart.segments, Option.mem_def.mp isRoot]

/-- The root of a part is a segment of the constraint. -/
theorem mem_allSegments_of_mem_root {expr : Expr} {parts : List ConstraintPart}
    (partsAre : parts.map (·.segments) = chains expr) {part : ConstraintPart}
    (isPart : part ∈ parts) {root : Expr} (isRoot : root ∈ part.root) :
    root ∈ allSegments expr := by
  refine (flatten_chains_sublist expr).subset ?_
  rw [← partsAre]
  exact List.mem_flatten.mpr ⟨_, List.mem_map_of_mem isPart, mem_segments_of_mem_root isRoot⟩

theorem ensures_root_mem_walk {σ : Type} (model : SemanticModel (StateM σ)) (expr : Expr) :
    Ensures (fun _ => True) (fun constraint => ∀ part ∈ constraint.parts, ∀ root ∈ part.root,
      root ∈ expr.walk) (read model expr) := by
  have grouped := @ensures_read σ model (fun _ => True) (fun _ _ => True) (fun _ => .always _)
    (fun _ => .always _) expr
  refine grouped.weaken ?_
  rintro constraint ⟨partsAre, -⟩ part isPart root isRoot
  exact mem_walk_of_mem_allSegments (mem_allSegments_of_mem_root partsAre isPart isRoot)

theorem nodup_allSegments {expr : Expr} (nodup : expr.walk.Nodup) : (allSegments expr).Nodup := by
  unfold allSegments
  fun_induction operands expr with
  | case1 inner span ih =>
    exact ih ((Expr.nodup_walk_children nodup).1 inner (List.mem_singleton_self _))
  | case2 left right span leftIh rightIh | case3 left right span leftIh rightIh =>
    rcases Expr.nodup_walk_children nodup with ⟨childNodup, disjoint⟩
    simp only [Expr.children, List.forall_mem_cons, List.pairwise_cons] at childNodup disjoint
    rw [List.flatMap_append]
    refine List.nodup_append.mpr ⟨leftIh childNodup.1, rightIh childNodup.2.1, ?_⟩
    rintro segment isLeft _ isRight rfl
    exact disjoint.1.1 segment (mem_walk_of_mem_allSegments isLeft)
      (mem_walk_of_mem_allSegments isRight)
  | case4 expr => simpa using (isChain_segments expr).nodup

section

variable {target : Expr} {list : ArgumentList} {span : Option Span} {argument : Argument}
  (isArgument : argument ∈ list.arguments)

include isArgument

theorem sizeOf_argument_lt_of_mem_walk {expr : Expr}
    (isCall : .invocation target list span ∈ expr.walk) :
    sizeOf argument.expression < sizeOf expr := by
  have := Expr.sizeOf_le_of_mem_walk isCall
  have isChild : argument.expression ∈ (Expr.invocation target list span).children :=
    List.mem_cons_of_mem _ (List.mem_map_of_mem isArgument)
  have := Expr.sizeOf_lt_of_mem_children isChild
  omega

theorem notMem_walk_self {expr : Expr} (isCall : .invocation target list span ∈ expr.walk) :
    expr ∉ argument.expression.walk := by
  intro inside
  have := sizeOf_argument_lt_of_mem_walk isArgument isCall
  have := Expr.sizeOf_le_of_mem_walk inside
  omega

/-- A segment of a chain stands in no argument of a call in the chain. -/
theorem notMem_walk_of_mem_segments {expr segment : Expr} (nodup : expr.walk.Nodup)
    (isSegment : segment ∈ segments expr) (isCall : .invocation target list span ∈ expr.walk) :
    segment ∉ argument.expression.walk := by
  intro inside
  have inCall : segment ∈ (Expr.invocation target list span).walk :=
    Expr.mem_walk_of_mem_children (List.mem_cons_of_mem _ (List.mem_map_of_mem isArgument)) inside
  fun_induction segments expr with
  | case1 expr inner found ih =>
    rcases List.mem_append.mp isSegment with isInner | isLast
    · have inInner := mem_walk_of_mem_segments isInner
      have childNodup := (Expr.nodup_walk_children nodup).1
      cases qualifier?_eq_some_iff.mp found with
      | member _ member memberSpan =>
        have isChild := List.mem_singleton_self inner
        exact ih (childNodup inner isChild) isInner
          (Expr.mem_walk_child nodup isChild inInner isCall (by simp) inCall)
      | call _ member memberSpan ownList ownSpan =>
        have inMember : segment ∈ (Expr.memberAccess inner member memberSpan).walk :=
          Expr.mem_walk_of_mem_children (List.mem_singleton_self inner) inInner
        have isChild := List.mem_singleton_self inner
        have memberNodup := childNodup _ List.mem_cons_self
        refine ih ((Expr.nodup_walk_children memberNodup).1 inner isChild) isInner
          (Expr.mem_walk_child memberNodup isChild inInner ?_ (by simp) inCall)
        refine Expr.mem_walk_child nodup List.mem_cons_self inMember isCall ?_ inCall
        -- the call itself is called on its own target, not on one of its arguments
        rintro ⟨⟩
        have apart := (List.pairwise_cons.mp (Expr.nodup_walk_children nodup).2).1
        exact apart _ (List.mem_map_of_mem isArgument) segment inMember inside
    · rw [List.mem_singleton.mp isLast] at inside
      exact notMem_walk_self isArgument isCall inside
  | case2 expr noTarget =>
    rw [List.mem_singleton.mp isSegment] at inside
    exact notMem_walk_self isArgument isCall inside

/-- A segment of a constraint stands in no argument of a call in the constraint. -/
theorem notMem_walk_of_mem_allSegments {expr segment : Expr} (nodup : expr.walk.Nodup)
    (isSegment : segment ∈ allSegments expr) (isCall : .invocation target list span ∈ expr.walk) :
    segment ∉ argument.expression.walk := by
  intro inside
  have inCall : segment ∈ (Expr.invocation target list span).walk :=
    Expr.mem_walk_of_mem_children (List.mem_cons_of_mem _ (List.mem_map_of_mem isArgument)) inside
  unfold allSegments at isSegment
  fun_induction operands expr with
  | case1 inner parenthesesSpan ih =>
    have isChild : inner ∈ (Expr.parenthesized inner parenthesesSpan).children :=
      List.mem_singleton_self inner
    have inInner := mem_walk_of_mem_allSegments isSegment
    exact ih ((Expr.nodup_walk_children nodup).1 inner isChild) isSegment
      (Expr.mem_walk_child nodup isChild inInner isCall (by simp) inCall)
  | case2 left right operatorSpan leftIh rightIh | case3 left right operatorSpan leftIh rightIh =>
    have childNodup := (Expr.nodup_walk_children nodup).1
    have isLeft {operator : BinaryOperator} :
        left ∈ (Expr.binary operator left right operatorSpan).children := List.mem_cons_self
    have isRight {operator : BinaryOperator} :
        right ∈ (Expr.binary operator left right operatorSpan).children :=
      List.mem_cons_of_mem _ (List.mem_singleton_self right)
    rw [List.flatMap_append, List.mem_append] at isSegment
    rcases isSegment with inLeft | inRight
    · have inWalk := mem_walk_of_mem_allSegments inLeft
      exact leftIh (childNodup left isLeft) inLeft
        (Expr.mem_walk_child nodup isLeft inWalk isCall (by simp) inCall)
    · have inWalk := mem_walk_of_mem_allSegments inRight
      exact rightIh (childNodup right isRight) inRight
        (Expr.mem_walk_child nodup isRight inWalk isCall (by simp) inCall)
  | case4 expr =>
    exact notMem_walk_of_mem_segments isArgument nodup (by simpa using isSegment) isCall inside

/-- A segment of the constraint in a call stands in no argument of another call inside it. -/
theorem notMem_walk_of_inner_call {outer constraint segment : Expr} (nodup : outer.walk.Nodup)
    (isChild : constraint ∈ outer.children) (isSegment : segment ∈ allSegments constraint)
    (isInner : .invocation target list span ∈ outer.walk)
    (notOuter : .invocation target list span ≠ outer) :
    segment ∉ argument.expression.walk := by
  intro inside
  have inCall : segment ∈ (Expr.invocation target list span).walk :=
    Expr.mem_walk_of_mem_children (List.mem_cons_of_mem _ (List.mem_map_of_mem isArgument)) inside
  have inWalk := mem_walk_of_mem_allSegments isSegment
  exact notMem_walk_of_mem_allSegments isArgument ((Expr.nodup_walk_children nodup).1 _ isChild)
    isSegment (Expr.mem_walk_child nodup isChild inWalk isInner notOuter inCall) inside

end

end ConstraintExpr

end AssertionLint
