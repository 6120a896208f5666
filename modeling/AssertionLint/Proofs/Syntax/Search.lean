import AssertionLint.CSharp.SyntaxTree
import AssertionLint.Proofs.Text.Boundary
import Mathlib.Data.List.Nodup

/-!
# Searching by span

What the search for a span finds is an expression of the tree with this span. If the parts of an
expression lie within it and no two expressions have the same span, the search finds every
expression of the tree (`SyntaxTree.IsWellSpanned.findInvocation?_eq`): the sub-trees that it does
not enter cannot hold what is looked for.
-/

namespace AssertionLint

namespace Expr

/-- What holds of an expression once it holds of its parts holds of every expression. -/
theorem inductionOnChildren {motive : Expr → Prop}
    (step : ∀ expr : Expr, (∀ child ∈ expr.children, motive child) → motive expr) (expr : Expr) :
    motive expr :=
  step expr fun child _ => inductionOnChildren step child
termination_by sizeOf expr
decreasing_by exact sizeOf_lt_of_mem_children ‹_›

theorem mem_walk_iff {expr part : Expr} :
    part ∈ expr.walk ↔ part = expr ∨ ∃ child ∈ expr.children, part ∈ child.walk := by
  rw [walk_eq, List.mem_cons, List.mem_flatMap]

theorem mem_walk_self (expr : Expr) : expr ∈ expr.walk :=
  mem_walk_iff.mpr (.inl rfl)

theorem mem_walk_of_mem_children {expr child part : Expr} (isChild : child ∈ expr.children)
    (inside : part ∈ child.walk) : part ∈ expr.walk :=
  mem_walk_iff.mpr (.inr ⟨child, isChild, inside⟩)

/-- The parts of a descendant are descendants. -/
theorem mem_walk_trans {expr between part : Expr} (outer : between ∈ expr.walk)
    (inner : part ∈ between.walk) : part ∈ expr.walk := by
  induction expr using inductionOnChildren with
  | step expr ih =>
    rcases mem_walk_iff.mp outer with rfl | ⟨child, isChild, below⟩
    · exact inner
    · exact mem_walk_of_mem_children isChild (ih child isChild below)

theorem child_mem_walk {expr part child : Expr} (inside : part ∈ expr.walk)
    (isChild : child ∈ part.children) : child ∈ expr.walk :=
  mem_walk_trans inside (mem_walk_of_mem_children isChild (mem_walk_self child))

theorem findBySpan?_eq (expr : Expr) (wanted : Span) :
    expr.findBySpan? wanted =
      if expr.span = some wanted then some expr
      else if expr.span.all (·.contains wanted) then
        expr.children.findSome? fun child => child.findBySpan? wanted
      else none := by
  rw [findBySpan?]
  congr 2
  conv_rhs => rw [← List.attach_map_subtype_val expr.children, List.findSome?_map]
  rfl

theorem mem_walk_of_findBySpan? {expr found : Expr} {wanted : Span}
    (search : expr.findBySpan? wanted = some found) :
    found ∈ expr.walk ∧ found.span = some wanted := by
  induction expr using inductionOnChildren with
  | step expr ih =>
    rw [findBySpan?_eq] at search
    split at search
    · rename_i here
      cases search
      exact ⟨mem_walk_self _, here⟩
    · split at search
      · rcases List.exists_of_findSome?_eq_some search with ⟨child, isChild, below⟩
        rcases ih child isChild below with ⟨inside, spanIs⟩
        exact ⟨mem_walk_of_mem_children isChild inside, spanIs⟩
      · cases search

/-- The expression has a span in which the spans of its parts lie. -/
def Encloses (expr : Expr) : Prop :=
  ∃ outer, expr.span = some outer ∧
    ∀ child ∈ expr.children, ∀ inner, child.span = some inner → outer.contains inner = true

end Expr

namespace Span

theorem contains_iff {outer inner : Span} :
    outer.contains inner = true ↔ outer.start ≤ inner.start ∧ inner.stop ≤ outer.stop := by
  simp [contains]

@[simp]
theorem contains_self (span : Span) : span.contains span = true :=
  contains_iff.mpr ⟨Nat.le_refl _, Nat.le_refl _⟩

theorem contains_trans {outer middle inner : Span} (one : outer.contains middle = true)
    (other : middle.contains inner = true) : outer.contains inner = true := by
  rw [contains_iff] at one other ⊢
  omega

end Span

namespace Expr

/-- The span of an expression contains the spans of all its descendants. -/
theorem contains_of_mem_walk {expr part : Expr} {outer inner : Span}
    (encloses : ∀ sub ∈ expr.walk, sub.Encloses) (inside : part ∈ expr.walk)
    (outerSpan : expr.span = some outer) (innerSpan : part.span = some inner) :
    outer.contains inner = true := by
  induction expr using inductionOnChildren generalizing outer with
  | step expr ih =>
    rcases mem_walk_iff.mp inside with rfl | ⟨child, isChild, below⟩
    · rw [outerSpan] at innerSpan
      cases innerSpan
      exact Span.contains_self _
    · have childEncloses : ∀ sub ∈ child.walk, sub.Encloses :=
        fun sub member => encloses sub (mem_walk_of_mem_children isChild member)
      rcases childEncloses child (mem_walk_self child) with ⟨middle, middleSpan, -⟩
      rcases encloses expr (mem_walk_self expr) with ⟨own, ownSpan, within⟩
      rw [outerSpan] at ownSpan
      cases ownSpan
      exact Span.contains_trans (within child isChild middle middleSpan)
        (ih child isChild childEncloses below middleSpan)

/-- The search finds something for the span of each descendant. -/
theorem isSome_findBySpan? {expr part : Expr} {wanted : Span}
    (encloses : ∀ sub ∈ expr.walk, sub.Encloses) (inside : part ∈ expr.walk)
    (spanIs : part.span = some wanted) : (expr.findBySpan? wanted).isSome = true := by
  induction expr using inductionOnChildren with
  | step expr ih =>
    rcases encloses expr (mem_walk_self expr) with ⟨outer, outerSpan, -⟩
    have entered : outer.contains wanted = true :=
      contains_of_mem_walk encloses inside outerSpan spanIs
    rw [findBySpan?_eq]
    split
    · rfl
    · rename_i elsewhere
      rcases mem_walk_iff.mp inside with rfl | ⟨child, isChild, below⟩
      · exact absurd spanIs elsewhere
      · have found := ih child isChild
          (fun sub member => encloses sub (mem_walk_of_mem_children isChild member)) below
        rw [if_pos (by simp [outerSpan, entered]), List.findSome?_isSome_iff]
        exact ⟨child, isChild, found⟩

end Expr

namespace SyntaxTree

/-- Every expression of the document, root by root and in pre-order. -/
def expressions (tree : SyntaxTree) : List Expr :=
  tree.roots.flatMap fun root => root.expression.walk

/-- The spans that expressions carry are parts of the source. -/
def HasValidSpans (tree : SyntaxTree) : Prop :=
  ∀ expr ∈ tree.expressions, ∀ span, expr.span = some span → span.FitsIn tree.source

theorem mem_expressions {tree : SyntaxTree} {expr : Expr} :
    expr ∈ tree.expressions ↔ ∃ root ∈ tree.roots, expr ∈ root.expression.walk :=
  List.mem_flatMap

theorem mem_invocations {tree : SyntaxTree} {call : Expr} {root : RootExpression} :
    (call, root) ∈ tree.invocations ↔
      root ∈ tree.roots ∧ call ∈ root.expression.walk ∧ call.isInvocation = true := by
  simp only [invocations, List.mem_flatMap, List.mem_map, List.mem_filter, Prod.mk.injEq]
  constructor
  · rintro ⟨root, rootMem, call, ⟨callMem, isCall⟩, rfl, rfl⟩
    exact ⟨rootMem, callMem, isCall⟩
  · rintro ⟨rootMem, callMem, isCall⟩
    exact ⟨root, rootMem, call, ⟨callMem, isCall⟩, rfl, rfl⟩

/-- A call that is found is a call of the document with the span looked for. -/
theorem mem_invocations_of_findInvocation? {tree : SyntaxTree} {wanted : Span} {call : Expr}
    {root : RootExpression} (found : tree.findInvocation? wanted = some (call, root)) :
    (call, root) ∈ tree.invocations ∧ call.span = some wanted := by
  rcases List.exists_of_findSome?_eq_some found with ⟨candidate, rootMem, here⟩
  split at here
  · rename_i expr search
    rcases Expr.mem_walk_of_findBySpan? search with ⟨inside, spanIs⟩
    split at here
    · rename_i isCall
      cases here
      exact ⟨mem_invocations.mpr ⟨rootMem, inside, isCall⟩, spanIs⟩
    · cases here
  · cases here

/-- A tree as it is read from a document: every expression has a span of the source, the parts of
an expression lie within it, and each span belongs to one expression of one root. -/
structure IsWellSpanned (tree : SyntaxTree) : Prop where
  valid : tree.HasValidSpans
  encloses : ∀ expr ∈ tree.expressions, expr.Encloses
  distinct : (tree.expressions.map Expr.span).Nodup

theorem IsWellSpanned.eq_of_span_eq {tree : SyntaxTree} (wellSpanned : tree.IsWellSpanned)
    {left right : Expr} (leftMem : left ∈ tree.expressions) (rightMem : right ∈ tree.expressions)
    (sameSpan : left.span = right.span) : left = right :=
  List.inj_on_of_nodup_map wellSpanned.distinct leftMem rightMem sameSpan

/-- The search finds every call of the document again, with its root. -/
theorem IsWellSpanned.findInvocation?_eq {tree : SyntaxTree} (wellSpanned : tree.IsWellSpanned)
    {call : Expr} {root : RootExpression} {span : Span} (isCall : (call, root) ∈ tree.invocations)
    (spanIs : call.span = some span) : tree.findInvocation? span = some (call, root) := by
  rcases mem_invocations.mp isCall with ⟨rootMem, inside, isInvocation⟩
  have found : root.expression.findBySpan? span = some call := by
    have foundSome := Expr.isSome_findBySpan?
      (fun sub member => wellSpanned.encloses sub (mem_expressions.mpr ⟨root, rootMem, member⟩))
      inside spanIs
    rcases Option.isSome_iff_exists.mp foundSome with ⟨other, search⟩
    rcases Expr.mem_walk_of_findBySpan? search with ⟨otherInside, otherSpan⟩
    rw [search, wellSpanned.eq_of_span_eq (mem_expressions.mpr ⟨root, rootMem, otherInside⟩)
      (mem_expressions.mpr ⟨root, rootMem, inside⟩) (otherSpan.trans spanIs.symm)]
  -- an earlier root with an expression of the same span would make the span occur twice
  rcases List.append_of_mem rootMem with ⟨before, after, rootsAre⟩
  have earlier : ∀ other ∈ before, other.expression.findBySpan? span = none := by
    intro other otherMem
    rw [Option.eq_none_iff_forall_ne_some]
    intro expr search
    rcases Expr.mem_walk_of_findBySpan? search with ⟨exprInside, exprSpan⟩
    have distinct := wellSpanned.distinct
    simp only [expressions, rootsAre, List.flatMap_append, List.map_append] at distinct
    refine (List.nodup_append.mp distinct).2.2 (some span) ?_ (some span) ?_ rfl
    · exact List.mem_map.mpr ⟨expr, List.mem_flatMap.mpr ⟨other, otherMem, exprInside⟩, exprSpan⟩
    · exact List.mem_map.mpr ⟨call, List.mem_flatMap.mpr ⟨root, by simp, inside⟩, spanIs⟩
  unfold findInvocation?
  rw [rootsAre, List.findSome?_append, List.findSome?_eq_none_iff.mpr]
  · simp [found, isInvocation]
  · intro other otherMem
    rw [earlier other otherMem]

/-- The call `Assert.IsFalse(fällig)` in `nestedCalls`; one of its characters takes two bytes. -/
def innerCall : Expr :=
  .invocation
    (.memberAccess (.name (.ofIdentifier "Assert") (some ⟨20, 26⟩))
      ⟨"IsFalse", none, some ⟨27, 34⟩⟩ (some ⟨20, 34⟩))
    ⟨[.ofExpr (.name (.ofIdentifier "fällig") (some ⟨35, 42⟩))], some ⟨34, 43⟩⟩
    (some ⟨20, 43⟩)

/-- A document in which an assertion call stands inside the argument of another. -/
def nestedCalls : SyntaxTree where
  source := "Assert.IsTrue(Check(Assert.IsFalse(fällig)))"
  roots :=
    [⟨.invocation
        (.memberAccess (.name (.ofIdentifier "Assert") (some ⟨0, 6⟩))
          ⟨"IsTrue", none, some ⟨7, 13⟩⟩ (some ⟨0, 13⟩))
        ⟨[.ofExpr (.invocation (.name (.ofIdentifier "Check") (some ⟨14, 19⟩))
            ⟨[.ofExpr innerCall], some ⟨19, 44⟩⟩ (some ⟨14, 44⟩))], some ⟨13, 45⟩⟩
        (some ⟨0, 45⟩), true, false⟩]

theorem isWellSpanned_nestedCalls : nestedCalls.IsWellSpanned := by
  have spans : nestedCalls.expressions.map Expr.span =
      [some ⟨0, 45⟩, some ⟨0, 13⟩, some ⟨0, 6⟩, some ⟨14, 44⟩, some ⟨14, 19⟩, some ⟨20, 43⟩,
        some ⟨20, 34⟩, some ⟨20, 26⟩, some ⟨35, 42⟩] := by
    simp [expressions, nestedCalls, innerCall, Expr.walk_eq, Expr.children, Argument.ofExpr,
      Expr.span]
  constructor
  · intro expr member span spanIs
    have listed : some span ∈ nestedCalls.expressions.map Expr.span :=
      spanIs ▸ List.mem_map_of_mem member
    rw [spans] at listed
    simp only [List.mem_cons, Option.some.injEq, List.not_mem_nil, or_false] at listed
    rcases listed with rfl | rfl | rfl | rfl | rfl | rfl | rfl | rfl | rfl <;> decide
  · intro expr member
    simp only [expressions, nestedCalls, innerCall, Expr.walk_eq, Expr.children, Argument.ofExpr,
      List.flatMap_cons, List.flatMap_nil, List.map_cons, List.map_nil, List.append_nil,
      List.cons_append, List.nil_append, List.mem_cons, List.not_mem_nil, or_false] at member
    rcases member with rfl | rfl | rfl | rfl | rfl | rfl | rfl | rfl | rfl <;>
      exact ⟨_, rfl, by simp [Expr.children, Expr.span, Span.contains]⟩
  · rw [spans]
    decide

theorem mem_invocations_innerCall :
    ∃ root ∈ nestedCalls.roots, (innerCall, root) ∈ nestedCalls.invocations ∧
      root.inMethodBody = true ∧ root.hasErrors = false := by
  refine ⟨_, List.mem_singleton_self _, mem_invocations.mpr ⟨List.mem_singleton_self _, ?_, rfl⟩,
    rfl, rfl⟩
  simp [innerCall, Expr.walk_eq, Expr.children, Argument.ofExpr]

end SyntaxTree

end AssertionLint
