import AssertionLint.Proofs.Binding.Memory

/-!
# Counting how deep bindings nest

The limit on the depth of bindings, kept as a counter beside what is remembered: it is raised for
the time in which an expression is bound, and at the limit nothing new is bound. Counting gives
the same bindings as handing the remaining depth on to the parts of an expression, and leaves the
counter where it was (`TypeTable.related_countingBinder`).
-/

namespace AssertionLint

/-- What has been bound so far, and how many bindings are being worked out. -/
structure CountedBindings where
  bindings : Bindings := {}
  depth : Nat := 0
  deriving Inhabited

namespace CountedBindings

/-- Remembers what an expression is bound to. -/
def insert (counted : CountedBindings) (span : Span) (bound : Bound) : CountedBindings :=
  { counted with bindings := counted.bindings.insert span bound }

/-- Moves the counter. -/
def withDepth (depth : Nat) (counted : CountedBindings) : CountedBindings :=
  { counted with depth }

end CountedBindings

namespace TypeTable

/-- Binds an expression unless the counter is at the limit. The number of rounds bounds the
recursion; it does not run out before the counter is at the limit. -/
def bindCounting (table : TypeTable) (rounds : Nat) (expr : Expr) :
    StateM CountedBindings Bound :=
  match expr.span with
  | none => pure .unknown
  | some span => do
    match (← get).bindings.find? span with
    | some bound => pure bound
    | none =>
      let depth := (← get).depth
      if maxBindDepth ≤ depth then pure .unknown
      else
        match rounds with
        | 0 => pure .unknown
        | rounds + 1 =>
          modify (·.withDepth (depth + 1))
          let bound ← (⟨table, table.bindCounting rounds⟩ : Binder _).bindStep span.start expr
          modify (·.withDepth depth)
          modify (·.insert span bound)
          pure bound

/-- A binder that counts how deep bindings nest. -/
def countingBinder (table : TypeTable) (rounds : Nat) : Binder (StateM CountedBindings) :=
  ⟨table, table.bindCounting rounds⟩

end TypeTable

/-- With the counter at a depth, the first computation does what the second one does and leaves the
counter there. -/
def StepRelation.countingFrom (depth : Nat) :
    StepRelation (StateM CountedBindings) (StateM Bindings) where
  Rel counting computation := ∀ bindings result after,
    computation.run bindings = (result, after) →
      counting.run ⟨bindings, depth⟩ = (result, ⟨after, depth⟩)
  pure _ _ _ _ same := by
    cases same
    rfl
  bind := by
    intro α β counting computation next rest first then_ bindings result after runs
    rcases start : computation.run bindings with ⟨middle, between⟩
    have rests : (rest middle).run between = (result, after) := by
      rw [StateT.run_bind, start] at runs
      exact runs
    rw [StateT.run_bind, first bindings middle between start]
    exact then_ middle between result after rests

namespace TypeTable

variable {table : TypeTable}

section

variable {rounds depth : Nat} {expr : Expr} {span : Span} {bindings : Bindings}

theorem bindCounting_of_span_eq_none (spanIs : expr.span = none) :
    table.bindCounting rounds expr = pure .unknown := by
  cases rounds <;> simp only [bindCounting, spanIs]

theorem run_bindCounting_of_find? (spanIs : expr.span = some span) {bound : Bound}
    (remembered : bindings.find? span = some bound) :
    (table.bindCounting rounds expr).run ⟨bindings, depth⟩ = (bound, ⟨bindings, depth⟩) := by
  cases rounds <;>
    simp only [bindCounting, spanIs, StateT.run_bind, StateT.run_get, pure_bind, remembered] <;> rfl

theorem run_bindCounting_of_limit (spanIs : expr.span = some span)
    (isNew : bindings.find? span = none) (atLimit : maxBindDepth ≤ depth) :
    (table.bindCounting rounds expr).run ⟨bindings, depth⟩ = (.unknown, ⟨bindings, depth⟩) := by
  cases rounds <;>
    simp only [bindCounting, spanIs, StateT.run_bind, StateT.run_get, pure_bind, isNew, atLimit,
      if_true] <;> rfl

theorem run_bindCounting_succ (spanIs : expr.span = some span)
    (isNew : bindings.find? span = none) (below : ¬maxBindDepth ≤ depth) {bound : Bound}
    {counted : CountedBindings}
    (step : ((table.countingBinder rounds).bindStep span.start expr).run ⟨bindings, depth + 1⟩ =
      (bound, counted)) :
    (table.bindCounting (rounds + 1) expr).run ⟨bindings, depth⟩ =
      (bound, (counted.withDepth depth).insert span bound) := by
  unfold countingBinder at step
  simp only [bindCounting, spanIs, StateT.run_bind, StateT.run_get, pure_bind, isNew, below,
    if_false, StateT.run_modify, CountedBindings.withDepth, step]
  rfl

end

/-- Counting gives the bindings that the remaining depth gives. -/
theorem rel_bindCounting {rounds depth : Nat} (enough : maxBindDepth ≤ rounds + depth)
    (expr : Expr) :
    (StepRelation.countingFrom depth).Rel (table.bindCounting rounds expr)
      (table.bindWithin (maxBindDepth - depth) expr) := by
  intro bindings result after runs
  cases spanIs : expr.span with
  | none =>
    rw [bindWithin_of_span_eq_none spanIs] at runs
    rw [bindCounting_of_span_eq_none spanIs]
    cases runs
    rfl
  | some span =>
    cases remembered : bindings.find? span with
    | some bound =>
      rw [run_bindWithin_of_find? spanIs remembered] at runs
      cases runs
      exact run_bindCounting_of_find? spanIs remembered
    | none =>
      by_cases atLimit : maxBindDepth ≤ depth
      · rw [Nat.sub_eq_zero_of_le atLimit, run_bindWithin_zero spanIs remembered] at runs
        cases runs
        exact run_bindCounting_of_limit spanIs remembered atLimit
      · obtain ⟨fewer, rfl⟩ : ∃ fewer, rounds = fewer + 1 := ⟨rounds - 1, by omega⟩
        have remaining : maxBindDepth - depth = maxBindDepth - (depth + 1) + 1 := by omega
        rcases step : ((table.rememberingBinder (maxBindDepth - (depth + 1))).bindStep span.start
          expr).run bindings with ⟨bound, between⟩
        rw [remaining, run_bindWithin_succ spanIs remembered step] at runs
        cases runs
        have related : Binder.Related (.countingFrom (depth + 1)) (fun _ => True)
            (table.countingBinder fewer)
            (table.rememberingBinder (maxBindDepth - (depth + 1))) :=
          ⟨rfl, table.isClosed_univ, fun {part} _ => rel_bindCounting (by omega) part⟩
        exact run_bindCounting_succ spanIs remembered atLimit
          (related.bindStep span.start trivial bindings _ between step)

/-- The binder that counts does what the one that hands the remaining depth on does. -/
theorem related_countingBinder (table : TypeTable) {rounds : Nat} (depth : Nat)
    (enough : maxBindDepth ≤ rounds + depth) :
    Binder.Related (.countingFrom depth) (fun _ => True) (table.countingBinder rounds)
      (table.rememberingBinder (maxBindDepth - depth)) :=
  ⟨rfl, table.isClosed_univ, fun {expr} _ => rel_bindCounting enough expr⟩

end TypeTable

end AssertionLint
