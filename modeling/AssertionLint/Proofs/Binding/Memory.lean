import AssertionLint.Binding.Document
import AssertionLint.Proofs.Binding.Relation
import AssertionLint.Proofs.Model.Outcome
import Mathlib.Data.List.Nodup

/-!
# Remembered bindings

Binding without memory and without a limit is the limit of `TypeTable.bindPlain`, which answers
nothing if bindings nest deeper than a given number: once it answers, it answers the same at every
greater depth. Every binding that is remembered is the one that this gives, as long as no two
expressions have the same span (`Bindings.Agree`), and a binder that remembers answers like one that
does not (`TypeTable.ensures_bindWithin`).
-/

namespace AssertionLint

namespace TypeTable

/-- Binds an expression without remembering anything; nothing is answered if bindings nest deeper
than `depth`. -/
def bindPlain (table : TypeTable) (depth : Nat) (expr : Expr) : Option Bound :=
  match expr.span with
  | none => some .unknown
  | some span =>
    match depth with
    | 0 => none
    | depth + 1 => (⟨table, table.bindPlain depth⟩ : Binder Option).bindStep span.start expr

/-- A binder that remembers nothing. -/
def plainBinder (table : TypeTable) (depth : Nat) : Binder Option := ⟨table, table.bindPlain depth⟩

/-- A binder that remembers what it has bound. -/
def rememberingBinder (table : TypeTable) (depth : Nat) : Binder (StateM Bindings) :=
  ⟨table, table.bindWithin depth⟩

section

variable {table : TypeTable} {depth : Nat} {expr : Expr} {span : Span}

theorem bindPlain_of_span_eq_none (spanIs : expr.span = none) :
    table.bindPlain depth expr = some .unknown := by
  cases depth <;> simp only [bindPlain, spanIs]

theorem bindPlain_zero (spanIs : expr.span = some span) : table.bindPlain 0 expr = none := by
  simp only [bindPlain, spanIs]

theorem bindPlain_succ (spanIs : expr.span = some span) :
    table.bindPlain (depth + 1) expr = (table.plainBinder depth).bindStep span.start expr := by
  simp only [bindPlain, spanIs, plainBinder]

end

theorem isClosed_univ (table : TypeTable) : table.IsClosed fun _ => True :=
  ⟨fun _ _ => trivial, fun _ _ => trivial⟩

end TypeTable

/-- What the first computation answers the second one answers too. -/
def StepRelation.lessDefined : StepRelation Option Option where
  Rel less more := ∀ result, less = some result → more = some result
  pure _ _ same := same
  bind := by
    intro α β less more next rest first then_ result answered
    rcases Option.bind_eq_some_iff.mp answered with ⟨middle, lessIs, nextIs⟩
    exact Option.bind_eq_some_iff.mpr ⟨middle, first middle lessIs, then_ middle result nextIs⟩

namespace TypeTable

variable {table : TypeTable}

theorem related_plainBinder {depth deeper : Nat} (le : depth ≤ deeper) :
    Binder.Related .lessDefined (fun _ => True) (table.plainBinder depth)
      (table.plainBinder deeper) := by
  refine ⟨rfl, table.isClosed_univ, ?_⟩
  intro expr _ bound bindsTo
  change table.bindPlain depth expr = some bound at bindsTo
  change table.bindPlain deeper expr = some bound
  cases spanIs : expr.span with
  | none => rwa [bindPlain_of_span_eq_none spanIs] at bindsTo ⊢
  | some span =>
    cases depth with
    | zero => simp [bindPlain_zero spanIs] at bindsTo
    | succ depth =>
      obtain ⟨deeper, rfl⟩ := Nat.exists_eq_add_of_le' (Nat.le_trans (Nat.succ_pos depth) le)
      rw [bindPlain_succ spanIs] at bindsTo ⊢
      exact (related_plainBinder (Nat.le_of_succ_le_succ le)).bindStep _ trivial bound bindsTo

/-- A binding that is found within one depth is found within every greater depth. -/
theorem bindPlain_of_le {depth deeper : Nat} {expr : Expr} {bound : Bound} (le : depth ≤ deeper)
    (bindsTo : table.bindPlain depth expr = some bound) :
    table.bindPlain deeper expr = some bound :=
  (related_plainBinder le).bind trivial bound bindsTo

/-- An expression has at most one binding, however deep bindings may nest. -/
theorem bindPlain_inj {depth other : Nat} {expr : Expr} {first second : Bound}
    (one : table.bindPlain depth expr = some first)
    (another : table.bindPlain other expr = some second) : first = second := by
  have deep := bindPlain_of_le (Nat.le_max_left depth other) one
  rw [bindPlain_of_le (Nat.le_max_right depth other) another] at deep
  exact (Option.some.inj deep).symm

end TypeTable

/-- No two different expressions of a set have the same span. -/
def SpansAreDistinct (inside : Expr → Prop) : Prop :=
  ∀ ⦃first second : Expr⦄ ⦃span : Span⦄, inside first → inside second → first.span = some span →
    second.span = some span → first = second

theorem spansAreDistinct_of_nodup {exprs : List Expr} (distinct : (exprs.map Expr.span).Nodup) :
    SpansAreDistinct (· ∈ exprs) := by
  intro first second span isFirst isSecond firstSpan secondSpan
  exact List.inj_on_of_nodup_map distinct isFirst isSecond (firstSpan.trans secondSpan.symm)

/-- What is remembered for the span of an expression of the set is what the expression is bound to
without memory. -/
def Bindings.Agree (table : TypeTable) (inside : Expr → Prop) (bindings : Bindings) : Prop :=
  ∀ ⦃expr : Expr⦄ ⦃span : Span⦄ ⦃bound : Bound⦄, inside expr → expr.span = some span →
    bindings.find? span = some bound → ∃ depth, table.bindPlain depth expr = some bound

namespace Bindings

theorem find?_insert (bindings : Bindings) (span wanted : Span) (bound : Bound) :
    (bindings.insert span bound).find? wanted =
      if span = wanted then some bound else bindings.find? wanted := by
  simp only [insert, find?, List.find?_cons]
  by_cases same : span = wanted
  · simp only [same, beq_self_eq_true, if_true, Option.map_some]
  · simp only [beq_eq_false_iff_ne.mpr same, same, if_false]

theorem agree_empty (table : TypeTable) (inside : Expr → Prop) :
    ({} : Bindings).Agree table inside := by
  intro expr span bound member spanIs found
  simp [find?] at found

theorem Agree.insert {table : TypeTable} {inside : Expr → Prop} {bindings : Bindings}
    (agree : bindings.Agree table inside) (distinct : SpansAreDistinct inside) {expr : Expr}
    (member : inside expr) {span : Span} (spanIs : expr.span = some span) {depth : Nat}
    {bound : Bound} (bindsTo : table.bindPlain depth expr = some bound) :
    (bindings.insert span bound).Agree table inside := by
  intro other place remembered otherMember placeIs found
  rw [find?_insert] at found
  split at found
  · rename_i samePlace
    cases found
    cases distinct member otherMember spanIs (samePlace ▸ placeIs)
    exact ⟨depth, bindsTo⟩
  · exact agree otherMember placeIs found

end Bindings

namespace TypeTable

variable {table : TypeTable} {depth : Nat} {expr : Expr} {span : Span} {bindings : Bindings}

theorem bindWithin_of_span_eq_none (spanIs : expr.span = none) :
    table.bindWithin depth expr = pure .unknown := by
  cases depth <;> simp only [bindWithin, spanIs]

theorem run_bindWithin_of_find? (spanIs : expr.span = some span) {bound : Bound}
    (remembered : bindings.find? span = some bound) :
    (table.bindWithin depth expr).run bindings = (bound, bindings) := by
  cases depth <;>
    simp only [bindWithin, spanIs, StateT.run_bind, StateT.run_get, pure_bind, remembered] <;> rfl

theorem run_bindWithin_zero (spanIs : expr.span = some span)
    (isNew : bindings.find? span = none) :
    (table.bindWithin 0 expr).run bindings = (.unknown, bindings) := by
  simp only [bindWithin, spanIs, StateT.run_bind, StateT.run_get, pure_bind, isNew]
  rfl

theorem run_bindWithin_succ (spanIs : expr.span = some span)
    (isNew : bindings.find? span = none) {bound : Bound} {after : Bindings}
    (step : ((table.rememberingBinder depth).bindStep span.start expr).run bindings =
      (bound, after)) :
    (table.bindWithin (depth + 1) expr).run bindings = (bound, after.insert span bound) := by
  unfold rememberingBinder at step
  simp only [bindWithin, spanIs, StateT.run_bind, StateT.run_get, pure_bind, isNew, step]
  rfl

end TypeTable

/-- If the second computation answers, the first one gives the same answer from every state with the
invariant, and keeps the invariant. -/
def StepRelation.answersAs {σ : Type} (invariant : σ → Prop) : StepRelation (StateM σ) Option where
  Rel computation answer :=
    ∀ result, answer = some result → Ensures invariant (· = result) computation
  pure _ _ same := .pure (Option.some.inj same)
  bind := by
    intro α β computation answer next rest first then_ result answered
    rcases Option.bind_eq_some_iff.mp answered with ⟨middle, answerIs, restIs⟩
    refine .bind (first middle answerIs) ?_
    rintro _ rfl
    exact then_ _ result restIs

namespace TypeTable

variable {table : TypeTable} {inside : Expr → Prop}

/-- Remembering changes no binding, and only true bindings are remembered. -/
theorem ensures_bindWithin (closed : table.IsClosed inside) (distinct : SpansAreDistinct inside)
    {depth : Nat} {expr : Expr} (member : inside expr) {bound : Bound}
    (bindsTo : table.bindPlain depth expr = some bound) :
    Ensures (Bindings.Agree table inside) (· = bound) (table.bindWithin depth expr) := by
  cases spanIs : expr.span with
  | none =>
    rw [bindWithin_of_span_eq_none spanIs]
    rw [bindPlain_of_span_eq_none spanIs] at bindsTo
    exact .pure (Option.some.inj bindsTo)
  | some span =>
    intro bindings agree
    cases remembered : bindings.find? span with
    | some earlier =>
      rcases agree member spanIs remembered with ⟨other, earlierIs⟩
      rw [run_bindWithin_of_find? spanIs remembered]
      exact ⟨bindPlain_inj earlierIs bindsTo, agree⟩
    | none =>
      cases depth with
      | zero =>
        rw [bindPlain_zero spanIs] at bindsTo
        cases bindsTo
      | succ depth =>
        have related : Binder.Related (.answersAs (Bindings.Agree table inside)) inside
            (table.rememberingBinder depth) (table.plainBinder depth) :=
          ⟨rfl, closed, fun partInside _ partBinds =>
            ensures_bindWithin closed distinct partInside partBinds⟩
        have stepBinds := bindsTo
        rw [bindPlain_succ spanIs] at stepBinds
        have step := related.bindStep span.start member bound stepBinds bindings agree
        rcases stepIs : StateT.run ((table.rememberingBinder depth).bindStep span.start expr)
          bindings with ⟨result, after⟩
        rw [stepIs] at step
        rcases step with ⟨rfl, kept⟩
        rw [run_bindWithin_succ spanIs remembered stepIs]
        exact ⟨rfl, kept.insert distinct member spanIs bindsTo⟩

end TypeTable

end AssertionLint
