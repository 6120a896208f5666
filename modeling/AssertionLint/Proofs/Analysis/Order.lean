import AssertionLint.Assertions.Analysis
import AssertionLint.Proofs.Model.Outcome
import AssertionLint.Proofs.Syntax.Search
import AssertionLint.Proofs.Text.Splice

/-!
# The order of diagnostics

Diagnostics are sorted by their spans and then by their ids. Sorting is stable, so a change to the
diagnostics that keeps their spans and ids can be made before sorting or after it
(`Diagnostic.filterMap_mergeSort`).
-/

namespace AssertionLint

namespace Diagnostic

theorem notAfter_iff {left right : Diagnostic} : left.notAfter right = true ↔
    left.span.start < right.span.start ∨ left.span.start = right.span.start ∧
      (left.span.stop < right.span.stop ∨ left.span.stop = right.span.stop ∧
        ¬ right.id < left.id) := by
  rcases left with ⟨⟨start, stop⟩, observation, message, severity⟩
  rcases right with ⟨⟨start', stop'⟩, observation', message', severity'⟩
  simp only [notAfter, Span.precedes, Bool.or_eq_true, Bool.and_eq_true, decide_eq_true_eq,
    beq_iff_eq, Span.mk.injEq, Bool.not_eq_true', decide_eq_false_iff_not]
  grind

theorem notAfter_trans (first second third : Diagnostic) (one : first.notAfter second = true)
    (other : second.notAfter third = true) : first.notAfter third = true := by
  rw [notAfter_iff] at one other ⊢
  have ids : ¬ second.id < first.id → ¬ third.id < second.id → ¬ third.id < first.id := by
    simp only [String.not_lt]
    exact String.le_trans
  grind

theorem notAfter_total (left right : Diagnostic) :
    (left.notAfter right || right.notAfter left) = true := by
  rw [Bool.or_eq_true, notAfter_iff, notAfter_iff]
  have ids : ¬ right.id < left.id ∨ ¬ left.id < right.id := by
    simp only [String.not_lt]
    exact String.le_total _ _
  grind

theorem pairwise_mergeSort_notAfter (diagnostics : List Diagnostic) :
    (diagnostics.mergeSort notAfter).Pairwise fun left right => left.notAfter right = true :=
  List.pairwise_mergeSort notAfter_trans notAfter_total diagnostics

/-- One more diagnostic is put between those in front of it and the others. -/
theorem exists_mergeSort_cons (diagnostic : Diagnostic) (rest : List Diagnostic) :
    ∃ before behind, (diagnostic :: rest).mergeSort notAfter = before ++ diagnostic :: behind ∧
      rest.mergeSort notAfter = before ++ behind ∧
      (∀ other ∈ before, diagnostic.notAfter other = false) ∧
      ∀ other ∈ behind, diagnostic.notAfter other = true := by
  rcases List.mergeSort_cons notAfter_trans notAfter_total diagnostic rest with
    ⟨before, behind, sorted, restSorted, inFront⟩
  have ordered := pairwise_mergeSort_notAfter (diagnostic :: rest)
  rw [sorted, List.pairwise_append, List.pairwise_cons] at ordered
  refine ⟨before, behind, sorted, restSorted, ?_, ordered.2.1.1⟩
  intro other member
  simpa using inFront other member

/-- A list has only one cut between the diagnostics in front of a given one and the others. -/
theorem append_inj_of_notAfter {diagnostic : Diagnostic}
    {before behind front back : List Diagnostic} (same : before ++ behind = front ++ back)
    (inFront : ∀ other ∈ before ++ front, diagnostic.notAfter other = false)
    (notInFront : ∀ other ∈ behind ++ back, diagnostic.notAfter other = true) :
    before = front ∧ behind = back := by
  simp only [List.mem_append, or_imp, forall_and] at inFront notInFront
  have isBefore : ∀ {cut rest : List Diagnostic},
      (∀ other ∈ cut, diagnostic.notAfter other = false) →
      (∀ other ∈ rest, diagnostic.notAfter other = true) →
      (cut ++ rest).filter (fun other => !diagnostic.notAfter other) = cut := by
    intro cut rest cutIs restIs
    rw [List.filter_append, List.filter_eq_self.mpr, List.filter_eq_nil_iff.mpr, List.append_nil]
    · simpa using restIs
    · simpa using cutIs
  have sameFront : before = front := by
    rw [← isBefore inFront.1 notInFront.1, same, isBefore inFront.2 notInFront.2]
  exact ⟨sameFront, List.append_cancel_left (sameFront ▸ same)⟩

/-- A change that keeps spans and ids can be made before diagnostics are sorted or after it. -/
theorem filterMap_mergeSort {change : Diagnostic → Option Diagnostic}
    (keeps : ∀ diagnostic changed, change diagnostic = some changed →
      changed.span = diagnostic.span ∧ changed.id = diagnostic.id)
    (diagnostics : List Diagnostic) :
    (diagnostics.mergeSort notAfter).filterMap change =
      (diagnostics.filterMap change).mergeSort notAfter := by
  induction diagnostics with
  | nil => simp
  | cons diagnostic rest ih =>
    rcases exists_mergeSort_cons diagnostic rest with
      ⟨before, behind, sorted, restSorted, inFront, notInFront⟩
    rw [restSorted, List.filterMap_append] at ih
    rw [sorted, List.filterMap_append]
    cases changes : change diagnostic with
    | none => rw [List.filterMap_cons_none changes, List.filterMap_cons_none changes, ih]
    | some changed =>
      rcases exists_mergeSort_cons changed (rest.filterMap change) with
        ⟨front, back, changedSorted, changedRest, inFront', notInFront'⟩
      have sameOrder {other changedOther : Diagnostic}
          (otherChanges : change other = some changedOther) :
          changed.notAfter changedOther = diagnostic.notAfter other := by
        rw [notAfter, notAfter, (keeps _ _ changes).1, (keeps _ _ changes).2,
          (keeps _ _ otherChanges).1, (keeps _ _ otherChanges).2]
      have cut : before.filterMap change = front ∧ behind.filterMap change = back := by
        refine @append_inj_of_notAfter changed _ _ _ _ (ih.trans changedRest) ?_ ?_
        · intro other member
          rcases List.mem_append.mp member with member | member
          · rcases List.mem_filterMap.mp member with ⟨origin, originMem, otherChanges⟩
            rw [sameOrder otherChanges, inFront origin originMem]
          · exact inFront' other member
        · intro other member
          rcases List.mem_append.mp member with member | member
          · rcases List.mem_filterMap.mp member with ⟨origin, originMem, otherChanges⟩
            rw [sameOrder otherChanges, notInFront origin originMem]
          · exact notInFront' other member
      rw [List.filterMap_cons_some changes, List.filterMap_cons_some changes, changedSorted, cut.1,
        cut.2]

end Diagnostic

/-- The diagnostics of `SyntaxTree.nestedCalls`. -/
def SyntaxTree.nestedDiagnostics : List Diagnostic :=
  [(⟨0, 45⟩, .isTrue), (⟨20, 43⟩, .isFalse)].map fun (span, rule) =>
    ⟨span, .classic rule false, (Observation.classic rule false).message, .info⟩

theorem Configuration.analyze_nestedCalls :
    Id.run (Configuration.analyze {} .nestedCalls .ofMemberNames {}) =
      .ok SyntaxTree.nestedDiagnostics := by
  have calls : SyntaxTree.nestedCalls.invocations =
      SyntaxTree.nestedCalls.roots.flatMap fun root =>
        [(root.expression, root),
          (.invocation (.name (.ofIdentifier "Check") (some ⟨14, 19⟩))
            ⟨[.ofExpr SyntaxTree.innerCall], some ⟨19, 44⟩⟩ (some ⟨14, 44⟩), root),
          (SyntaxTree.innerCall, root)] := by
    simp [SyntaxTree.invocations, SyntaxTree.nestedCalls, SyntaxTree.innerCall, Expr.walk_eq,
      Expr.children, Argument.ofExpr]
    rfl
  have inOrder : SyntaxTree.nestedDiagnostics.mergeSort Diagnostic.notAfter =
      SyntaxTree.nestedDiagnostics :=
    List.mergeSort_of_pairwise (by decide)
  rw [← inOrder, Configuration.analyze, calls]
  rfl

end AssertionLint
