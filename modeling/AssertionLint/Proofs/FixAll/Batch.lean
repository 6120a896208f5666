import AssertionLint.Proofs.FixAll.Acceptance
import AssertionLint.Proofs.FixAll.Offers

/-!
# Fixing all

Fixing all gives a text whenever the spans of the tree and the recorded names are parts of the
source and the host does not ask to stop. The model may answer anything, and the diagnostics may be
out of date, repeated and in any order. `Configuration.AppliesAccepted` says what the text is.

An edit is refused if it starts before the end of the last accepted one, and the ends of accepted
edits never go back. So accepted edits lie one behind the other, and edits that do can always be
applied. Since the edits are sorted, a refused edit never starts before the edit that stands in its
way.
-/

namespace AssertionLint

variable {σ : Type}

namespace Configuration

/-- A text is the source with accepted edits applied. They lie one behind the other and are offered
in turn for the diagnostics. An offered edit that changes something and is not accepted starts
before the end of an accepted edit that starts no later. Only if several edits are offered for one
span can one of them be applied twice. -/
structure AppliesAccepted (configuration : Configuration) (tree : SyntaxTree)
    (model : SemanticModel (StateM σ)) (equivalenceKey : String) (token : CancellationToken)
    (state : σ) (diagnostics : List Diagnostic) (accepted : List TextEdit) (fixed : String) :
    Prop where
  applied : TextEdit.Rewrites 0 accepted tree.source.toList fixed.toList
  disjoint : accepted.Pairwise TextEdit.Precedes
  offered : ∀ edit ∈ accepted,
    OffersInTurn configuration tree model equivalenceKey token state diagnostics edit
  complete : ∀ edit,
    OffersInTurn configuration tree model equivalenceKey token state diagnostics edit →
    edit.isNoop tree.source = false →
    edit ∈ accepted ∨ ∃ earlier ∈ accepted, edit.StartsWithin earlier
  once : (∀ left right,
      OffersInTurn configuration tree model equivalenceKey token state diagnostics left →
      OffersInTurn configuration tree model equivalenceKey token state diagnostics right →
      left.span = right.span → left = right) →
    accepted.Nodup

/-- Fixing all never fails and applies edits that do not get into each other's way. -/
theorem exists_fixAll_appliesAccepted (configuration : Configuration) {tree : SyntaxTree}
    (model : SemanticModel (StateM σ)) (equivalenceKey : String) {token : CancellationToken}
    (state : σ) {diagnostics : List Diagnostic} (uncancelled : token.isCancelled = false)
    (validSpans : tree.HasValidSpans)
    (validRenames : ∀ diagnostic ∈ diagnostics, diagnostic.HasValidRename tree.source) :
    ∃ accepted fixed,
      ((configuration.fixAll tree model diagnostics equivalenceKey token).run state).1 =
        .ok fixed ∧
      configuration.AppliesAccepted tree model equivalenceKey token state diagnostics accepted
        fixed := by
  rcases exists_offeredEdits configuration tree model equivalenceKey diagnostics state
    uncancelled with ⟨edits, collected, isOffered⟩
  generalize sortedIs :
    edits.mergeSort (fun left right => left.span.notAfter right.span) = sorted
  have inOrder : sorted.Pairwise fun left right => left.notAfter right = true :=
    sortedIs ▸ TextEdit.pairwise_mergeSort_notAfter edits
  have mem_sorted : ∀ edit, edit ∈ sorted ↔
      OffersInTurn configuration tree model equivalenceKey token state diagnostics edit := by
    intro edit
    rw [← isOffered edit, ← sortedIs, List.mem_mergeSort]
  have fits : ∀ edit ∈ sorted, edit.span.FitsIn tree.source := by
    intro edit member
    exact ((mem_sorted edit).mp member).fitsIn uncancelled validSpans validRenames
  -- sorting and accepting leave edits that fit and do not overlap, so applying them cannot fail
  have disjoint := pairwise_precedes_acceptEdits tree.source none
    fun edit member => (fits edit member).ordered
  rcases TextEdit.exists_applyAll (fun edit member => fits edit (mem_of_mem_acceptEdits member))
    disjoint with ⟨fixed, applied, rewritten⟩
  refine ⟨acceptEdits tree.source none sorted, fixed, ?_, rewritten, disjoint, ?_, ?_, ?_⟩
  · rw [run_fixAll_eq_bind, collected]
    exact applyOffered_eq_ok sortedIs applied
  · intro edit member
    exact (mem_sorted edit).mp (mem_of_mem_acceptEdits member)
  · intro edit offers changes
    have inOrderBehindNone : ((none : Option TextEdit).toList ++ sorted).Pairwise
        fun left right => left.notAfter right = true := by
      simpa using inOrder
    exact accepted_or_startsWithin inOrderBehindNone ((mem_sorted edit).mpr offers) changes
  · intro distinct
    refine nodup_acceptEdits inOrder ?_
    intro left leftMem right rightMem sameSpan
    exact distinct left right ((mem_sorted left).mp leftMem) ((mem_sorted right).mp rightMem)
      sameSpan

end Configuration

/-- Diagnostics for `SyntaxTree.nestedCalls`: the inner call, the outer one and the inner one again,
a name to be replaced and a place at which there is no call. -/
def Diagnostic.ofNestedCalls : List Diagnostic :=
  [⟨⟨20, 43⟩, .classic .isFalse false, "", .info⟩, ⟨⟨0, 45⟩, .classic .isTrue false, "", .info⟩,
    ⟨⟨20, 43⟩, .classic .isFalse false, "", .info⟩,
    ⟨⟨0, 45⟩, .sameAsOnValueType ⟨27, 34⟩ "EqualTo", "", .error⟩,
    ⟨⟨36, 38⟩, .formatString, "", .error⟩]

theorem Diagnostic.hasValidRename_ofNestedCalls : ∀ diagnostic ∈ ofNestedCalls,
    diagnostic.HasValidRename SyntaxTree.nestedCalls.source := by
  intro diagnostic member rename replacement observed
  simp only [ofNestedCalls, List.mem_cons, List.not_mem_nil, or_false] at member
  rcases member with rfl | rfl | rfl | rfl | rfl <;> cases observed
  decide

/-- The outer call is fixed, and the fixes of the inner one are refused. -/
theorem Configuration.exists_fixAll_nestedCalls :
    let fixed := "Assert.That(Check(Assert.IsFalse(fällig)), Is.True)"
    ({} : CancellationToken).isCancelled = false ∧
    SyntaxTree.nestedCalls.HasValidSpans ∧
    (∀ diagnostic ∈ Diagnostic.ofNestedCalls,
      diagnostic.HasValidRename SyntaxTree.nestedCalls.source) ∧
    ∃ accepted,
      ((Configuration.fixAll {} SyntaxTree.nestedCalls SemanticModel.ofMemberNames.counting
        Diagnostic.ofNestedCalls "TransformToConstraintModel" {}).run 0).1 = .ok fixed ∧
      Configuration.AppliesAccepted {} SyntaxTree.nestedCalls SemanticModel.ofMemberNames.counting
        "TransformToConstraintModel" {} 0 Diagnostic.ofNestedCalls accepted fixed := by
  intro fixed
  have valid := SyntaxTree.isWellSpanned_nestedCalls.valid
  refine ⟨rfl, valid, Diagnostic.hasValidRename_ofNestedCalls, ?_⟩
  rcases exists_fixAll_appliesAccepted {} SemanticModel.ofMemberNames.counting
    "TransformToConstraintModel" 0 rfl valid Diagnostic.hasValidRename_ofNestedCalls with
    ⟨accepted, text, isText, applies⟩
  let outer : TextEdit := ⟨⟨7, 44⟩, "That(Check(Assert.IsFalse(fällig)), Is.True"⟩
  let inner : TextEdit := ⟨⟨27, 42⟩, "That(fällig, Is.False"⟩
  have collected : ((offeredEdits {} SyntaxTree.nestedCalls SemanticModel.ofMemberNames.counting
      "TransformToConstraintModel" {} Diagnostic.ofNestedCalls).run 0).1 =
        .ok [inner, outer, inner] := by
    decide +kernel
  have isSorted : [inner, outer, inner].mergeSort (fun left right =>
      left.span.notAfter right.span) = [outer, inner, inner] := by
    simp [List.mergeSort, List.MergeSort.Internal.splitInTwo, Span.notAfter, Span.precedes, inner,
      outer]
  have applied : applyOffered SyntaxTree.nestedCalls.source [inner, outer, inner] = .ok fixed :=
    applyOffered_eq_ok isSorted (by decide +kernel)
  have text_eq : text = fixed := by
    rw [run_fixAll_eq_bind, collected] at isText
    exact Except.ok.inj (isText.symm.trans applied)
  subst text_eq
  exact ⟨accepted, isText, applies⟩

end AssertionLint
