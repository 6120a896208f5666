import AssertionLint.Proofs.Text.Boundary

/-!
# Applying edits

`TextEdit.Rewrites` says what it means to apply edits from left to right: the text is cut into
pieces that stay and pieces that are replaced, and the pieces replaced lie at the spans of the
edits. Edits that fit into the source and lie one behind the other can always be applied, and the
result is what the relation says (`TextEdit.exists_applyAll`). In particular neither an overlap nor
a range is ever at fault then.
-/

namespace AssertionLint

namespace Span

theorem notAfter_iff {left right : Span} :
    left.notAfter right = true ↔
      left.start < right.start ∨ left.start = right.start ∧ left.stop ≤ right.stop := by
  simp only [notAfter, precedes, Bool.not_eq_true', Bool.or_eq_false_iff, Bool.and_eq_false_iff,
    decide_eq_false_iff_not, beq_eq_false_iff_ne, ne_eq]
  omega

theorem notAfter_trans {first second third : Span} (one : first.notAfter second = true)
    (other : second.notAfter third = true) : first.notAfter third = true := by
  rw [notAfter_iff] at one other ⊢
  omega

theorem notAfter_total (left right : Span) :
    (left.notAfter right || right.notAfter left) = true := by
  rw [Bool.or_eq_true, notAfter_iff, notAfter_iff]
  omega

theorem eq_of_notAfter {left right : Span} (one : left.notAfter right = true)
    (other : right.notAfter left = true) : left = right := by
  rw [notAfter_iff] at one other
  rcases left with ⟨start, stop⟩
  rcases right with ⟨start', stop'⟩
  simp only [Span.mk.injEq] at one other ⊢
  omega

end Span

namespace TextEdit

/-- The order in which edits are sorted. -/
def notAfter (left right : TextEdit) : Bool := left.span.notAfter right.span

/-- The second edit starts at or behind the end of the first. -/
def Precedes (left right : TextEdit) : Prop := left.span.stop ≤ right.span.start

/-- Edits with the same span are the same edit. -/
def SpansAreDistinct (edits : List TextEdit) : Prop :=
  ∀ left ∈ edits, ∀ right ∈ edits, left.span = right.span → left = right

theorem pairwise_mergeSort_notAfter (edits : List TextEdit) :
    (edits.mergeSort fun left right => left.span.notAfter right.span).Pairwise
      fun left right => left.notAfter right = true := by
  refine List.pairwise_mergeSort ?_ ?_ edits
  · intro first second third one other
    exact Span.notAfter_trans one other
  · intro left right
    exact Span.notAfter_total left.span right.span

/-- The edits, from left to right, turn a text that starts at the offset into another text: each
replaces the part at its span and all between the spans stays. -/
inductive Rewrites : Nat → List TextEdit → List Char → List Char → Prop
  | done (offset : Nat) (rest : List Char) : Rewrites offset [] rest rest
  | edit {offset : Nat} {edit : TextEdit} {later : List TextEdit}
      {unchanged old rest fixed : List Char}
      (start : offset + Text.byteSize unchanged = edit.span.start)
      (stop : edit.span.start + Text.byteSize old = edit.span.stop)
      (following : Rewrites edit.span.stop later rest fixed) :
      Rewrites offset (edit :: later) (unchanged ++ old ++ rest)
        (unchanged ++ edit.replacement.toList ++ fixed)

/-- A batch of edits is applied if the text in front of the first edit can be cut out and the rest
can be applied behind it. -/
theorem splice_cons_eq_ok_iff {chars fixed : List Char} {cursor : Nat} {edit : TextEdit}
    {later : List TextEdit} :
    splice chars cursor (edit :: later) = .ok fixed ↔
      cursor ≤ edit.span.start ∧ ∃ unchanged rest,
        Text.slice? chars cursor edit.span.start = some unchanged ∧
        splice chars edit.span.stop later = .ok rest ∧
        fixed = unchanged ++ edit.replacement.toList ++ rest := by
  rw [splice]
  split
  · rename_i before
    simp [Nat.not_le_of_lt before]
  · rename_i notBefore
    cases Text.slice? chars cursor edit.span.start with
    | none => simp
    | some unchanged =>
      cases splice chars edit.span.stop later with
      | error fault => simp [bind, Except.bind]
      | ok rest => simp [bind, Except.bind, pure, Except.pure, Nat.le_of_not_lt notBefore, eq_comm]

theorem splice_nil_eq_ok_iff {chars fixed : List Char} {cursor : Nat} :
    splice chars cursor [] = .ok fixed ↔
      Text.slice? chars cursor (Text.byteSize chars) = some fixed := by
  rw [splice]
  split <;> simp_all

/-- Edits that fit and lie one behind the other can be applied behind any front of the source. -/
theorem exists_splice {source : String} {edits : List TextEdit} {front tail : List Char}
    (whole : source.toList = front ++ tail)
    (behind : ∀ edit ∈ edits, Text.byteSize front ≤ edit.span.start)
    (fits : ∀ edit ∈ edits, edit.span.FitsIn source) (disjoint : edits.Pairwise Precedes) :
    ∃ fixed, splice source.toList (Text.byteSize front) edits = .ok fixed ∧
      Rewrites (Text.byteSize front) edits tail fixed := by
  induction edits generalizing front tail with
  | nil =>
    have sliced : Text.slice? source.toList (Text.byteSize front) (Text.byteSize source.toList) =
        some tail :=
      Text.slice?_eq_some_iff.mpr ⟨front, [], by simp [whole], rfl, by simp [whole]⟩
    exact ⟨tail, by simp [splice, sliced], .done _ _⟩
  | cons edit later ih =>
    rw [List.pairwise_cons] at disjoint
    have reached := behind edit (by simp)
    have fit := fits edit (by simp)
    have startBoundary := fit.start
    rw [whole] at startBoundary
    rcases startBoundary.of_append reached with ⟨unchanged, tailFromStart, rfl, start⟩
    have stopBoundary := fit.stop
    rw [whole, ← List.append_assoc] at stopBoundary
    have startSize : Text.byteSize (front ++ unchanged) = edit.span.start := by simpa using start
    rcases stopBoundary.of_append (startSize ▸ fit.ordered) with ⟨old, rest, rfl, stop⟩
    have stopSize : Text.byteSize (front ++ unchanged ++ old) = edit.span.stop := by
      rw [Text.byteSize_append, stop]
    have wholeBehind : source.toList = front ++ unchanged ++ old ++ rest := by simp [whole]
    rcases ih wholeBehind (fun other otherMem => stopSize ▸ disjoint.1 other otherMem)
        (fun other otherMem => fits other (by simp [otherMem])) disjoint.2 with
      ⟨fixed, applied, rewritten⟩
    rw [stopSize] at applied rewritten
    have sliced : Text.slice? source.toList (Text.byteSize front) edit.span.start =
        some unchanged :=
      Text.slice?_eq_some_iff.mpr ⟨front, old ++ rest, by simp [whole], rfl, start⟩
    refine ⟨unchanged ++ edit.replacement.toList ++ fixed, ?_, ?_⟩
    · simp [splice, Nat.not_lt.mpr reached, sliced, applied, bind, pure, Except.bind, Except.pure]
    · rw [← List.append_assoc]
      exact .edit start (by rw [← startSize, stop]) rewritten

/-- Edits one behind the other are in the order of their spans. -/
theorem pairwise_notAfter_of_disjoint {source : String} {edits : List TextEdit}
    (fits : ∀ edit ∈ edits, edit.span.FitsIn source) (disjoint : edits.Pairwise Precedes) :
    edits.Pairwise fun left right => left.notAfter right = true := by
  refine disjoint.imp_of_mem ?_
  intro left right leftMem rightMem precedes
  have leftFits := (fits left leftMem).ordered
  have rightFits := (fits right rightMem).ordered
  rw [notAfter, Span.notAfter_iff]
  unfold Precedes at precedes
  omega

/-- A batch of edits that fit and lie one behind the other is applied without a fault. -/
theorem exists_applyAll {source : String} {edits : List TextEdit}
    (fits : ∀ edit ∈ edits, edit.span.FitsIn source) (disjoint : edits.Pairwise Precedes) :
    ∃ fixed, applyAll source edits = .ok fixed ∧
      Rewrites 0 edits source.toList fixed.toList := by
  have sorted : edits.mergeSort (fun left right => left.span.notAfter right.span) = edits :=
    List.mergeSort_of_pairwise (pairwise_notAfter_of_disjoint fits disjoint)
  rcases exists_splice (List.nil_append source.toList).symm (by simp) fits disjoint with
    ⟨fixed, applied, rewritten⟩
  simp only [Text.byteSize_nil] at applied rewritten
  exact ⟨String.ofList fixed, by simp [applyAll, sorted, applied, Except.map],
    by simpa using rewritten⟩

end TextEdit

end AssertionLint
