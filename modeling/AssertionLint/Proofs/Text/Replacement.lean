import AssertionLint.Proofs.Text.Splice
import Mathlib.Data.List.Perm.Basic

/-!
# Edits one at a time

A batch of edits does what its edits do one after the other, beginning with the last one: the place
of an edit does not move when only text behind it changes. A batch is applied exactly if every edit
fits into the source and no two edits overlap, and for edits with spans of their own the order of
the batch does not matter (`TextEdit.applyAll_eq_replaceInTurn`).

The edits are sorted by their spans before they are applied, and a sorted list in which no two edits
overlap is one in which each edit ends before the next one starts. So nothing is lost by comparing
an edit with the one before it only.
-/

namespace AssertionLint

namespace TextEdit

/-- The text with the part at the span of an edit replaced, if there is such a part. -/
def replaceIn? (edit : TextEdit) (text : List Char) : Option (List Char) := do
  let (before, tail) ← Text.cut? text edit.span.start
  let (_, after) ← Text.cut? tail edit.span.length
  pure (before ++ edit.replacement.toList ++ after)

/-- The text after one replacement for each edit, where the last edit of the list comes first. -/
def replaceInTurn? (edits : List TextEdit) (text : List Char) : Option (List Char) :=
  edits.foldrM replaceIn? text

/-- A batch in the order of the spans, where edits with the same span keep their order. -/
structure IsSpanOrder (edits ordered : List TextEdit) : Prop where
  sorted : ordered.Pairwise fun left right => left.notAfter right = true
  stable : ∀ span, ordered.filter (·.span = span) = edits.filter (·.span = span)

theorem isSpanOrder_mergeSort (edits : List TextEdit) :
    IsSpanOrder edits (edits.mergeSort fun left right => left.span.notAfter right.span) where
  sorted := pairwise_mergeSort_notAfter edits
  stable span := by
    have alike : (edits.filter (·.span = span)).Pairwise
        fun left right => left.span.notAfter right.span = true := by
      refine List.pairwise_of_forall_mem_list fun left leftMem right rightMem => ?_
      have leftSpan : left.span = span := by simpa using (List.mem_filter.mp leftMem).2
      have rightSpan : right.span = span := by simpa using (List.mem_filter.mp rightMem).2
      rw [leftSpan, rightSpan, Span.notAfter_iff]
      omega
    have kept : (edits.filter (·.span = span)).Sublist
        (edits.mergeSort fun left right => left.span.notAfter right.span) := by
      refine List.sublist_mergeSort ?_ ?_ alike List.filter_sublist
      · exact fun _ _ _ => Span.notAfter_trans
      · exact fun left right => Span.notAfter_total left.span right.span
    have sameLength := ((List.mergeSort_perm edits
      fun left right => left.span.notAfter right.span).filter (·.span = span)).length_eq
    refine (List.Sublist.eq_of_length ?_ sameLength.symm).symm
    simpa only [List.filter_filter, Bool.and_self] using kept.filter (·.span = span)

/-- Sorted lists with the same edits at each span are the same. -/
theorem eq_of_sorted {one other : List TextEdit}
    (oneSorted : one.Pairwise fun left right => left.notAfter right = true)
    (otherSorted : other.Pairwise fun left right => left.notAfter right = true)
    (same : ∀ span, one.filter (·.span = span) = other.filter (·.span = span)) : one = other := by
  have mem_iff (edit : TextEdit) : edit ∈ one ↔ edit ∈ other := by
    have sameHere := congrArg (edit ∈ ·) (same edit.span)
    simpa [List.mem_filter] using sameHere
  induction one generalizing other with
  | nil =>
    cases other with
    | nil => rfl
    | cons edit rest => simpa using mem_iff edit
  | cons edit rest ih =>
    cases other with
    | nil => simpa using mem_iff edit
    | cons head others =>
      rw [List.pairwise_cons] at oneSorted otherSorted
      -- each of the two first edits is in both lists, so neither comes after the other
      have sameSpan : edit.span = head.span := by
        rcases List.mem_cons.mp ((mem_iff head).mpr List.mem_cons_self) with rfl | later
        · rfl
        · rcases List.mem_cons.mp ((mem_iff edit).mp List.mem_cons_self) with rfl | behind
          · rfl
          · exact Span.eq_of_notAfter (oneSorted.1 head later) (otherSorted.1 edit behind)
      have sameHead : edit = head := by
        have here := same edit.span
        simp only [List.filter_cons, decide_true, sameSpan, if_true] at here
        exact (List.cons.inj here).1
      subst sameHead
      have sameRest (span : Span) :
          rest.filter (·.span = span) = others.filter (·.span = span) := by
        have here := same span
        simp only [List.filter_cons] at here
        split at here
        · exact (List.cons.inj here).2
        · exact here
      rw [ih oneSorted.2 otherSorted.2 sameRest fun other => ?_]
      have sameHere := congrArg (other ∈ ·) (sameRest other.span)
      simpa [List.mem_filter] using sameHere

theorem isSpanOrder_iff {edits ordered : List TextEdit} :
    IsSpanOrder edits ordered ↔
      ordered = edits.mergeSort fun left right => left.span.notAfter right.span := by
  have isOrder := isSpanOrder_mergeSort edits
  constructor
  · intro other
    exact eq_of_sorted other.sorted isOrder.sorted
      fun span => (other.stable span).trans (isOrder.stable span).symm
  · rintro rfl
    exact isOrder

/-- Edits in order do not overlap exactly if the first one ends before the second one starts. -/
theorem overlaps_eq_false_iff {left right : TextEdit} (inOrder : left.notAfter right = true)
    (rightOrdered : right.span.start ≤ right.span.stop) :
    left.span.overlaps right.span = false ↔ left.Precedes right := by
  rw [notAfter, Span.notAfter_iff] at inOrder
  simp only [Span.overlaps, Bool.and_eq_false_iff, decide_eq_false_iff_not, Precedes]
  omega

theorem pairwise_overlaps_iff {edits : List TextEdit}
    (ordered : ∀ edit ∈ edits, edit.span.start ≤ edit.span.stop) :
    (edits.Pairwise fun left right => left.span.overlaps right.span = false) ↔
      (edits.mergeSort fun left right => left.span.notAfter right.span).Pairwise Precedes := by
  have symmetric : ∀ left right : TextEdit, left.span.overlaps right.span = false →
      right.span.overlaps left.span = false := by
    intro left right
    simp only [Span.overlaps, Bool.and_comm, imp_self]
  rw [← (List.mergeSort_perm edits fun left right =>
    left.span.notAfter right.span).pairwise_iff (symmetric _ _)]
  have sorted := pairwise_mergeSort_notAfter edits
  have orderedToo (edit : TextEdit) (member : edit ∈
      edits.mergeSort fun left right => left.span.notAfter right.span) :
      edit.span.start ≤ edit.span.stop :=
    ordered edit (List.mem_mergeSort.mp member)
  constructor
  · intro apart
    refine (sorted.and apart).imp_of_mem fun _ rightMem both => ?_
    exact (overlaps_eq_false_iff both.1 (orderedToo _ rightMem)).mp both.2
  · intro disjoint
    refine (sorted.and disjoint).imp_of_mem fun _ rightMem both => ?_
    exact (overlaps_eq_false_iff both.1 (orderedToo _ rightMem)).mpr both.2

/-- Edits that can be applied from an offset on fit into the source and lie one behind the other. -/
theorem fits_of_splice {source : String} {cursor : Nat} {edits : List TextEdit} {fixed : List Char}
    (ordered : ∀ edit ∈ edits, edit.span.start ≤ edit.span.stop)
    (applied : splice source.toList cursor edits = .ok fixed) :
    Text.IsBoundary source.toList cursor ∧
      (∀ edit ∈ edits, cursor ≤ edit.span.start ∧ edit.span.FitsIn source) ∧
      edits.Pairwise Precedes := by
  induction edits generalizing cursor fixed with
  | nil =>
    rcases Text.slice?_eq_some_iff.mp (splice_nil_eq_ok_iff.mp applied) with
      ⟨before, after, whole, size, -⟩
    exact ⟨⟨before, fixed ++ after, by simp [whole], size⟩, by simp, .nil⟩
  | cons edit later ih =>
    rcases splice_cons_eq_ok_iff.mp applied with ⟨reached, unchanged, rest, sliced, following, -⟩
    rcases Text.slice?_eq_some_iff.mp sliced with ⟨before, after, whole, size, start⟩
    have headOrdered := ordered edit List.mem_cons_self
    -- the end of an edit is a boundary because the next slice is cut there
    rcases ih (fun other member => ordered other (List.mem_cons_of_mem edit member)) following with
      ⟨stopBoundary, fits, disjoint⟩
    have headFits : edit.span.FitsIn source :=
      ⟨headOrdered, ⟨before ++ unchanged, after, whole, by simp [size, start]⟩, stopBoundary⟩
    refine ⟨⟨before, unchanged ++ after, by simp [whole], size⟩, ?_, ?_⟩
    · intro other member
      rcases List.mem_cons.mp member with rfl | behind
      · exact ⟨reached, headFits⟩
      · have inside := fits other behind
        exact ⟨by omega, inside.2⟩
    · exact List.pairwise_cons.mpr ⟨fun other member => (fits other member).1, disjoint⟩

theorem replaceIn?_append (edit : TextEdit) (before old after : List Char)
    (start : Text.byteSize before = edit.span.start)
    (stop : edit.span.start + Text.byteSize old = edit.span.stop) :
    edit.replaceIn? (before ++ old ++ after) =
      some (before ++ edit.replacement.toList ++ after) := by
  have length : edit.span.length = Text.byteSize old := by
    rw [Span.length]
    omega
  simp only [replaceIn?, length, ← start, List.append_assoc, Text.cut?_append, bind, pure,
    Option.bind_some]

/-- What edits do in one pass they do one at a time, the last one first. -/
theorem Rewrites.replaceInTurn? {offset : Nat} {edits : List TextEdit} {text fixed : List Char}
    (rewrites : Rewrites offset edits text fixed) (front : List Char)
    (size : Text.byteSize front = offset) :
    TextEdit.replaceInTurn? edits (front ++ text) = some (front ++ fixed) := by
  induction rewrites generalizing front with
  | done => rfl
  | @edit offset edit later unchanged old rest fixed start stop following ih =>
    have behind : TextEdit.replaceInTurn? later (front ++ unchanged ++ old ++ rest) =
        some (front ++ unchanged ++ old ++ fixed) :=
      ih _ (by simp only [Text.byteSize_append]; omega)
    have replaced := replaceIn?_append edit (front ++ unchanged) old fixed
      (by simp only [Text.byteSize_append]; omega) stop
    simp only [TextEdit.replaceInTurn?, ← List.append_assoc, List.foldrM_cons] at behind replaced ⊢
    rw [behind]
    exact replaced

theorem applyAll_eq_ok_iff {source fixed : String} {edits : List TextEdit} :
    applyAll source edits = .ok fixed ↔
      splice source.toList 0
        (edits.mergeSort fun left right => left.span.notAfter right.span) = .ok fixed.toList := by
  rw [applyAll]
  cases splice source.toList 0
      (edits.mergeSort fun left right => left.span.notAfter right.span) with
  | error fault => simp [Except.map]
  | ok chars =>
    simp only [Except.map, Except.ok.injEq]
    constructor
    · rintro rfl
      simp
    · rintro rfl
      simp

/-- The order of a batch does not matter if equal spans mean equal edits. -/
theorem applyAll_perm (source : String) {edits others : List TextEdit}
    (reordered : others.Perm edits) (distinct : SpansAreDistinct edits) :
    applyAll source others = applyAll source edits := by
  have inEdits (edit : TextEdit) (member : edit ∈
      others.mergeSort fun left right => left.span.notAfter right.span) : edit ∈ edits :=
    reordered.mem_iff.mp (List.mem_mergeSort.mp member)
  have sameOrder : (others.mergeSort fun left right => left.span.notAfter right.span) =
      edits.mergeSort fun left right => left.span.notAfter right.span := by
    refine List.Perm.eq_of_pairwise ?_ (pairwise_mergeSort_notAfter others)
      (pairwise_mergeSort_notAfter edits) ?_
    · intro one other oneMem otherMem before behind
      exact distinct one (inEdits one oneMem) other (List.mem_mergeSort.mp otherMem)
        (Span.eq_of_notAfter before behind)
    · exact (List.mergeSort_perm _ _).trans (reordered.trans (List.mergeSort_perm _ _).symm)
  rw [applyAll, applyAll, sameOrder]

/-- A batch is applied exactly if its edits fit and no two of them overlap. The result is that of
single replacements from the last edit to the first in the order of the spans, and it does not
depend on the order of a batch in which different edits have different spans. -/
theorem applyAll_eq_replaceInTurn (source : String) {edits : List TextEdit}
    (ordered : ∀ edit ∈ edits, edit.span.start ≤ edit.span.stop) :
    ((∃ fixed, applyAll source edits = .ok fixed) ↔
      (∀ edit ∈ edits, edit.span.FitsIn source) ∧
        edits.Pairwise fun left right => left.span.overlaps right.span = false) ∧
    (∃ inOrder, (∀ other, IsSpanOrder edits other ↔ other = inOrder) ∧
      ∀ fixed, applyAll source edits = .ok fixed →
        replaceInTurn? inOrder source.toList = some fixed.toList) ∧
    (SpansAreDistinct edits → ∀ others : List TextEdit, others.Perm edits →
      applyAll source others = applyAll source edits) := by
  let sorted := edits.mergeSort fun left right => left.span.notAfter right.span
  have sortedOrdered (edit : TextEdit) (member : edit ∈ sorted) :
      edit.span.start ≤ edit.span.stop :=
    ordered edit (List.mem_mergeSort.mp member)
  have fitsIn_of_ok {fixed : String} (applied : applyAll source edits = .ok fixed) :
      (∀ edit ∈ sorted, edit.span.FitsIn source) ∧ sorted.Pairwise Precedes := by
    rcases fits_of_splice sortedOrdered (applyAll_eq_ok_iff.mp applied) with ⟨-, fits, disjoint⟩
    exact ⟨fun edit member => (fits edit member).2, disjoint⟩
  refine ⟨⟨?_, ?_⟩, ⟨sorted, fun _ => isSpanOrder_iff, ?_⟩, ?_⟩
  · rintro ⟨fixed, applied⟩
    rcases fitsIn_of_ok applied with ⟨fits, disjoint⟩
    exact ⟨fun edit member => fits edit (List.mem_mergeSort.mpr member),
      (pairwise_overlaps_iff ordered).mpr disjoint⟩
  · rintro ⟨fits, apart⟩
    rcases exists_splice (List.nil_append source.toList).symm (by simp)
      (fun edit member => fits edit (List.mem_mergeSort.mp member))
      ((pairwise_overlaps_iff ordered).mp apart) with ⟨fixed, applied, -⟩
    exact ⟨String.ofList fixed, applyAll_eq_ok_iff.mpr (by simpa using applied)⟩
  · intro fixed applied
    rcases fitsIn_of_ok applied with ⟨fits, disjoint⟩
    rcases exists_splice (List.nil_append source.toList).symm (by simp) fits disjoint with
      ⟨chars, spliced, rewrites⟩
    have sameText : chars = fixed.toList :=
      Except.ok.inj (spliced.symm.trans (applyAll_eq_ok_iff.mp applied))
    have replaced := rewrites.replaceInTurn? [] rfl
    simpa [sameText] using replaced
  · intro distinct others reordered
    exact applyAll_perm source reordered distinct

/-- An insertion, a deletion behind it and a replacement at the end, touching each other, in a text
with a character of two bytes. -/
def touchingEdits : List TextEdit := [⟨⟨3, 4⟩, "c"⟩, ⟨⟨1, 1⟩, "xy"⟩, ⟨⟨1, 3⟩, ""⟩]

theorem applyAll_touchingEdits :
    (∀ edit ∈ touchingEdits, edit.span.start ≤ edit.span.stop) ∧ SpansAreDistinct touchingEdits ∧
    applyAll "añb" touchingEdits = .ok "axyc" ∧
    applyAll "añb" touchingEdits.reverse = applyAll "añb" touchingEdits ∧
    (∀ edit ∈ touchingEdits, edit.span.FitsIn "añb") ∧
    ∃ inOrder, (∀ other, IsSpanOrder touchingEdits other ↔ other = inOrder) ∧
      replaceInTurn? inOrder "añb".toList = some "axyc".toList := by
  have ordered : ∀ edit ∈ touchingEdits, edit.span.start ≤ edit.span.stop := by decide
  have distinct : SpansAreDistinct touchingEdits := by
    unfold SpansAreDistinct
    decide
  have sorted : (touchingEdits.mergeSort fun left right => left.span.notAfter right.span) =
      [⟨⟨1, 1⟩, "xy"⟩, ⟨⟨1, 3⟩, ""⟩, ⟨⟨3, 4⟩, "c"⟩] := by
    simp [touchingEdits, List.mergeSort, List.MergeSort.Internal.splitInTwo, Span.notAfter,
      Span.precedes]
  have applied : applyAll "añb" touchingEdits = .ok "axyc" := by
    rw [applyAll_eq_ok_iff, sorted]
    rfl
  rcases applyAll_eq_replaceInTurn "añb" ordered with
    ⟨applicable, ⟨inOrder, isOrder, inTurn⟩, anyOrder⟩
  exact ⟨ordered, distinct, applied, anyOrder distinct _ touchingEdits.reverse_perm,
    (applicable.mp ⟨_, applied⟩).1, inOrder, isOrder, inTurn _ applied⟩

end TextEdit

end AssertionLint
