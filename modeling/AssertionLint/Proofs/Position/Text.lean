import AssertionLint.Proofs.Text.Splice

/-!
# Text in front of a source

What happens to offsets, spans and edits when a text is put in front of a source. Every offset moves
on by the size of the text, and nothing else changes: the same parts are cut out, and a batch of
edits that could be applied before is applied to the same effect (`TextEdit.applyAll_behind`).
-/

namespace AssertionLint

namespace Text

/-- The offset of a place in a source once a text stands in front of the source. -/
def behind (front : String) (offset : Nat) : Nat := byteSize front.toList + offset

@[simp]
theorem behind_inj {front : String} {first second : Nat} :
    behind front first = behind front second ↔ first = second := by
  simp [behind]

@[simp]
theorem behind_le_behind {front : String} {first second : Nat} :
    behind front first ≤ behind front second ↔ first ≤ second := by
  simp [behind]

@[simp]
theorem behind_lt_behind {front : String} {first second : Nat} :
    behind front first < behind front second ↔ first < second := by
  simp [behind]

theorem behind_add (front : String) (offset size : Nat) :
    behind front (offset + size) = behind front offset + size :=
  (Nat.add_assoc ..).symm

theorem cut?_append_left (front text : List Char) (offset : Nat) :
    cut? (front ++ text) (byteSize front + offset) =
      (cut? text offset).map fun (before, after) => (front ++ before, after) := by
  apply Option.ext
  rintro ⟨before, after⟩
  rw [cut?_eq_some_iff, Option.map_eq_some_iff]
  constructor
  · rintro ⟨whole, size⟩
    rcases IsBoundary.of_append ⟨before, after, whole, size⟩ (Nat.le_add_right _ _) with
      ⟨part, rest, rfl, partSize⟩
    refine ⟨(part, rest), cut?_eq_some_iff.mpr ⟨rfl, by omega⟩, ?_⟩
    have cut := cut?_append (front ++ part) rest
    rw [byteSize_append, partSize, ← size, List.append_assoc, whole, cut?_append] at cut
    simpa using cut.symm
  · rintro ⟨⟨part, rest⟩, cut, same⟩
    rcases cut?_eq_some_iff.mp cut with ⟨rfl, size⟩
    cases same
    simp [size]

theorem slice?_append_left (front text : List Char) (start stop : Nat) :
    slice? (front ++ text) (byteSize front + start) (byteSize front + stop) =
      slice? text start stop := by
  unfold slice?
  simp only [Nat.add_le_add_iff_left, Nat.add_sub_add_left, cut?_append_left]
  split
  · cases cut? text start <;> rfl
  · rfl

/-- A slice from the start of the source on begins with the text in front of it. -/
theorem slice?_zero_append_left (front text : List Char) (stop : Nat) :
    slice? (front ++ text) 0 (byteSize front + stop) = (slice? text 0 stop).map (front ++ ·) := by
  simp only [slice?, cut?, Nat.zero_le, if_true, bind, pure, Option.bind_some, Nat.sub_zero,
    cut?_append_left]
  cases cut? text stop <;> rfl

/-- What a text shares with another one at their ends is a part of it. -/
theorem byteSize_sharedStart_reverse_le (text : List Char) (dropped : Nat) (other : List Char) :
    byteSize (sharedStart (text.drop dropped).reverse other) ≤ byteSize text := by
  rcases sharedStart_prefix_left (text.drop dropped).reverse other with ⟨rest, whole⟩
  have sizes := congrArg byteSize whole
  have parts := congrArg byteSize (List.take_append_drop dropped text)
  rw [byteSize_append] at sizes parts
  rw [byteSize_reverse] at sizes
  omega

end Text

namespace Span

/-- The span of the same part once a text stands in front of the source. -/
def behind (front : String) (span : Span) : Span :=
  ⟨Text.behind front span.start, Text.behind front span.stop⟩

variable (front source : String)

@[simp]
theorem start_behind (span : Span) : (span.behind front).start = Text.behind front span.start := rfl

@[simp]
theorem stop_behind (span : Span) : (span.behind front).stop = Text.behind front span.stop := rfl

@[simp]
theorem behind_inj {one other : Span} : one.behind front = other.behind front ↔ one = other := by
  rcases one with ⟨start, stop⟩
  rcases other with ⟨start', stop'⟩
  simp [behind]

@[simp]
theorem beq_behind (one other : Span) :
    (one.behind front == other.behind front) = (one == other) := by
  rw [Bool.eq_iff_iff]
  simp

@[simp]
theorem contains_behind (outer inner : Span) :
    (outer.behind front).contains (inner.behind front) = outer.contains inner := by
  simp [contains]

@[simp]
theorem precedes_behind (left right : Span) :
    (left.behind front).precedes (right.behind front) = left.precedes right := by
  have sameStart : (Text.behind front left.start == Text.behind front right.start) =
      (left.start == right.start) := by
    rw [Bool.eq_iff_iff]
    simp
  simp [precedes, sameStart]

@[simp]
theorem notAfter_behind (left right : Span) :
    (left.behind front).notAfter (right.behind front) = left.notAfter right := by
  simp [notAfter]

@[simp]
theorem text_behind (span : Span) :
    (span.behind front).text (front ++ source) = span.text source := by
  simp only [text, String.toList_append, start_behind, stop_behind, Text.behind,
    Text.slice?_append_left]

@[simp]
theorem textWithin?_behind (span : Span) :
    (span.behind front).textWithin? (front ++ source) = span.textWithin? source := by
  simp only [textWithin?, text_behind, stop_behind, Text.behind, String.toList_append,
    Text.byteSize_append, Nat.add_le_add_iff_left]

end Span

namespace TextEdit

/-- The same edit once a text stands in front of the source. -/
def behind (front : String) (edit : TextEdit) : TextEdit :=
  ⟨edit.span.behind front, edit.replacement⟩

variable (front source : String)

@[simp]
theorem span_behind (edit : TextEdit) : (edit.behind front).span = edit.span.behind front := rfl

@[simp]
theorem replacement_behind (edit : TextEdit) : (edit.behind front).replacement = edit.replacement :=
  rfl

@[simp]
theorem behind_inj {one other : TextEdit} :
    one.behind front = other.behind front ↔ one = other := by
  rcases one with ⟨span, replacement⟩
  rcases other with ⟨span', replacement'⟩
  simp [behind]

@[simp]
theorem isNoop_behind (edit : TextEdit) :
    (edit.behind front).isNoop (front ++ source) = edit.isNoop source := by
  simp [isNoop]

theorem minimized_behind (span : Span) (replacement : String) :
    minimized (front ++ source) (span.behind front) replacement =
      (minimized source span replacement).behind front := by
  unfold minimized
  rw [Span.text_behind]
  have enough := Text.byteSize_sharedStart_reverse_le (span.text source).toList
    (Text.sharedStart (span.text source).toList replacement.toList).length
    (replacement.toList.drop
      (Text.sharedStart (span.text source).toList replacement.toList).length).reverse
  simp only [behind, Span.behind, TextEdit.mk.injEq, Span.mk.injEq, and_true, Text.behind]
  omega

/-- Behind the start of the source, edits do the same as before. -/
theorem splice_behind (cursor : Nat) {edits : List TextEdit} {fixed : List Char}
    (applied : splice source.toList cursor edits = .ok fixed) :
    splice (front ++ source).toList (Text.behind front cursor) (edits.map (behind front)) =
      .ok fixed := by
  rw [String.toList_append]
  induction edits generalizing cursor fixed with
  | nil =>
    rw [splice_nil_eq_ok_iff] at applied
    rwa [List.map_nil, splice_nil_eq_ok_iff, Text.byteSize_append, Text.behind,
      Text.slice?_append_left]
  | cons edit later ih =>
    rcases splice_cons_eq_ok_iff.mp applied with ⟨le, unchanged, rest, sliced, following, rfl⟩
    refine splice_cons_eq_ok_iff.mpr
      ⟨by simpa using le, unchanged, rest, ?_, ih _ following, rfl⟩
    rwa [span_behind, Span.start_behind, Text.behind, Text.behind, Text.slice?_append_left]

/-- From the start of the source on, the text in front of it stays. -/
theorem splice_zero_behind {edits : List TextEdit} {fixed : List Char}
    (applied : splice source.toList 0 edits = .ok fixed) :
    splice (front ++ source).toList 0 (edits.map (behind front)) = .ok (front.toList ++ fixed) := by
  rw [String.toList_append]
  cases edits with
  | nil =>
    rw [splice_nil_eq_ok_iff] at applied
    rw [List.map_nil, splice_nil_eq_ok_iff, Text.byteSize_append, Text.slice?_zero_append_left,
      applied, Option.map_some]
  | cons edit later =>
    rcases splice_cons_eq_ok_iff.mp applied with ⟨-, unchanged, rest, sliced, following, rfl⟩
    have behindEdit := splice_behind front source _ following
    rw [String.toList_append] at behindEdit
    refine splice_cons_eq_ok_iff.mpr
      ⟨Nat.zero_le _, front.toList ++ unchanged, rest, ?_, behindEdit, by simp⟩
    rw [span_behind, Span.start_behind, Text.behind, Text.slice?_zero_append_left, sliced,
      Option.map_some]

/-- A batch of edits that can be applied does the same behind a text. -/
theorem applyAll_behind {edits : List TextEdit} {fixed : String}
    (applied : applyAll source edits = .ok fixed) :
    applyAll (front ++ source) (edits.map (behind front)) = .ok (front ++ fixed) := by
  have sorted : (edits.map (behind front)).mergeSort
        (fun left right => left.span.notAfter right.span) =
      (edits.mergeSort fun left right => left.span.notAfter right.span).map (behind front) := by
    symm
    apply List.map_mergeSort
    intro left _ right _
    simp
  simp only [applyAll, sorted] at applied ⊢
  cases spliced : splice source.toList 0
    (edits.mergeSort fun left right => left.span.notAfter right.span) with
  | error fault => simp [spliced, Except.map] at applied
  | ok chars =>
    rw [splice_zero_behind front source spliced]
    simp only [spliced, Except.map, Except.ok.injEq] at applied ⊢
    rw [← applied]
    simp

end TextEdit

end AssertionLint
