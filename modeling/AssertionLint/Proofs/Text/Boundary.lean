import AssertionLint.Text.Edit

/-!
# Character boundaries

A byte offset is a boundary of a text if the text can be cut there. A span fits into a source if
its ends are in order and are boundaries, so that it covers a part of the source. The edit that is
left of a replacement after what both sides share is trimmed fits into the source, too
(`TextEdit.fitsIn_minimized`), because only whole characters are trimmed.
-/

namespace AssertionLint

namespace Text

/-- The offset falls between two characters of the text or at one of its ends. -/
def IsBoundary (text : List Char) (offset : Nat) : Prop :=
  ∃ before after, text = before ++ after ∧ byteSize before = offset

theorem cut?_eq_some_iff {text before after : List Char} {offset : Nat} :
    cut? text offset = some (before, after) ↔
      text = before ++ after ∧ byteSize before = offset := by
  constructor
  · intro cut
    have whole := append_of_cut? cut
    exact ⟨whole.1.symm, whole.2⟩
  · rintro ⟨rfl, rfl⟩
    exact cut?_append before after

theorem isBoundary_iff (text : List Char) (offset : Nat) :
    IsBoundary text offset ↔ (cut? text offset).isSome = true := by
  constructor
  · rintro ⟨before, after, whole⟩
    simp [cut?_eq_some_iff.mpr whole]
  · intro cut
    rcases Option.isSome_iff_exists.mp cut with ⟨⟨before, after⟩, found⟩
    exact ⟨before, after, cut?_eq_some_iff.mp found⟩

instance (text : List Char) (offset : Nat) : Decidable (IsBoundary text offset) :=
  decidable_of_iff _ (isBoundary_iff text offset).symm

theorem byteSize_eq_zero {text : List Char} : byteSize text = 0 ↔ text = [] := by
  cases text with
  | nil => simp
  | cons c rest =>
    have positive := Char.utf8Size_pos c
    simp only [byteSize, reduceCtorEq, iff_false]
    omega

@[simp]
theorem byteSize_reverse (text : List Char) : byteSize text.reverse = byteSize text := by
  induction text with
  | nil => rfl
  | cons c rest ih => simp [byteSize, ih, Nat.add_comm]

/-- A boundary that is not in front of a cut is a boundary of the text behind the cut. -/
theorem IsBoundary.of_append {front tail : List Char} {offset : Nat}
    (boundary : IsBoundary (front ++ tail) offset) (reached : byteSize front ≤ offset) :
    ∃ part rest, tail = part ++ rest ∧ byteSize front + byteSize part = offset := by
  rcases boundary with ⟨before, after, whole, rfl⟩
  rcases List.append_eq_append_iff.mp whole with ⟨part, rfl, rfl⟩ | ⟨excess, rfl, rfl⟩
  · exact ⟨part, after, rfl, by simp⟩
  · simp only [byteSize_append] at reached
    have empty : excess = [] := byteSize_eq_zero.mp (by omega)
    exact ⟨[], tail, rfl, by simp [empty]⟩

/-- A slice is the part between two boundaries. -/
theorem slice?_eq_some_iff {text part : List Char} {start stop : Nat} :
    slice? text start stop = some part ↔
      ∃ before after, text = before ++ part ++ after ∧ byteSize before = start ∧
        start + byteSize part = stop := by
  constructor
  · intro sliced
    unfold slice? at sliced
    split at sliced
    · simp only [bind, pure, Option.bind_eq_some_iff, Prod.exists] at sliced
      rcases sliced with ⟨before, tail, cutStart, covered, after, cutStop, same⟩
      rcases cut?_eq_some_iff.mp cutStart with ⟨rfl, sizeStart⟩
      rcases cut?_eq_some_iff.mp cutStop with ⟨rfl, sizePart⟩
      cases same
      exact ⟨before, after, by simp, sizeStart, by omega⟩
    · cases sliced
  · rintro ⟨before, after, rfl, rfl, rfl⟩
    simp [slice?, List.append_assoc]

theorem sharedStart_prefix_left (left right : List Char) : sharedStart left right <+: left := by
  fun_induction sharedStart left right with
  | case1 => exact List.cons_prefix_cons.mpr ⟨rfl, ‹_›⟩
  | case2 | case3 => exact List.nil_prefix

theorem sharedStart_prefix_right (left right : List Char) : sharedStart left right <+: right := by
  fun_induction sharedStart left right with
  | case1 => exact List.cons_prefix_cons.mpr ⟨rfl, ‹_›⟩
  | case2 | case3 => exact List.nil_prefix

theorem prefix_sharedStart {shared left right : List Char} (inLeft : shared <+: left)
    (inRight : shared <+: right) : shared <+: sharedStart left right := by
  fun_induction sharedStart left right generalizing shared with
  | case1 c left right ih =>
    cases shared with
    | nil => exact List.nil_prefix
    | cons head rest =>
      rcases List.cons_prefix_cons.mp inLeft with ⟨rfl, restInLeft⟩
      exact List.cons_prefix_cons.mpr ⟨rfl, ih restInLeft (List.cons_prefix_cons.mp inRight).2⟩
  | case2 c left d right differ =>
    cases shared with
    | nil => exact List.nil_prefix
    | cons head rest =>
      have same : c = d := (List.cons_prefix_cons.mp inLeft).1.symm.trans
        (List.cons_prefix_cons.mp inRight).1
      exact absurd same differ
  | case3 left right notBoth =>
    cases left with
    | nil => exact inLeft
    | cons c left =>
      cases right with
      | nil => exact inRight
      | cons d right => exact (notBoth c left d right rfl rfl).elim

theorem sharedStart_append (front left right : List Char) :
    sharedStart (front ++ left) (front ++ right) = front ++ sharedStart left right := by
  induction front with
  | nil => rfl
  | cons c rest ih => rw [List.cons_append, List.cons_append, sharedStart, if_pos rfl, ih]; rfl

end Text

namespace Span

/-- The ends of the span are in order and are boundaries of the source. -/
structure FitsIn (span : Span) (source : String) : Prop where
  ordered : span.start ≤ span.stop
  start : Text.IsBoundary source.toList span.start
  stop : Text.IsBoundary source.toList span.stop

instance (span : Span) (source : String) : Decidable (span.FitsIn source) :=
  decidable_of_iff
    (span.start ≤ span.stop ∧ Text.IsBoundary source.toList span.start ∧
      Text.IsBoundary source.toList span.stop)
    ⟨fun ⟨ordered, start, stop⟩ => ⟨ordered, start, stop⟩,
      fun fits => ⟨fits.ordered, fits.start, fits.stop⟩⟩

/-- A span that fits covers the part of the source between its ends. -/
theorem FitsIn.exists_covered {span : Span} {source : String} (fits : span.FitsIn source) :
    ∃ before covered after, source.toList = before ++ covered ++ after ∧
      Text.byteSize before = span.start ∧ span.start + Text.byteSize covered = span.stop ∧
      (span.text source).toList = covered := by
  rcases fits.start with ⟨before, tail, whole, size⟩
  have stop := fits.stop
  rw [whole] at stop
  rcases stop.of_append (by have := fits.ordered; omega) with ⟨covered, after, rfl, reached⟩
  have sliced : Text.slice? source.toList span.start span.stop = some covered :=
    Text.slice?_eq_some_iff.mpr ⟨before, after, by simp [whole], size, by omega⟩
  refine ⟨before, covered, after, by simp [whole], size, by omega, ?_⟩
  simp [text, sliced]

theorem text_eq_of_covered {span : Span} {source : String} {before covered after : List Char}
    (whole : source.toList = before ++ covered ++ after) (size : Text.byteSize before = span.start)
    (reached : span.start + Text.byteSize covered = span.stop) :
    span.text source = String.ofList covered := by
  have sliced : Text.slice? source.toList span.start span.stop = some covered :=
    Text.slice?_eq_some_iff.mpr ⟨before, after, whole, size, reached⟩
  rw [text, sliced, Option.getD_some]

theorem FitsIn.textWithin?_eq {span : Span} {source : String} (fits : span.FitsIn source) :
    span.textWithin? source = some (span.text source) := by
  rcases fits.stop with ⟨before, after, whole, size⟩
  rw [textWithin?, if_pos]
  rw [whole, Text.byteSize_append]
  omega

theorem FitsIn.text_ne_empty {span : Span} {source : String} (fits : span.FitsIn source)
    (covers : span.start < span.stop) : span.text source ≠ "" := by
  rcases fits.exists_covered with ⟨before, covered, after, -, -, reached, text_eq⟩
  intro empty
  rw [empty] at text_eq
  rw [← text_eq] at reached
  simp at reached
  omega

/-- The texts of two spans that follow each other. -/
theorem text_append {source : String} {start middle stop : Nat}
    (first : (Span.mk start middle).FitsIn source) (second : (Span.mk middle stop).FitsIn source) :
    (Span.mk start middle).text source ++ (Span.mk middle stop).text source =
      (Span.mk start stop).text source := by
  rcases first.exists_covered with ⟨before, one, behind, whole, size, reached, textOne⟩
  rcases second.exists_covered with ⟨before', two, after, whole', size', reached', textTwo⟩
  simp only at size reached size' reached'
  have sameCut : (before ++ one, behind) = (before', two ++ after) := by
    apply Option.some.inj
    rw [← Text.cut?_eq_some_iff.mpr ⟨whole, by rw [Text.byteSize_append, size]⟩, reached,
      Text.cut?_eq_some_iff.mpr ⟨by rw [whole', List.append_assoc], size'⟩]
  simp only [Prod.mk.injEq] at sameCut
  have whole'' : source.toList = before ++ (one ++ two) ++ after := by
    rw [whole', ← sameCut.1, List.append_assoc before]
  have covered : (Span.mk start stop).text source = String.ofList (one ++ two) := by
    apply text_eq_of_covered whole'' size
    simp only [Text.byteSize_append]
    omega
  rw [covered, ← String.toList_inj, String.toList_append, textOne, textTwo, String.toList_ofList]

theorem FitsIn.around {source : String} {start stop : Nat} {inner : Span}
    (front : (Span.mk start inner.start).FitsIn source) (fits : inner.FitsIn source)
    (back : (Span.mk inner.stop stop).FitsIn source) : (Span.mk start stop).FitsIn source :=
  ⟨Nat.le_trans front.ordered (Nat.le_trans fits.ordered back.ordered), front.start, back.stop⟩

/-- The text of a span between the texts up to it and behind it. -/
theorem text_around {source : String} {start stop : Nat} {inner : Span}
    (front : (Span.mk start inner.start).FitsIn source) (fits : inner.FitsIn source)
    (back : (Span.mk inner.stop stop).FitsIn source) :
    (Span.mk start inner.start).text source ++ inner.text source ++
      (Span.mk inner.stop stop).text source = (Span.mk start stop).text source := by
  have joined : (Span.mk start inner.stop).FitsIn source :=
    ⟨Nat.le_trans front.ordered fits.ordered, front.start, fits.stop⟩
  rw [← text_append joined back, ← text_append front fits]

end Span

namespace TextEdit

/-- Trimming splits the covered text and the replacement into the same front, a middle of their own
and the same back, and keeps the middles. The front is all that the two share at the start, and the
back is all that they share at the end behind it. -/
theorem exists_minimized {source : String} {span : Span} (replacement : String)
    (fits : span.FitsIn source) :
    ∃ before front old new back after,
      source.toList = before ++ (front ++ old ++ back) ++ after ∧
      replacement.toList = front ++ new ++ back ∧
      Text.byteSize before = span.start ∧
      span.start + Text.byteSize (front ++ old ++ back) = span.stop ∧
      minimized source span replacement =
        ⟨⟨Text.byteSize (before ++ front), Text.byteSize (before ++ front ++ old)⟩,
          String.ofList new⟩ ∧
      Text.sharedStart (old ++ back) (new ++ back) = [] ∧
      Text.sharedStart old.reverse new.reverse = [] := by
  rcases fits.exists_covered with ⟨before, covered, after, whole, size, reached, text⟩
  rcases Text.sharedStart_prefix_left covered replacement.toList with ⟨oldRest, oldSplit⟩
  rcases Text.sharedStart_prefix_right covered replacement.toList with ⟨newRest, newSplit⟩
  generalize frontIs : Text.sharedStart covered replacement.toList = front at oldSplit newSplit
  -- the back is shared by what is left behind the front, so the two never overlap
  rcases Text.sharedStart_prefix_left oldRest.reverse newRest.reverse with ⟨old, oldBack⟩
  rcases Text.sharedStart_prefix_right oldRest.reverse newRest.reverse with ⟨new, newBack⟩
  generalize backIs : Text.sharedStart oldRest.reverse newRest.reverse = back at oldBack newBack
  have oldRestIs : oldRest = old.reverse ++ back.reverse := by
    rw [← List.reverse_append, oldBack, List.reverse_reverse]
  have newRestIs : newRest = new.reverse ++ back.reverse := by
    rw [← List.reverse_append, newBack, List.reverse_reverse]
  have oldDrop : covered.drop front.length = oldRest := by
    rw [← oldSplit, List.drop_left]
  have newDrop : replacement.toList.drop front.length = newRest := by
    rw [← newSplit, List.drop_left]
  have coveredIs : covered = front ++ old.reverse ++ back.reverse := by
    rw [← oldSplit, oldRestIs, List.append_assoc]
  refine ⟨before, front, old.reverse, new.reverse, back.reverse, after, by rw [whole, coveredIs],
    ?_, size, by rw [← coveredIs, reached], ?_, ?_, ?_⟩
  · rw [← newSplit, newRestIs]
    simp
  · have stop : span.start + Text.byteSize covered - Text.byteSize back =
        Text.byteSize (before ++ front ++ old.reverse) := by
      rw [coveredIs]
      simp only [Text.byteSize_append, Text.byteSize_reverse]
      omega
    have kept : newRest.take (newRest.length - back.length) = new.reverse := by
      rw [newRestIs]
      simp
    simp only [minimized, text, frontIs, oldDrop, newDrop, backIs, stop, kept,
      Text.byteSize_append, size]
  · rw [← oldRestIs, ← newRestIs]
    rwa [← oldSplit, ← newSplit, Text.sharedStart_append, List.append_right_eq_self] at frontIs
  · simp only [List.reverse_reverse]
    rwa [← oldBack, ← newBack, Text.sharedStart_append, List.append_right_eq_self] at backIs

theorem fitsIn_minimized {source : String} {span : Span} (replacement : String)
    (fits : span.FitsIn source) : (minimized source span replacement).span.FitsIn source := by
  rcases exists_minimized replacement fits with
    ⟨before, front, old, new, back, after, whole, -, -, -, trimmed, -, -⟩
  rw [trimmed]
  refine ⟨by simp, ⟨before ++ front, old ++ back ++ after, by simp [whole], rfl⟩,
    ⟨before ++ front ++ old, back ++ after, by simp [whole], rfl⟩⟩

end TextEdit

end AssertionLint
