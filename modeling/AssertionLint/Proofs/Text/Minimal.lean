import AssertionLint.Proofs.Text.Replacement

/-!
# Minimal edits

Trimming what the old and the new text share leaves an edit that does the same and is as small as an
edit can be (`TextEdit.minimized_isSmallest`).

Any other edit to the same effect keeps a part of the source at the start and a part at the end. If
the trimmed edit only inserts or only deletes, no edit keeps more, since one of the two documents is
kept as a whole. Otherwise the middles that trimming leaves differ in their first and in their last
character, so that nothing beyond the trimmed parts can be kept at either end.
-/

namespace AssertionLint

namespace Text

/-- What two texts share at the start ends where they first differ. -/
theorem byteSize_le_of_prefix {front left right leftRest rightRest shared : List Char}
    (differ : sharedStart left right = []) (leftNonempty : left ≠ []) (rightNonempty : right ≠ [])
    (inLeft : shared <+: front ++ left ++ leftRest)
    (inRight : shared <+: front ++ right ++ rightRest) :
    byteSize shared ≤ byteSize front := by
  have within : shared <+: front ++ sharedStart (left ++ leftRest) (right ++ rightRest) := by
    rw [← sharedStart_append, ← List.append_assoc, ← List.append_assoc]
    exact prefix_sharedStart inLeft inRight
  have nothing : sharedStart (left ++ leftRest) (right ++ rightRest) = [] := by
    rcases List.exists_cons_of_ne_nil leftNonempty with ⟨c, left, rfl⟩
    rcases List.exists_cons_of_ne_nil rightNonempty with ⟨d, right, rfl⟩
    simp only [sharedStart, List.cons_append, ite_eq_right_iff, reduceCtorEq, imp_false]
      at differ ⊢
    exact differ
  rw [nothing, List.append_nil] at within
  rcases within with ⟨rest, rfl⟩
  simp

/-- What two texts share at the end starts where they last differ. -/
theorem byteSize_le_of_suffix {back left right leftFront rightFront shared : List Char}
    (differ : sharedStart left.reverse right.reverse = []) (leftNonempty : left ≠ [])
    (rightNonempty : right ≠ []) (inLeft : shared <:+ leftFront ++ left ++ back)
    (inRight : shared <:+ rightFront ++ right ++ back) : byteSize shared ≤ byteSize back := by
  have inLeftReversed : shared.reverse <+: back.reverse ++ left.reverse ++ leftFront.reverse := by
    simpa using List.reverse_prefix.mpr inLeft
  have inRightReversed : shared.reverse <+:
      back.reverse ++ right.reverse ++ rightFront.reverse := by
    simpa using List.reverse_prefix.mpr inRight
  rw [← byteSize_reverse shared, ← byteSize_reverse back]
  exact byteSize_le_of_prefix differ (by simpa using leftNonempty) (by simpa using rightNonempty)
    inLeftReversed inRightReversed

/-- Between two texts that differ in one place only, what they share at the start and at the end
does not reach into this place. -/
theorem byteSize_shared_le {front left right back after shared rest : List Char}
    (startsDiffer : sharedStart (left ++ back) (right ++ back) = [])
    (endsDiffer : sharedStart left.reverse right.reverse = []) (leftNonempty : left ≠ [])
    (rightNonempty : right ≠ []) (startInLeft : shared <+: front ++ left ++ (back ++ after))
    (startInRight : shared <+: front ++ right ++ (back ++ after))
    (endInLeft : rest <:+ front ++ left ++ (back ++ after))
    (endInRight : rest <:+ front ++ right ++ (back ++ after)) :
    byteSize shared + byteSize rest ≤ byteSize front + byteSize (back ++ after) := by
  have regroup (text : List Char) :
      front ++ text ++ (back ++ after) = front ++ (text ++ back) ++ after := by
    simp only [List.append_assoc]
  have startLe : byteSize shared ≤ byteSize front :=
    byteSize_le_of_prefix startsDiffer (by simp [leftNonempty]) (by simp [rightNonempty])
      (regroup left ▸ startInLeft) (regroup right ▸ startInRight)
  have endLe : byteSize rest ≤ byteSize (back ++ after) :=
    byteSize_le_of_suffix endsDiffer leftNonempty rightNonempty endInLeft endInRight
  exact Nat.add_le_add startLe endLe

end Text

/-- The number of bytes between the ends of a span, whichever of them comes first. -/
def Span.width (span : Span) : Nat := span.length + (span.start - span.stop)

theorem Span.width_eq_length {span : Span} (ordered : span.start ≤ span.stop) :
    span.width = span.length := by
  rw [width]
  omega

namespace TextEdit

/-- The number of bytes replaced and of bytes put in. An edit whose ends are swapped is applied,
too; it writes the part between them a second time, and that part counts. -/
def size (edit : TextEdit) : Nat := edit.span.width + Text.byteSize edit.replacement.toList

/-- An edit keeps the source up to its start and from its end on. -/
theorem exists_kept_of_applyAll {source fixed : String} {edit : TextEdit}
    (applied : applyAll source [edit] = .ok fixed) :
    ∃ kept rest, kept <+: source.toList ∧ rest <:+ source.toList ∧
      fixed.toList = kept ++ edit.replacement.toList ++ rest ∧
      Text.byteSize kept = edit.span.start ∧
      edit.span.stop + Text.byteSize rest = Text.byteSize source.toList := by
  have spliced := applyAll_eq_ok_iff.mp applied
  rw [List.mergeSort_singleton, splice_cons_eq_ok_iff] at spliced
  rcases spliced with ⟨-, kept, rest, keptIs, restIs, fixedIs⟩
  rcases Text.slice?_eq_some_iff.mp keptIs with ⟨none, behind, wholeKept, noneSize, keptSize⟩
  rcases Text.slice?_eq_some_iff.mp (splice_nil_eq_ok_iff.mp restIs) with
    ⟨front, nothing, wholeRest, frontSize, restSize⟩
  have noneIs : none = [] := Text.byteSize_eq_zero.mp noneSize
  have nothingIs : nothing = [] := by
    rw [wholeRest, Text.byteSize_append, Text.byteSize_append] at restSize
    exact Text.byteSize_eq_zero.mp (by omega)
  subst noneIs nothingIs
  refine ⟨kept, rest, ⟨behind, by simpa using wholeKept.symm⟩,
    ⟨front, by simpa using wholeRest.symm⟩, fixedIs, by omega, restSize⟩

/-- One edit that fits is a single replacement. -/
theorem exists_applyAll_singleton {source : String} {edit : TextEdit}
    (fits : edit.span.FitsIn source) :
    ∃ fixed, applyAll source [edit] = .ok fixed ∧
      edit.replaceIn? source.toList = some fixed.toList := by
  rcases exists_applyAll (by simpa using fits) (List.pairwise_singleton _ edit) with
    ⟨fixed, applied, rewrites⟩
  have replaced := rewrites.replaceInTurn? [] rfl
  exact ⟨fixed, applied, by simpa [replaceInTurn?] using replaced⟩

/-- What a trimmed edit does, in terms of the parts that `exists_minimized` names. -/
theorem replaceIn?_trimmed {source : String} {before front old new back after : List Char}
    (whole : source.toList = before ++ (front ++ old ++ back) ++ after) :
    replaceIn? ⟨⟨Text.byteSize (before ++ front), Text.byteSize (before ++ front ++ old)⟩,
        String.ofList new⟩ source.toList =
      some (before ++ front ++ new ++ (back ++ after)) := by
  have sameWhole : source.toList = before ++ front ++ old ++ (back ++ after) := by
    simp only [whole, List.append_assoc]
  rw [sameWhole, replaceIn?_append _ (before ++ front) old (back ++ after) rfl
    (by simp only [Text.byteSize_append]), String.toList_ofList]

/-- Trimming does not change what an edit does. -/
theorem replaceIn?_minimized {source : String} {span : Span} (replacement : String)
    (fits : span.FitsIn source) :
    (minimized source span replacement).replaceIn? source.toList =
      replaceIn? ⟨span, replacement⟩ source.toList := by
  rcases exists_minimized replacement fits with
    ⟨before, front, old, new, back, after, whole, written, start, stop, trimmed, -, -⟩
  rw [trimmed, replaceIn?_trimmed whole, whole,
    replaceIn?_append ⟨span, replacement⟩ before (front ++ old ++ back) after start stop, written]
  simp only [List.append_assoc]

/-- No edit to the effect of a trimmed one keeps more of the source. -/
theorem size_minimized_le {source fixed : String} {span : Span} {replacement : String}
    (fits : span.FitsIn source)
    (replaced : (minimized source span replacement).replaceIn? source.toList = some fixed.toList)
    {edit : TextEdit} (applied : applyAll source [edit] = .ok fixed) :
    (minimized source span replacement).size ≤ edit.size := by
  rcases exists_minimized replacement fits with
    ⟨before, front, old, new, back, after, whole, -, -, -, trimmed, startsDiffer, endsDiffer⟩
  rcases exists_kept_of_applyAll applied with
    ⟨kept, rest, keptInSource, restInSource, fixedIs, keptSize, restSize⟩
  have sourceIs : source.toList = before ++ front ++ old ++ (back ++ after) := by
    simp only [whole, List.append_assoc]
  have fixedToo : fixed.toList = before ++ front ++ new ++ (back ++ after) := by
    rw [trimmed, replaceIn?_trimmed whole] at replaced
    exact (Option.some.inj replaced).symm
  have sourceSize := congrArg Text.byteSize sourceIs
  have fixedSize := congrArg Text.byteSize (fixedIs.symm.trans fixedToo)
  have trimmedSize : (minimized source span replacement).size =
      Text.byteSize old + Text.byteSize new := by
    rw [trimmed, size, Span.width_eq_length (by simp), Span.length]
    simp only [Text.byteSize_append, Nat.add_sub_cancel_left, String.toList_ofList]
  simp only [Text.byteSize_append] at sourceSize fixedSize
  rw [trimmedSize, size, Span.width, Span.length]
  -- a pure insertion or deletion is as small as the difference in size
  by_cases inserts : old = []
  · simp only [inserts, Text.byteSize_nil] at sourceSize ⊢
    omega
  by_cases deletes : new = []
  · simp only [deletes, Text.byteSize_nil] at fixedSize ⊢
    omega
  -- otherwise the two texts differ at both ends of the middle, and no edit keeps more than the ends
  have keptInFixed : kept <+: fixed.toList := by
    rw [fixedIs, List.append_assoc]
    exact List.prefix_append _ _
  have restInFixed : rest <:+ fixed.toList := by
    rw [fixedIs]
    exact List.suffix_append _ _
  have sharedLe := Text.byteSize_shared_le startsDiffer endsDiffer inserts deletes
    (sourceIs ▸ keptInSource) (fixedToo ▸ keptInFixed) (sourceIs ▸ restInSource)
    (fixedToo ▸ restInFixed)
  simp only [Text.byteSize_append] at sharedLe
  omega

/-- A trimmed edit does what it was trimmed from, within its span, and no edit to the same effect is
smaller. -/
theorem minimized_isSmallest {source : String} {span : Span} (replacement : String)
    (fits : span.FitsIn source) :
    ∃ fixed, applyAll source [minimized source span replacement] = .ok fixed ∧
      replaceIn? ⟨span, replacement⟩ source.toList = some fixed.toList ∧
      span.contains (minimized source span replacement).span = true ∧
      (minimized source span replacement).span.FitsIn source ∧
      ∀ edit, applyAll source [edit] = .ok fixed →
        (minimized source span replacement).size ≤ edit.size := by
  have trimmedFits := fitsIn_minimized replacement fits
  rcases exists_applyAll_singleton trimmedFits with ⟨fixed, applied, replaced⟩
  refine ⟨fixed, applied, replaceIn?_minimized replacement fits ▸ replaced, ?_, trimmedFits,
    fun _ sameEffect => size_minimized_le fits replaced sameEffect⟩
  rcases exists_minimized replacement fits with
    ⟨before, front, old, new, back, after, -, -, start, stop, trimmed, -, -⟩
  simp only [Text.byteSize_append] at stop
  simp only [trimmed, Span.contains, Text.byteSize_append, Bool.and_eq_true, decide_eq_true_eq]
  omega

/-- When a text repeats itself the front is trimmed first, and nothing is trimmed twice. -/
theorem minimized_repetition :
    Span.FitsIn ⟨2, 4⟩ "ñaa;" ∧ minimized "ñaa;" ⟨2, 4⟩ "aaa" = ⟨⟨4, 4⟩, "a"⟩ ∧
    applyAll "ñaa;" [⟨⟨4, 4⟩, "a"⟩] = .ok "ñaaa;" ∧
    ∀ edit, applyAll "ñaa;" [edit] = .ok "ñaaa;" → 1 ≤ edit.size := by
  have fits : Span.FitsIn ⟨2, 4⟩ "ñaa;" := by decide
  have trimmed : minimized "ñaa;" ⟨2, 4⟩ "aaa" = ⟨⟨4, 4⟩, "a"⟩ := by decide
  have effect : applyAll "ñaa;" [⟨⟨4, 4⟩, "a"⟩] = .ok "ñaaa;" := by decide +kernel
  rcases minimized_isSmallest "aaa" fits with ⟨fixed, applied, -, -, -, smallest⟩
  rw [trimmed] at applied smallest
  cases applied.symm.trans effect
  exact ⟨fits, trimmed, effect, smallest⟩

end TextEdit

end AssertionLint
