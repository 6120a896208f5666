import AssertionLint.Error
import AssertionLint.Text.Span

/-!
# Text edits

An edit replaces the text of a span. `TextEdit.minimized` trims what the old and the new text
share at both ends, and `TextEdit.applyAll` applies a batch of edits from left to right, refusing
a batch whose edits reach into each other or do not fit the source.
-/

namespace AssertionLint

/-- Replaces the text covered by `span` with `replacement`. -/
structure TextEdit where
  span : Span
  replacement : String
  deriving DecidableEq, Repr, Inhabited

/-- The reason why a batch of edits cannot be applied. -/
inductive EditFault
  /-- The edit starts before the end of the edit applied before it. -/
  | overlapping (span : Span)
  /-- The text in front of the edit cannot be cut out of the source. -/
  | outOfRange (span : Span)
  /-- The text behind the last edit cannot be cut out of the source. -/
  | endOutOfRange (offset : Nat)
  deriving DecidableEq, Repr

/-- The text shown for a fault. -/
def EditFault.message : EditFault → String
  | overlapping span => s!"overlapping edit at {span.start}..{span.stop}"
  | outOfRange span => s!"edit span {span.start}..{span.stop} out of range"
  | endOutOfRange offset => s!"edit end {offset} out of range"

/-- A fault in a batch of edits as a failure of an entry point. -/
def EditFault.toError (fault : EditFault) : Error :=
  .invalidInput fault.message

namespace TextEdit

/-- Replaces the text of a span and leaves out what the old and the new text share at both ends. -/
def minimized (source : String) (span : Span) (replacement : String) : TextEdit :=
  let old := (span.text source).toList
  let new := replacement.toList
  let front := Text.sharedStart old new
  let oldRest := old.drop front.length
  let newRest := new.drop front.length
  let back := Text.sharedStart oldRest.reverse newRest.reverse
  { span :=
      { start := span.start + Text.byteSize front
        stop := span.start + Text.byteSize old - Text.byteSize back }
    replacement := String.ofList (newRest.take (newRest.length - back.length)) }

/-- The edit puts in what is already there. -/
def isNoop (edit : TextEdit) (source : String) : Bool :=
  edit.span.text source == edit.replacement

/-- Applies edits in list order to the source from the offset `cursor` on. -/
def splice (source : List Char) (cursor : Nat) : List TextEdit → Except EditFault (List Char)
  | [] =>
    match Text.slice? source cursor (Text.byteSize source) with
    | some rest => .ok rest
    | none => .error (.endOutOfRange cursor)
  | edit :: later =>
    if edit.span.start < cursor then
      .error (.overlapping edit.span)
    else
      match Text.slice? source cursor edit.span.start with
      | none => .error (.outOfRange edit.span)
      | some unchanged => do
        let rest ← splice source edit.span.stop later
        pure (unchanged ++ edit.replacement.toList ++ rest)

/-- Applies a batch of edits, whatever its order, unless two of them reach into each other. -/
def applyAll (source : String) (edits : List TextEdit) : Except EditFault String :=
  let sorted := edits.mergeSort fun left right => left.span.notAfter right.span
  (splice source.toList 0 sorted).map String.ofList

end TextEdit

end AssertionLint
