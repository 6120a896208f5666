import AssertionLint.Text.Slice

/-!
# Spans

A span names a part of a document by two byte offsets. Nothing forces the offsets to be in order
or inside the document: a span whose text cannot be cut out covers the empty text.
-/

namespace AssertionLint

/-- A part of a document, from the byte offset `start` up to the byte offset `stop`. -/
structure Span where
  start : Nat
  stop : Nat
  deriving DecidableEq, Repr, Inhabited

namespace Span

/-- The number of bytes that a span covers. -/
def length (span : Span) : Nat := span.stop - span.start

/-- A span covers no byte. -/
def isEmpty (span : Span) : Bool := span.length == 0

/-- The second span lies entirely within the first. -/
def contains (outer inner : Span) : Bool :=
  outer.start ≤ inner.start && inner.stop ≤ outer.stop

/-- The two spans reach into each other. -/
def overlaps (left right : Span) : Bool :=
  left.start < right.stop && right.start < left.stop

/-- Spans are ordered by start and then by end. -/
def precedes (left right : Span) : Bool :=
  left.start < right.start || (left.start == right.start && left.stop < right.stop)

/-- The reflexive closure of `precedes`. -/
def notAfter (left right : Span) : Bool :=
  !right.precedes left

/-- The text that a span covers, empty if it cannot be cut out of the source. -/
def text (span : Span) (source : String) : String :=
  String.ofList ((Text.slice? source.toList span.start span.stop).getD [])

/-- The text of a span that does not end behind the source. -/
def textWithin? (span : Span) (source : String) : Option String :=
  if span.stop ≤ Text.byteSize source.toList then some (span.text source) else none

end Span

end AssertionLint
