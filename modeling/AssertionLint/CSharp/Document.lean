import AssertionLint.CSharp.Grammar.Declarations
import AssertionLint.CSharp.Node.Declared
import AssertionLint.Error

/-!
# Parsed documents

A document with its outermost expressions, in the order of the text, and its declarations.
-/

namespace AssertionLint

/-- What is known about a document after reading it. -/
structure ParsedDocument where
  tree : SyntaxTree
  declarations : Declarations
  deriving Inhabited

namespace RootExpression

def span (root : RootExpression) : Span := root.expression.span.getD ⟨0, 0⟩

/-- Outer expressions come in front of those inside them. -/
def notBehind (left right : RootExpression) : Bool :=
  left.span.start < right.span.start ||
    (left.span.start == right.span.start && right.span.stop ≤ left.span.stop)

end RootExpression

namespace ParsedDocument

/-- Reads the findings of a concrete syntax tree. -/
def ofNode (source : String) (node : Node) : ParsedDocument :=
  let items := node.outline source (.declaration none node.span)
  { tree := ⟨source, (items.filterMap OutlineItem.root?).mergeSort RootExpression.notBehind⟩
    declarations :=
      { node.declare source none "" Declarations.empty with
        bodies := items.filterMap OutlineItem.body?
        locals := items.filterMap OutlineItem.declared? } }

/-- The document as the grammar at hand parses it. -/
def ofSource (source : String) : ParsedDocument := ofNode source (Node.ofSource source)

/-- Reads the content of a file, or says why there is no text to read. -/
def ofFile (path : String) (content : Option ByteArray) : Except Error ParsedDocument :=
  let failed (cause : String) : Error := .withContext ("Failed to read " ++ path) cause
  match content with
  | none => .error (failed "No such file or directory (os error 2)")
  | some bytes =>
    match String.fromUTF8? bytes with
    | some source => .ok (ofSource source)
    | none => .error (failed "stream did not contain valid UTF-8")

end ParsedDocument

end AssertionLint
