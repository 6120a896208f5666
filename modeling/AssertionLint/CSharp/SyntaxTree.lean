import AssertionLint.CSharp.Expr

/-!
# Syntax trees

A document as analysis sees it: its text and the outermost expressions found in it.
-/

namespace AssertionLint

/-- An outermost expression of a statement, a declarator or an initializer. -/
structure RootExpression where
  expression : Expr
  /-- The expression stands inside the body of a method or something like it. -/
  inMethodBody : Bool
  /-- The statement around the expression is malformed. -/
  hasErrors : Bool
  deriving Inhabited

/-- The text of a document and its outermost expressions. -/
structure SyntaxTree where
  source : String
  roots : List RootExpression
  deriving Inhabited

namespace SyntaxTree

/-- Every call of the document with its root, outer calls before the calls inside them. -/
def invocations (tree : SyntaxTree) : List (Expr × RootExpression) :=
  tree.roots.flatMap fun root =>
    (root.expression.walk.filter Expr.isInvocation).map fun expr => (expr, root)

/-- The call with exactly this span and its root. -/
def findInvocation? (tree : SyntaxTree) (span : Span) : Option (Expr × RootExpression) :=
  tree.roots.findSome? fun root =>
    match root.expression.findBySpan? span with
    | some expr => if expr.isInvocation then some (expr, root) else none
    | none => none

end SyntaxTree

end AssertionLint
