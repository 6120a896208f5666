import AssertionLint.Binding.Binder
import AssertionLint.CSharp.Document
import AssertionLint.Reference.Surface

/-!
# Bindings of a document

The semantic model of a document. What an expression is bound to is remembered by its span, and
bindings nest only up to a fixed depth, which well-formed documents do not reach.
-/

namespace AssertionLint

/-- What has been bound so far. -/
structure Bindings where
  entries : List (Span × Bound) := []
  deriving Inhabited

namespace Bindings

/-- What the expression with the given span is bound to. -/
def find? (bindings : Bindings) (span : Span) : Option Bound :=
  (bindings.entries.find? fun entry => entry.1 == span).map (·.2)

/-- Remembers what an expression is bound to. -/
def insert (bindings : Bindings) (span : Span) (bound : Bound) : Bindings :=
  ⟨(span, bound) :: bindings.entries⟩

end Bindings

namespace TypeTable

/-- How deep bindings may nest. -/
def maxBindDepth : Nat := 256

/-- Binds an expression that may contain `depth` levels of others. An expression without a span
belongs to no document; beyond the depth only what is remembered is known. -/
def bindWithin (table : TypeTable) (depth : Nat) (expr : Expr) : StateM Bindings Bound :=
  match expr.span with
  | none => pure .unknown
  | some span => do
    match (← get).find? span with
    | some bound => pure bound
    | none =>
      match depth with
      | 0 => pure .unknown
      | depth + 1 =>
        -- remembered only afterwards: an expression that comes back to itself uses up the depth
        let bound ← (⟨table, table.bindWithin depth⟩ : Binder _).bindStep span.start expr
        modify fun bindings => bindings.insert span bound
        pure bound

/-- The semantic model over a table. -/
def model (table : TypeTable) : SemanticModel (StateM Bindings) :=
  (⟨table, table.bindWithin maxBindDepth⟩ : Binder _).toModel

/-- The size of a table and of what has been bound, as it is shown in traces. -/
def trace (table : TypeTable) (bindings : Bindings) : String :=
  "SourceSemanticModel \x7b types: " ++ toString table.document.types.length ++ ", bound: " ++
    toString bindings.entries.length ++ " \x7d"

end TypeTable

namespace ParsedDocument

def table (document : ParsedDocument) : TypeTable :=
  .ofDeclarations Reference.declarations document.declarations

def model (document : ParsedDocument) : SemanticModel (StateM Bindings) := document.table.model

end ParsedDocument

end AssertionLint
