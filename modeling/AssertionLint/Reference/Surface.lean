import AssertionLint.Reference.Assertions
import AssertionLint.Reference.BaseLibrary

/-!
# The reference surface

Everything that a document can refer to without declaring it: the declarations of the base library
and of the assertion library, and their text.
-/

namespace AssertionLint.Reference

/-- The namespaces of the reference surface, library by library. -/
def libraries : List (List NamespaceStub) :=
  [[system, collections, genericCollections, linq], [constraints], [framework, legacy]]

/-- The declarations of the reference surface. -/
def declarations : Declarations :=
  libraries.flatten.foldl NamespaceStub.addTo Declarations.empty

/-- The lines of the reference surface; an empty line precedes each namespace and follows each
library but the last. -/
def lines : List String :=
  [""].intercalate (libraries.map fun library => library.flatMap fun stub => "" :: stub.lines)

/-- The text of the reference surface. -/
def text : String := String.join (lines.map (· ++ "\n"))

end AssertionLint.Reference
