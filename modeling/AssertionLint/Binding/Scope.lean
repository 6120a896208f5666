import AssertionLint.TypeTable.Resolve

/-!
# Scopes

What can be seen from a position of a document: the types around it, the locals declared in front
of it, and the parameters of the bodies around it.
-/

namespace AssertionLint

namespace Span

/-- An offset lies inside a span. -/
def encloses (span : Span) (offset : Nat) : Bool := span.start ≤ offset && offset < span.stop

end Span

namespace Declarations

/-- The bodies around an offset, in the order of their declaration. -/
def bodiesAround (declarations : Declarations) (offset : Nat) : List BodyScope :=
  declarations.bodies.filter (·.span.encloses offset)

/-- The scope of a position for type names. -/
def typeScopeAt (declarations : Declarations) (offset : Nat) : TypeScope :=
  let enclosing := declarations.enclosingTypes offset
  { origin := .document, enclosing
    path := ((enclosing.head?.bind fun index => declarations.types[index]?).map
      (·.enclosing)).getD ""
    typeParameters :=
      (declarations.bodiesAround offset).flatMap (·.typeParameters) ++
        declarations.typeParametersOf enclosing }

/-- The later of two locals, the second one if they become visible together. -/
def laterLocal (first : Option LocalDecl) (second : LocalDecl) : Option LocalDecl :=
  match first with
  | some first => if second.visibleFrom < first.visibleFrom then some first else some second
  | none => some second

/-- The local of the given name that a position sees: of several the one that became visible
last. -/
def visibleLocal? (declarations : Declarations) (name : String) (offset : Nat) :
    Option LocalDecl :=
  (declarations.locals.filter fun found =>
    found.name == name && found.scope.encloses offset && found.visibleFrom ≤ offset).foldl
      laterLocal none

/-- The parameter of the given name that a position sees: of several the one of the body that
starts last. -/
def visibleParameter? (declarations : Declarations) (name : String) (offset : Nat) :
    Option ParameterDecl :=
  ((declarations.bodiesAround offset).mergeSort fun left right =>
    right.span.start ≤ left.span.start).findSome? fun body =>
      body.parameters.find? (·.name == name)

end Declarations

end AssertionLint
