import AssertionLint.Assertions.CallShape

/-!
# Constraint expressions

A constraint such as `Is.Not.Null & Has.Count.EqualTo(2)` is split at the operators `&` and `|`,
each operand is read as a chain of segments from the innermost to the outermost, and each chain is
split at the combinators `And`, `Or` and `With`. A part of a chain has an optional helper class,
prefixes, a root and suffixes, where the root is the first segment whose type is a constraint.
-/

namespace AssertionLint

/-- One part of a constraint. -/
structure ConstraintPart where
  /-- The segment that names a helper class, if the part starts with one. -/
  helper : Option Expr
  /-- The segments in front of the root. -/
  prefixes : List Expr
  /-- The first segment whose type is a constraint. -/
  root : Option Expr
  /-- The segments behind the root. -/
  suffixes : List Expr
  /-- The part has no root, or starts with something that is no helper class, member access, call
  or object creation. -/
  isUnknown : Bool
  deriving Inhabited

namespace ConstraintPart

/-- The name that a segment ends with. -/
def segmentName? : Expr → Option String
  | .objectCreation (.named _ name _ _) _ _ => some name
  | .objectCreation .. => none
  | segment => segment.trailingName?.map (·.identifier)

def segments (part : ConstraintPart) : List Expr :=
  part.helper.toList ++ part.prefixes ++ part.root.toList ++ part.suffixes

def helperName? (part : ConstraintPart) : Option String :=
  part.helper.bind fun segment => segment.asName?.map (·.identifier)

def prefixNames (part : ConstraintPart) : List String := part.prefixes.filterMap segmentName?

def suffixNames (part : ConstraintPart) : List String := part.suffixes.filterMap segmentName?

def rootName? (part : ConstraintPart) : Option String := part.root.bind segmentName?

def findPrefix? (part : ConstraintPart) (name : String) : Option Expr :=
  part.prefixes.find? fun segment => segmentName? segment == some name

def findSuffix? (part : ConstraintPart) (name : String) : Option Expr :=
  part.suffixes.find? fun segment => segmentName? segment == some name

/-- The root is applied to the actual value itself: all prefixes are `Not`. -/
def appliesToActual (part : ConstraintPart) : Bool :=
  part.prefixes.all fun segment => segmentName? segment == some "Not"

/-- The first argument of the root. -/
def expectedArgument? (part : ConstraintPart) : Option Expr :=
  match part.root with
  | some (.invocation _ list _) => list.arguments.head?.map (·.expression)
  | some (.objectCreation _ (some list) _) => list.arguments.head?.map (·.expression)
  | _ => none

end ConstraintPart

/-- A constraint, part by part. -/
structure ConstraintExpr where
  parts : List ConstraintPart
  deriving Inhabited

namespace ConstraintExpr

/-- The operands of the operators `&` and `|`, through parentheses, from left to right. -/
def operands : Expr → List Expr
  | .parenthesized inner _ => operands inner
  | .binary .bitwiseAnd left right _ => operands left ++ operands right
  | .binary .bitwiseOr left right _ => operands left ++ operands right
  | expr => [expr]

/-- The expression that the last member of a chain is taken from, where a call of a member counts
as one segment with the member. -/
def qualifier? : Expr → Option Expr
  | .invocation (.memberAccess target _ _) _ _ => some target
  | .memberAccess target _ _ => some target
  | _ => none

theorem sizeOf_lt_of_qualifier? {expr inner : Expr} (found : qualifier? expr = some inner) :
    sizeOf inner < sizeOf expr := by
  unfold qualifier? at found
  split at found
  · simp only [Option.some.injEq] at found
    subst found
    simp
    omega
  · simp only [Option.some.injEq] at found
    subst found
    simp
    omega
  · simp at found

/-- The segments of a chain from the innermost to the outermost. -/
def segments (expr : Expr) : List Expr :=
  match _found : qualifier? expr with
  | some inner => segments inner ++ [expr]
  | none => [expr]
termination_by sizeOf expr
decreasing_by exact sizeOf_lt_of_qualifier? ‹_›

/-- A segment is a member access that joins two parts. -/
def isCombinator : Expr → Bool
  | .memberAccess _ member _ => Names.combinators.contains member.identifier
  | _ => false

/-- Splits a chain at its combinators, which are left out. The last segment is never one. -/
def splitCombinators : List Expr → List (List Expr)
  | [] => [[]]
  | [segment] => [[segment]]
  | segment :: rest =>
    if isCombinator segment then
      [] :: splitCombinators rest
    else
      match splitCombinators rest with
      | [] => [[segment]]
      | part :: parts => (segment :: part) :: parts

/-- The chains of all parts, from left to right. -/
def chains (expr : Expr) : List (List Expr) :=
  (operands expr).flatMap fun operand => splitCombinators (segments operand)

variable {m : Type → Type} [Monad m]

/-- The segment is the simple name of a helper class. A name that nothing is known about counts. -/
def isHelper (model : SemanticModel m) (segment : Expr) : m Bool :=
  match segment.asName? with
  | some name =>
    if Names.helpers.contains name.identifier then do
      match ← model.symbolInfo segment with
      | some (.typeReference type) => pure (type.container == Names.frameworkNamespace)
      | some _ => pure false
      | none => pure true
    else
      pure false
  | none => pure false

/-- The type of the segment is a constraint. -/
def isConstraint (model : SemanticModel m) (segment : Expr) : m Bool := do
  match ← model.typeOf segment with
  | some type => model.isDerivedFrom type Names.constraintBase
  | none => pure false

/-- Splits segments into those in front of the first constraint and the rest. -/
def spanConstraint (model : SemanticModel m) : List Expr → m (List Expr × List Expr)
  | [] => pure ([], [])
  | segment :: rest => do
    if ← isConstraint model segment then
      pure ([], segment :: rest)
    else
      let (before, after) ← spanConstraint model rest
      pure (segment :: before, after)

/-- A part may start with a segment of this form. -/
def isKnownStart : Expr → Bool
  | .memberAccess .. | .invocation .. | .objectCreation .. => true
  | _ => false

/-- Reads the segments of one part. -/
def readPart (model : SemanticModel m) (segments : List Expr) : m ConstraintPart := do
  let (helper, rest) ←
    match segments with
    | [] => pure (none, [])
    | first :: others => do
      if ← isHelper model first then pure (some first, others) else pure (none, segments)
  let (prefixes, found) ← spanConstraint model rest
  let isKnown := helper.isSome || segments.head?.any isKnownStart
  match found with
  | [] => pure ⟨helper, prefixes, none, [], true⟩
  | root :: suffixes => pure ⟨helper, prefixes, some root, suffixes, !isKnown⟩

def readParts (model : SemanticModel m) : List (List Expr) → m (List ConstraintPart)
  | [] => pure []
  | chain :: rest => do
    let part ← readPart model chain
    let others ← readParts model rest
    pure (part :: others)

def read (model : SemanticModel m) (expr : Expr) : m ConstraintExpr := do
  pure ⟨← readParts model (chains expr)⟩

/-- Some part could not be understood. -/
def isUnknown (constraint : ConstraintExpr) : Bool := constraint.parts.any (·.isUnknown)

end ConstraintExpr

end AssertionLint
