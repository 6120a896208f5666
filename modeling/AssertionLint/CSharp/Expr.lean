import AssertionLint.CSharp.Operator
import AssertionLint.Text.Span

/-!
# Expressions of C#

The expression model that analysis and fixes share. A node that was read from a document carries
the span it was read from; a node that a fix made up has no span. Trees are never changed in
place: a fix builds a new tree around the expressions it keeps.

`Expr.children` lists the direct sub-expressions in source order, `Expr.walk` all of them in
pre-order, and `Expr.findBySpan?` looks one up by its span without entering sub-trees whose span
does not contain it.
-/

namespace AssertionLint

/-- A type as it is written in a document. -/
inductive TypeExpr
  /-- A keyword type such as `int` or `string`. -/
  | predefined (keyword : String) (span : Option Span)
  /-- A type name with an optional qualifier and type arguments. -/
  | named (qualifier : Option TypeExpr) (name : String) (typeArguments : List TypeExpr)
      (span : Option Span)
  /-- An array type with `rank` dimensions. -/
  | array (element : TypeExpr) (rank : Nat) (span : Option Span)
  /-- A type followed by a question mark. -/
  | nullable (inner : TypeExpr) (span : Option Span)
  /-- The type `var`, which stands for the type of an initializer. -/
  | inferred (span : Option Span)
  /-- A tuple, a pointer or another form that analysis never looks into. -/
  | other (text : String) (span : Option Span)
  deriving Inhabited

namespace TypeExpr

def span : TypeExpr → Option Span
  | predefined _ span | named _ _ _ span | array _ _ span | nullable _ span | inferred span
  | other _ span => span

def withSpan (span : Option Span) : TypeExpr → TypeExpr
  | predefined keyword _ => predefined keyword span
  | named qualifier name typeArguments _ => named qualifier name typeArguments span
  | array element rank _ => array element rank span
  | nullable inner _ => nullable inner span
  | inferred _ => inferred span
  | other text _ => other text span

end TypeExpr

/-- An identifier with optional type arguments, such as `EqualTo` or `InstanceOf<T>`. -/
structure SimpleName where
  identifier : String
  typeArguments : Option (List TypeExpr)
  span : Option Span
  deriving Inhabited

namespace SimpleName

/-- A name without type arguments and without a place in a document. -/
def ofIdentifier (identifier : String) : SimpleName := ⟨identifier, none, none⟩

/-- The number of explicit type arguments. -/
def arity (name : SimpleName) : Nat := (name.typeArguments.getD []).length

end SimpleName

/-- The kinds of literals. -/
inductive LiteralKind
  | integer
  | real
  | string
  | verbatimString
  | rawString
  | interpolatedString
  | character
  | boolean
  | null
  | default
  deriving DecidableEq, Repr, Inhabited

namespace LiteralKind

def all : List LiteralKind :=
  [integer, real, string, verbatimString, rawString, interpolatedString, character, boolean, null,
    default]

def name : LiteralKind → String
  | integer => "Integer"
  | real => "Real"
  | string => "String"
  | verbatimString => "VerbatimString"
  | rawString => "RawString"
  | interpolatedString => "InterpolatedString"
  | character => "Character"
  | boolean => "Boolean"
  | null => "Null"
  | default => "Default"

def ofName? (text : String) : Option LiteralKind := all.find? fun kind => kind.name == text

/-- Literals of this kind have a value that is known without running the program. -/
def isConstant (kind : LiteralKind) : Bool := kind != .interpolatedString

end LiteralKind

/-- A literal exactly as it is written. -/
structure Literal where
  kind : LiteralKind
  text : String
  deriving DecidableEq, Repr, Inhabited

mutual

inductive Expr
  /-- A simple name. -/
  | name (name : SimpleName) (span : Option Span)
  /-- A keyword type in front of a dot, such as `string`. -/
  | predefinedType (keyword : String) (span : Option Span)
  /-- A member of an expression, a type or a namespace. -/
  | memberAccess (target : Expr) (member : SimpleName) (span : Option Span)
  /-- A call. -/
  | invocation (target : Expr) (arguments : ArgumentList) (span : Option Span)
  /-- Two operands around a binary operator. -/
  | binary (operator : BinaryOperator) (left right : Expr) (span : Option Span)
  /-- An operand behind a unary operator. -/
  | unary (operator : UnaryOperator) (operand : Expr) (span : Option Span)
  /-- An expression in parentheses. -/
  | parenthesized (inner : Expr) (span : Option Span)
  /-- A literal. -/
  | literal (literal : Literal) (span : Option Span)
  /-- A made-up interpolated string. -/
  | interpolatedString (verbatim : Bool) (parts : List InterpolationPart) (span : Option Span)
  /-- A conversion to a written type. -/
  | cast (type : TypeExpr) (operand : Expr) (span : Option Span)
  /-- A choice between two expressions. -/
  | conditional (condition whenTrue whenFalse : Expr) (span : Option Span)
  /-- A call of a constructor; the arguments may be missing before an initializer. -/
  | objectCreation (type : TypeExpr) (arguments : Option ArgumentList) (span : Option Span)
  /-- An array with listed elements, with or without an element type. -/
  | arrayCreation (elementType : Option TypeExpr) (elements : List Expr) (span : Option Span)
  /-- The type object of a written type. -/
  | typeOf (type : TypeExpr) (span : Option Span)
  /-- The current instance. -/
  | thisInstance (span : Option Span)
  /-- A lambda; only a body that is an expression is kept. -/
  | lambda (body : Option Expr) (span : Option Span)
  /-- Any other expression, known only by the name of its form. -/
  | other (form : String) (span : Option Span)

structure Argument where
  /-- The label in front of a named argument. -/
  name : Option String
  /-- One of `ref`, `out` and `in`. -/
  modifier : Option String
  expression : Expr
  /-- The source text between the preceding `(` or `,` and the argument. -/
  leading : String
  /-- The source text between the argument and the following `,` or `)`. -/
  trailing : String
  /-- The argument with its label and modifier. -/
  span : Option Span

structure ArgumentList where
  arguments : List Argument
  /-- From `(` to `)`, both included. -/
  span : Option Span

/-- A piece of a made-up interpolated string. -/
inductive InterpolationPart
  /-- Text in the escaped form of the string around it. -/
  | text (text : String)
  /-- An expression with its alignment and its format. -/
  | hole (expression : Expr) (alignment format : Option String)

end

instance : Inhabited Expr := ⟨.name default none⟩

instance : Inhabited Argument := ⟨⟨none, none, default, "", "", none⟩⟩

instance : Inhabited ArgumentList := ⟨⟨[], none⟩⟩

namespace Argument

/-- An argument without label, modifier, trivia and place. -/
def ofExpr (expression : Expr) : Argument := ⟨none, none, expression, "", "", none⟩

/-- The argument carries the given label. -/
def isNamed (argument : Argument) (name : String) : Bool := argument.name == some name

/-- Drops the label and keeps expression and trivia. -/
def withoutName (argument : Argument) : Argument :=
  if argument.name.isNone then argument else { argument with name := none, span := none }

/-- Replaces the expression and keeps label and trivia. -/
def withExpression (argument : Argument) (expression : Expr) : Argument :=
  { argument with expression := expression, span := none }

end Argument

namespace Expr

def span : Expr → Option Span
  | name _ span | predefinedType _ span | memberAccess _ _ span | invocation _ _ span
  | binary _ _ _ span | unary _ _ span | parenthesized _ span | literal _ span
  | interpolatedString _ _ span | cast _ _ span | conditional _ _ _ span
  | objectCreation _ _ span | arrayCreation _ _ span | typeOf _ span | thisInstance span
  | lambda _ span | other _ span => span

def withSpan (span : Option Span) : Expr → Expr
  | name simple _ => name simple span
  | predefinedType keyword _ => predefinedType keyword span
  | memberAccess target member _ => memberAccess target member span
  | invocation target arguments _ => invocation target arguments span
  | binary operator left right _ => binary operator left right span
  | unary operator operand _ => unary operator operand span
  | parenthesized inner _ => parenthesized inner span
  | literal written _ => literal written span
  | interpolatedString verbatim parts _ => interpolatedString verbatim parts span
  | cast type operand _ => cast type operand span
  | conditional condition whenTrue whenFalse _ => conditional condition whenTrue whenFalse span
  | objectCreation type arguments _ => objectCreation type arguments span
  | arrayCreation elementType elements _ => arrayCreation elementType elements span
  | typeOf type _ => typeOf type span
  | thisInstance _ => thisInstance span
  | lambda body _ => lambda body span
  | other form _ => other form span

/-- The expression was made up and stands nowhere in a document. -/
def isSynthesized (expr : Expr) : Bool := expr.span.isNone

/-- Strips any number of enclosing parentheses. -/
def unparenthesized : Expr → Expr
  | parenthesized inner _ => inner.unparenthesized
  | expr => expr

/-- Target and arguments of a call. -/
def asInvocation? : Expr → Option (Expr × ArgumentList)
  | invocation target arguments _ => some (target, arguments)
  | _ => none

/-- Target and name of a member access. -/
def asMemberAccess? : Expr → Option (Expr × SimpleName)
  | memberAccess target member _ => some (target, member)
  | _ => none

/-- The name that a simple name consists of. -/
def asName? : Expr → Option SimpleName
  | name simple _ => some simple
  | _ => none

def isInvocation (expr : Expr) : Bool := expr.asInvocation?.isSome

/-- The name that an expression ends with: its own, the accessed member or the called member. -/
def trailingName? : Expr → Option SimpleName
  | name simple _ => some simple
  | memberAccess _ member _ => some member
  | invocation target _ _ => target.trailingName?
  | _ => none

def isLiteral (kind : LiteralKind) : Expr → Bool
  | literal written _ => written.kind == kind
  | _ => false

/-- Primary expressions never need parentheses as an operand. -/
def isPrimary : Expr → Bool
  | name .. | predefinedType .. | memberAccess .. | invocation .. | parenthesized .. | literal ..
  | interpolatedString .. | objectCreation .. | arrayCreation .. | typeOf .. | thisInstance .. =>
    true
  | _ => false

/-- The direct sub-expressions in source order. -/
def children : Expr → List Expr
  | name .. | predefinedType .. | literal .. | typeOf .. | thisInstance .. | other .. => []
  | memberAccess target _ _ => [target]
  | invocation target arguments _ => target :: arguments.arguments.map (·.expression)
  | binary _ left right _ => [left, right]
  | unary _ operand _ => [operand]
  | parenthesized inner _ => [inner]
  | interpolatedString _ parts _ => parts.filterMap fun
    | .hole expression _ _ => some expression
    | .text _ => none
  | cast _ operand _ => [operand]
  | conditional condition whenTrue whenFalse _ => [condition, whenTrue, whenFalse]
  | objectCreation _ arguments _ =>
    match arguments with
    | some list => list.arguments.map (·.expression)
    | none => []
  | arrayCreation _ elements _ => elements
  | lambda body _ => body.toList

theorem sizeOf_argument_lt {argument : Argument} {list : ArgumentList}
    (member : argument ∈ list.arguments) :
    sizeOf argument.expression < sizeOf list := by
  have inside := List.sizeOf_lt_of_mem member
  rcases list with ⟨arguments, span⟩
  rcases argument with ⟨label, modifier, expression, leading, trailing, place⟩
  simp only [ArgumentList.mk.sizeOf_spec, Argument.mk.sizeOf_spec] at inside ⊢
  omega

/-- A sub-expression is smaller than the expression around it. -/
theorem sizeOf_lt_of_mem_children {expr child : Expr} (member : child ∈ expr.children) :
    sizeOf child < sizeOf expr := by
  cases expr with
  | name | predefinedType | literal | typeOf | thisInstance | other => simp [children] at member
  | memberAccess | unary | parenthesized | cast =>
    simp only [children, List.mem_singleton] at member
    subst member
    simp
    omega
  | binary | conditional =>
    simp only [children, List.mem_cons, List.not_mem_nil, or_false] at member
    rcases member with rfl | rfl | rfl <;> simp <;> omega
  | invocation target arguments span =>
    simp only [children, List.mem_cons, List.mem_map] at member
    rcases member with rfl | ⟨argument, argument_mem, rfl⟩
    · simp
      omega
    · have := sizeOf_argument_lt argument_mem
      simp
      omega
  | interpolatedString verbatim parts span =>
    simp only [children, List.mem_filterMap] at member
    obtain ⟨part, part_mem, equal⟩ := member
    have inside := List.sizeOf_lt_of_mem part_mem
    cases part with
    | text => simp at equal
    | hole expression alignment format =>
      simp only [Option.some.injEq] at equal
      subst equal
      simp only [InterpolationPart.hole.sizeOf_spec] at inside
      simp
      omega
  | objectCreation type arguments span =>
    cases arguments with
    | none => simp [children] at member
    | some list =>
      simp only [children, List.mem_map] at member
      obtain ⟨argument, argument_mem, rfl⟩ := member
      have := sizeOf_argument_lt argument_mem
      simp
      omega
  | arrayCreation elementType elements span =>
    have := List.sizeOf_lt_of_mem (show child ∈ elements from member)
    simp
    omega
  | lambda body span =>
    cases body with
    | none => simp [children] at member
    | some inner =>
      simp only [children, Option.toList_some, List.mem_singleton] at member
      subst member
      simp
      omega

/-- An expression and all its descendants in pre-order. -/
def walk (expr : Expr) : List Expr :=
  expr :: expr.children.attach.flatMap fun ⟨child, _⟩ => child.walk
termination_by sizeOf expr
decreasing_by exact sizeOf_lt_of_mem_children ‹_›

theorem walk_eq (expr : Expr) : expr.walk = expr :: expr.children.flatMap walk := by
  rw [walk]
  simp

/-- The expression itself or a descendant with exactly this span; a sub-tree that carries a span is
searched only if this span contains the one looked for. -/
def findBySpan? (expr : Expr) (wanted : Span) : Option Expr :=
  if expr.span = some wanted then
    some expr
  else if expr.span.all (·.contains wanted) then
    expr.children.attach.findSome? fun ⟨child, _⟩ => child.findBySpan? wanted
  else
    none
termination_by sizeOf expr
decreasing_by exact sizeOf_lt_of_mem_children ‹_›

end Expr

end AssertionLint
