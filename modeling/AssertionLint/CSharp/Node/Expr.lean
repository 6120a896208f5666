import AssertionLint.CSharp.Node.View

/-!
# From concrete syntax to expressions and types

Turns nodes into the types and the expressions that analysis works on. A converted node keeps its
span. What a view calls `other` becomes an expression of which only the name of its form is known.
-/

namespace AssertionLint

/-- A node seen as a type. -/
inductive TypeView
  | predefined (keyword : String)
  | inferred
  | named (qualifier : Option Node) (name : String) (typeArguments : List Node)
  | array (element : Node) (rank : Nat)
  | nullable (inner : Node)
  | other

namespace TypeView

/-- The types that a type is made of. -/
def parts : TypeView → List Node
  | predefined _ | inferred | other => []
  | named qualifier _ typeArguments => qualifier.toList ++ typeArguments
  | array element _ => [element]
  | nullable inner => [inner]

end TypeView

namespace Node

/-- The type arguments of a name. -/
def typeArgumentNodes (node : Node) : List Node :=
  match node.childOfForm? .typeArgumentList with
  | some list => list.children.filter (·.form.isType)
  | none => []

/-- The word of a name. -/
def nameText (node : Node) : String :=
  match node.form with
  | .genericName => (node.children.findSome? word?).getD ""
  | _ => node.word?.getD ""

def typeView (node : Node) : TypeView :=
  match node.form, node.children with
  | .predefinedType keyword, _ => .predefined keyword
  | .identifier text, _ => if text == "var" then .inferred else .named none text []
  | .genericName, _ => .named none node.nameText node.typeArgumentNodes
  | .qualifiedName, [qualifier, _, member] =>
    .named (some qualifier) member.nameText member.typeArgumentNodes
  | .arrayType, [element, rank] =>
    .array element (1 + (rank.children.filter (·.isToken ",")).length)
  | .nullableType, [inner, _] => .nullable inner
  | _, _ => .other

theorem sizeOf_lt_of_mem_typeArgumentNodes {node argument : Node}
    (member : argument ∈ node.typeArgumentNodes) : sizeOf argument < sizeOf node := by
  unfold typeArgumentNodes at member
  split at member
  · next list found =>
    have outer := sizeOf_lt_of_mem_children (childOfForm?_mem found)
    have inner := sizeOf_lt_of_mem_children (List.mem_filter.1 member).1
    omega
  · simp at member

/-- Every type that a type is made of is smaller. -/
theorem sizeOf_lt_of_mem_typeParts {node part : Node} (member : part ∈ node.typeView.parts) :
    sizeOf part < sizeOf node := by
  unfold typeView at member
  split at member
  case h_2 => split at member <;> simp [TypeView.parts] at member
  case h_3 =>
    simp only [TypeView.parts, Option.toList_none, List.nil_append] at member
    exact sizeOf_lt_of_mem_typeArgumentNodes member
  case h_4 qualifier dot last form_eq children_eq =>
    simp only [TypeView.parts, Option.toList_some, List.singleton_append, List.mem_cons] at member
    rcases member with rfl | member
    · exact sizeOf_lt_of_mem_children (by simp [children_eq])
    · have inner := sizeOf_lt_of_mem_typeArgumentNodes member
      have outer : sizeOf last < sizeOf node := sizeOf_lt_of_mem_children (by simp [children_eq])
      omega
  case h_5 element rank form_eq children_eq =>
    simp only [TypeView.parts, List.mem_singleton] at member
    exact sizeOf_lt_of_mem_children (by simp [children_eq, member])
  case h_6 inner question form_eq children_eq =>
    simp only [TypeView.parts, List.mem_singleton] at member
    exact sizeOf_lt_of_mem_children (by simp [children_eq, member])
  all_goals simp [TypeView.parts] at member

def toType (source : String) (node : Node) : TypeExpr :=
  match _view_eq : node.typeView with
  | .predefined keyword => .predefined keyword node.span
  | .inferred => .inferred node.span
  | .named qualifier name typeArguments =>
    .named (qualifier.attach.map fun ⟨type, _⟩ => type.toType source) name
      (typeArguments.attach.map fun ⟨type, _⟩ => type.toType source) node.span
  | .array element rank => .array (element.toType source) rank node.span
  | .nullable inner => .nullable (inner.toType source) node.span
  | .other => .other (node.span.text source) node.span
termination_by sizeOf node
decreasing_by all_goals exact sizeOf_lt_of_mem_typeParts (by simp_all [TypeView.parts])

def toSimpleName (source : String) (node : Node) : SimpleName :=
  { identifier := node.nameText
    typeArguments :=
      if node.form == .genericName then
        some (node.typeArgumentNodes.map (·.toType source))
      else none
    span := node.span }

/-- The word in front of the expression of an argument. -/
def argumentModifier? (node : Node) : Option String :=
  (node.children.find? fun child =>
    child.isToken "ref" || child.isToken "out" || child.isToken "in").bind tokenText?

/-- An argument around its converted expression. -/
def toArgument (source : String) (view : ArgumentView) (expression : Expr) : Argument :=
  { name := view.node.argumentLabel?.map nameText
    modifier := view.node.argumentModifier?
    expression
    leading := (⟨view.leadingFrom, view.node.span.start⟩ : Span).text source
    trailing :=
      match view.trailingTo with
      | some stop => (⟨view.node.span.stop, stop⟩ : Span).text source
      | none => ""
    span := view.node.span }

theorem sizeOf_lt_of_mem_partArguments {node list : Node} {view : ArgumentView}
    (member : view ∈ list.arguments) (part : list ∈ node.view.parts) :
    sizeOf view.value < sizeOf node := by
  have outer := sizeOf_lt_of_mem_parts part
  have inner := sizeOf_lt_of_mem_arguments member
  omega

/-- A node as an expression. -/
def toExpr (source : String) (node : Node) : Expr :=
  match _view_eq : node.view with
  | .name => .name (node.toSimpleName source) node.span
  | .predefinedType keyword => .predefinedType keyword node.span
  | .memberAccess target member =>
    .memberAccess (target.toExpr source) (member.toSimpleName source) node.span
  | .invocation target arguments =>
    .invocation (target.toExpr source)
      ⟨arguments.arguments.attach.map fun ⟨view, _⟩ =>
        toArgument source view (view.value.toExpr source), arguments.span⟩ node.span
  | .binary operator left right =>
    .binary operator (left.toExpr source) (right.toExpr source) node.span
  | .unary operator operand => .unary operator (operand.toExpr source) node.span
  | .parenthesized inner => .parenthesized (inner.toExpr source) node.span
  | .literal written => .literal written node.span
  | .interpolatedString =>
    .literal ⟨.interpolatedString, node.span.text source⟩ node.span
  | .cast type operand => .cast (type.toType source) (operand.toExpr source) node.span
  | .conditional condition whenTrue whenFalse =>
    .conditional (condition.toExpr source) (whenTrue.toExpr source) (whenFalse.toExpr source)
      node.span
  | .objectCreation type arguments =>
    .objectCreation (type.toType source)
      (arguments.attach.map fun ⟨list, _⟩ =>
        ⟨list.arguments.attach.map fun ⟨view, _⟩ =>
          toArgument source view (view.value.toExpr source), list.span⟩) node.span
  | .arrayCreation elementType elements =>
    .arrayCreation (elementType.map (·.toType source))
      (elements.attach.map fun ⟨element, _⟩ => element.toExpr source) node.span
  | .typeOf type => .typeOf (type.toType source) node.span
  | .thisInstance => .thisInstance node.span
  | .lambda body => .lambda (body.attach.map fun ⟨inner, _⟩ => inner.toExpr source) node.span
  | .other form => .other form node.span
termination_by sizeOf node
decreasing_by
  all_goals first
    | exact sizeOf_lt_of_mem_partArguments ‹_› (by simp_all [ExprView.parts])
    | exact sizeOf_lt_of_mem_parts (by simp_all [ExprView.parts])

end Node

end AssertionLint
