import AssertionLint.CSharp.Node.Expr
import AssertionLint.Proofs.Position.Expr
import AssertionLint.Proofs.Position.Syntax

/-!
# Converted nodes behind a text

A node behind a text is seen as the same kind of expression or type, with parts behind the text, and
it is converted to the same expression behind the text (`Node.toExpr_behind`).
-/

namespace AssertionLint

/-- The same argument once a text stands in front of the source. -/
def ArgumentView.behind (front : String) (view : ArgumentView) : ArgumentView where
  node := view.node.behind front
  value := view.value.behind front
  leadingFrom := Text.behind front view.leadingFrom
  trailingTo := view.trailingTo.map (Text.behind front)

/-- The same view once a text stands in front of the source. -/
def ExprView.behind (front : String) : ExprView → ExprView
  | name => name
  | predefinedType keyword => predefinedType keyword
  | memberAccess target member => memberAccess (target.behind front) (member.behind front)
  | invocation target arguments => invocation (target.behind front) (arguments.behind front)
  | binary operator left right => binary operator (left.behind front) (right.behind front)
  | unary operator operand => unary operator (operand.behind front)
  | parenthesized inner => parenthesized (inner.behind front)
  | literal written => literal written
  | interpolatedString => interpolatedString
  | cast type operand => cast (type.behind front) (operand.behind front)
  | conditional condition whenTrue whenFalse =>
    conditional (condition.behind front) (whenTrue.behind front) (whenFalse.behind front)
  | objectCreation type arguments =>
    objectCreation (type.behind front) (arguments.map (Node.behind front))
  | arrayCreation elementType elements =>
    arrayCreation (elementType.map (Node.behind front)) (elements.map (Node.behind front))
  | typeOf type => typeOf (type.behind front)
  | thisInstance => thisInstance
  | lambda body => lambda (body.map (Node.behind front))
  | other form => other form

namespace Node

variable (front : String) (node : Node)

@[simp]
theorem tokenText?_behind : (node.behind front).tokenText? = node.tokenText? := by
  simp only [tokenText?, form_behind]

@[simp]
theorem word?_behind : (node.behind front).word? = node.word? := by
  simp only [word?, form_behind]

@[simp]
theorem child?_behind (role : Role) :
    (node.behind front).child? role = (node.child? role).map (behind front) := by
  simp only [child?, children_behind, List.find?_map, Function.comp_def, role_behind]

@[simp]
theorem childOfForm?_behind (form : Form) :
    (node.behind front).childOfForm? form = (node.childOfForm? form).map (behind front) := by
  simp only [childOfForm?, children_behind, List.find?_map, Function.comp_def, form_behind]

@[simp]
theorem namedChildren_behind :
    (node.behind front).namedChildren = node.namedChildren.map (behind front) := by
  simp [namedChildren, List.filter_map, Function.comp_def]

@[simp]
theorem hasError_behind : (node.behind front).hasError = node.hasError := by
  induction node using inductionOnChildren with
  | step node ih =>
    rw [hasError, hasError]
    simp only [form_behind, children_behind, List.any_subtype, List.unattach_attach]
    rw [any_behind ih]

@[simp]
theorem hasMalformedArgument_behind :
    (node.behind front).hasMalformedArgument = node.hasMalformedArgument := by
  induction node using inductionOnChildren with
  | step node ih =>
    rw [hasMalformedArgument, hasMalformedArgument]
    simp only [form_behind, children_behind, List.any_subtype, List.unattach_attach]
    rw [any_behind ih, any_behind fun child _ => isToken_behind front child "out",
      any_behind fun child _ => by rw [form_behind]]

@[simp]
theorem initializerElements_behind :
    (node.behind front).initializerElements = node.initializerElements.map (behind front) := by
  simp only [initializerElements, childOfForm?_behind]
  cases node.childOfForm? .initializer <;> simp

@[simp]
theorem view_behind : (node.behind front).view = node.view.behind front := by
  unfold view
  simp only [form_behind, children_behind, child?_behind, childOfForm?_behind,
    initializerElements_behind]
  generalize node.form = form
  generalize node.children = children
  cases form with
  | token text => split <;> simp_all [ExprView.behind]
  | parenthesized =>
    rcases children with _ | ⟨one, _ | ⟨two, _ | ⟨three, _ | ⟨four, rest⟩⟩⟩⟩
    all_goals try rfl
    simp only [List.map, form_behind]
    split <;> rfl
  | memberAccess =>
    rcases children with _ | ⟨one, _ | ⟨two, _ | ⟨three, _ | ⟨four, rest⟩⟩⟩⟩ <;> rfl
  | invocation =>
    rcases children with _ | ⟨one, _ | ⟨two, _ | ⟨three, rest⟩⟩⟩ <;> rfl
  | binary =>
    rcases children with _ | ⟨one, _ | ⟨two, _ | ⟨three, _ | ⟨four, rest⟩⟩⟩⟩
    all_goals try rfl
    simp only [List.map, form_behind, tokenText?_behind]
    cases two.tokenText?.bind BinaryOperator.ofToken? with
    | none => rfl
    | some operator =>
      dsimp only
      split <;> rfl
  | prefixUnary =>
    rcases children with _ | ⟨one, _ | ⟨two, _ | ⟨three, rest⟩⟩⟩
    all_goals try rfl
    simp only [List.map, form_behind, tokenText?_behind]
    cases one.tokenText?.bind UnaryOperator.ofToken? with
    | none => rfl
    | some operator =>
      dsimp only
      split <;> rfl
  | cast =>
    rcases children with _ | ⟨one, _ | ⟨two, _ | ⟨three, _ | ⟨four, _ | ⟨five, rest⟩⟩⟩⟩⟩ <;> rfl
  | conditional =>
    rcases children with
      _ | ⟨one, _ | ⟨two, _ | ⟨three, _ | ⟨four, _ | ⟨five, _ | ⟨six, rest⟩⟩⟩⟩⟩⟩ <;> rfl
  | objectCreation =>
    dsimp only
    cases node.child? .type <;> rfl
  | arrayCreation =>
    simp only [ExprView.behind, ExprView.arrayCreation.injEq, and_true]
    cases node.childOfForm? .arrayType <;> simp
  | typeOf =>
    simp only [List.find?_map, Function.comp_def, form_behind]
    cases children.find? (·.form.isType) <;> rfl
  | lambda =>
    simp only [ExprView.behind, Option.filter_map, Function.comp_def, form_behind]
  | _ => rfl

theorem argumentLabel?_behind :
    (node.behind front).argumentLabel? = node.argumentLabel?.map (behind front) :=
  child?_behind front node .name

@[simp]
theorem argumentValue?_behind :
    (node.behind front).argumentValue? = node.argumentValue?.map (behind front) := by
  simp [argumentValue?, List.filter_map, Function.comp_def]

@[simp]
theorem arguments_behind :
    (node.behind front).arguments = node.arguments.map (ArgumentView.behind front) := by
  have step (nodes : List Node) (leadingFrom : Nat) :
      arguments.go (Text.behind front leadingFrom) (nodes.map (behind front)) =
        (arguments.go leadingFrom nodes).map (ArgumentView.behind front) := by
    induction nodes generalizing leadingFrom with
    | nil => rfl
    | cons child following ih =>
      rw [List.map_cons, arguments.go, arguments.go, form_behind, argumentValue?_behind]
      split
      · cases child.argumentValue? with
        | none => exact ih leadingFrom
        | some value =>
          rw [Option.map_some, List.map_cons, ih leadingFrom]
          simp [ArgumentView.behind, Function.comp_def]
      · rw [span_behind]
        exact ih child.span.stop
  rw [arguments, arguments, children_behind, span_behind]
  exact step node.children node.span.start

end Node

namespace TypeView

/-- The same view once a text stands in front of the source. -/
def behind (front : String) : TypeView → TypeView
  | predefined keyword => predefined keyword
  | inferred => inferred
  | named qualifier name typeArguments =>
    named (qualifier.map (Node.behind front)) name (typeArguments.map (Node.behind front))
  | array element rank => array (element.behind front) rank
  | nullable inner => nullable (inner.behind front)
  | other => other

/-- The type that a view with the given place stands for. -/
def toType (source : String) (span : Span) : TypeView → TypeExpr
  | predefined keyword => .predefined keyword span
  | inferred => .inferred span
  | named qualifier name typeArguments =>
    .named (qualifier.map (·.toType source)) name (typeArguments.map (·.toType source)) span
  | array element rank => .array (element.toType source) rank span
  | nullable inner => .nullable (inner.toType source) span
  | other => .other (span.text source) span

end TypeView

namespace Node

variable (front source : String)

@[simp]
theorem typeArgumentNodes_behind (node : Node) :
    (node.behind front).typeArgumentNodes = node.typeArgumentNodes.map (behind front) := by
  simp only [typeArgumentNodes, childOfForm?_behind]
  cases node.childOfForm? .typeArgumentList with
  | none => rfl
  | some list => simp [List.filter_map, Function.comp_def]

@[simp]
theorem nameText_behind (node : Node) : (node.behind front).nameText = node.nameText := by
  simp only [nameText, form_behind, children_behind, List.findSome?_map, Function.comp_def,
    word?_behind]

@[simp]
theorem typeView_behind (node : Node) :
    (node.behind front).typeView = node.typeView.behind front := by
  unfold typeView
  simp only [form_behind, children_behind, nameText_behind, typeArgumentNodes_behind]
  generalize node.form = form
  generalize node.children = children
  cases form with
  | identifier text =>
    simp only
    split <;> rfl
  | qualifiedName =>
    rcases children with _ | ⟨one, _ | ⟨two, _ | ⟨three, _ | ⟨four, rest⟩⟩⟩⟩
    all_goals try rfl
    simp [TypeView.behind]
  | arrayType =>
    rcases children with _ | ⟨one, _ | ⟨two, _ | ⟨three, rest⟩⟩⟩
    all_goals try rfl
    simp [TypeView.behind, List.filter_map, Function.comp_def]
  | nullableType => rcases children with _ | ⟨one, _ | ⟨two, _ | ⟨three, rest⟩⟩⟩ <;> rfl
  | _ => rfl

theorem toType_eq (node : Node) :
    node.toType source = node.typeView.toType source node.span := by
  rw [toType]
  split <;> simp [*, TypeView.toType]

@[simp]
theorem toType_behind (node : Node) :
    (node.behind front).toType (front ++ source) = (node.toType source).behind front := by
  have ih : ∀ part ∈ node.typeView.parts,
      (part.behind front).toType (front ++ source) = (part.toType source).behind front :=
    fun part isPart => toType_behind part
  rw [toType_eq, toType_eq, typeView_behind, span_behind]
  cases viewIs : node.typeView with
  | named qualifier name typeArguments =>
    simp only [viewIs, TypeView.parts, List.mem_append, Option.mem_toList] at ih
    simp only [TypeView.behind, TypeView.toType, TypeExpr.behind, TypeExpr.behindQualifier_eq_map,
      TypeExpr.behindAll_eq_map, Option.map_map, List.map_map, Option.map_some]
    congr 1
    · exact Option.map_congr fun part isPart => ih part (.inl isPart)
    · exact List.map_congr_left fun part isPart => ih part (.inr isPart)
  | array element rank =>
    have element_eq := ih element (by simp [viewIs, TypeView.parts])
    simp [TypeView.behind, TypeView.toType, TypeExpr.behind, element_eq]
  | nullable inner =>
    have inner_eq := ih inner (by simp [viewIs, TypeView.parts])
    simp [TypeView.behind, TypeView.toType, TypeExpr.behind, inner_eq]
  | other => simp [TypeView.behind, TypeView.toType, TypeExpr.behind]
  | _ => rfl
termination_by sizeOf node
decreasing_by exact sizeOf_lt_of_mem_typeParts isPart

@[simp]
theorem toSimpleName_behind (node : Node) :
    (node.behind front).toSimpleName (front ++ source) =
      (node.toSimpleName source).behind front := by
  simp only [toSimpleName, SimpleName.behind, nameText_behind, form_behind, span_behind,
    typeArgumentNodes_behind, List.map_map, Function.comp_def, toType_behind]
  split <;> simp

theorem argumentModifier?_behind (node : Node) :
    (node.behind front).argumentModifier? = node.argumentModifier? := by
  simp only [argumentModifier?, children_behind, List.find?_map, Function.comp_def, isToken_behind,
    Option.bind_map, tokenText?_behind]

theorem toArgument_behind (view : ArgumentView) (expression : Expr) :
    toArgument (front ++ source) (view.behind front) (expression.behind front) =
      (toArgument source view expression).behind front := by
  rcases view with ⟨node, value, leadingFrom, trailingTo⟩
  simp only [toArgument, ArgumentView.behind, Argument.behind, argumentLabel?_behind,
    argumentModifier?_behind, span_behind, Option.map_map, Function.comp_def, nameText_behind]
  have behindAt (start stop : Nat) :
      (⟨Text.behind front start, Text.behind front stop⟩ : Span).text (front ++ source) =
        (⟨start, stop⟩ : Span).text source := Span.text_behind front source ⟨start, stop⟩
  cases trailingTo <;> simp [behindAt]

end Node

namespace ExprView

/-- The arguments of a list, converted. -/
def argumentList (source : String) (list : Node) : ArgumentList :=
  ⟨list.arguments.map fun view => Node.toArgument source view (view.value.toExpr source), list.span⟩

/-- The expression that a view with the given node stands for. -/
def toExpr (source : String) (node : Node) : ExprView → Expr
  | name => .name (node.toSimpleName source) node.span
  | predefinedType keyword => .predefinedType keyword node.span
  | memberAccess target member =>
    .memberAccess (target.toExpr source) (member.toSimpleName source) node.span
  | invocation target arguments =>
    .invocation (target.toExpr source) (argumentList source arguments) node.span
  | binary operator left right =>
    .binary operator (left.toExpr source) (right.toExpr source) node.span
  | unary operator operand => .unary operator (operand.toExpr source) node.span
  | parenthesized inner => .parenthesized (inner.toExpr source) node.span
  | literal written => .literal written node.span
  | interpolatedString => .literal ⟨.interpolatedString, node.span.text source⟩ node.span
  | cast type operand => .cast (type.toType source) (operand.toExpr source) node.span
  | conditional condition whenTrue whenFalse =>
    .conditional (condition.toExpr source) (whenTrue.toExpr source) (whenFalse.toExpr source)
      node.span
  | objectCreation type arguments =>
    .objectCreation (type.toType source) (arguments.map (argumentList source)) node.span
  | arrayCreation elementType elements =>
    .arrayCreation (elementType.map (·.toType source)) (elements.map (·.toExpr source)) node.span
  | typeOf type => .typeOf (type.toType source) node.span
  | thisInstance => .thisInstance node.span
  | lambda body => .lambda (body.map (·.toExpr source)) node.span
  | other form => .other form node.span

end ExprView

namespace Node

variable (front source : String)

theorem toExpr_eq (node : Node) : node.toExpr source = node.view.toExpr source node := by
  rw [toExpr]
  split <;> simp [*, ExprView.toExpr, funext (ExprView.argumentList.eq_def source)]

/-- A node behind a text is converted to the same expression behind the text. -/
@[simp]
theorem toExpr_behind (node : Node) :
    (node.behind front).toExpr (front ++ source) = (node.toExpr source).behind front := by
  have ih : ∀ part ∈ node.view.parts,
      (part.behind front).toExpr (front ++ source) = (part.toExpr source).behind front :=
    fun part isPart => toExpr_behind part
  have lists : ∀ list ∈ node.view.parts,
      ExprView.argumentList (front ++ source) (list.behind front) =
        (ExprView.argumentList source list).behind front := by
    intro list isPart
    simp only [ExprView.argumentList, ArgumentList.behind, arguments_behind, span_behind,
      Argument.behindAll_eq_map, List.map_map, Option.map_some]
    congr 1
    apply List.map_congr_left
    intro view isView
    rw [Function.comp_apply, Function.comp_apply, ← toArgument_behind]
    congr 1
    exact toExpr_behind view.value
  rw [toExpr_eq, toExpr_eq, view_behind]
  cases viewIs : node.view with
  | objectCreation type arguments =>
    simp only [viewIs, ExprView.parts, Option.mem_toList] at lists
    simp only [ExprView.behind, ExprView.toExpr, Expr.behind, ArgumentList.behindOption_eq_map,
      toType_behind, span_behind, Option.map_map, Option.map_some]
    congr 1
    exact Option.map_congr lists
  | arrayCreation elementType elements =>
    simp only [viewIs, ExprView.parts] at ih
    simp only [ExprView.behind, ExprView.toExpr, Expr.behind, Expr.behindAll_eq_map, span_behind,
      Option.map_map, List.map_map, Option.map_some]
    congr 1
    · exact Option.map_congr fun type _ => toType_behind front source type
    · exact List.map_congr_left ih
  | lambda body =>
    simp only [viewIs, ExprView.parts, Option.mem_toList] at ih
    simp only [ExprView.behind, ExprView.toExpr, Expr.behind, Expr.behindOption_eq_map, span_behind,
      Option.map_map, Option.map_some]
    congr 1
    exact Option.map_congr ih
  | _ =>
    simp only [viewIs, ExprView.parts, List.forall_mem_cons] at ih lists
    simp [ExprView.behind, ExprView.toExpr, Expr.behind, ih, lists]
termination_by sizeOf node
decreasing_by
  · exact sizeOf_lt_of_mem_parts isPart
  · exact sizeOf_lt_of_mem_partArguments isView isPart

end Node

end AssertionLint
