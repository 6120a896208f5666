import AssertionLint.CSharp.Node

/-!
# Expressions in the concrete syntax

A view tells what kind of expression a node is and which parts of it are expressions in turn. Every
part that a view names is smaller than the node (`sizeOf_lt_of_mem_parts`), so functions that
follow views end.
-/

namespace AssertionLint

/-- An argument in a list with the ends of the text in front of it and behind it. -/
structure ArgumentView where
  node : Node
  value : Node
  /-- Where the text in front of the argument starts. -/
  leadingFrom : Nat
  /-- Where the text behind the argument ends, if something closes it. -/
  trailingTo : Option Nat

/-- A node seen as an expression. -/
inductive ExprView
  | name
  | predefinedType (keyword : String)
  | memberAccess (target member : Node)
  | invocation (target arguments : Node)
  | binary (operator : BinaryOperator) (left right : Node)
  | unary (operator : UnaryOperator) (operand : Node)
  | parenthesized (inner : Node)
  | literal (literal : Literal)
  | interpolatedString
  | cast (type operand : Node)
  | conditional (condition whenTrue whenFalse : Node)
  | objectCreation (type : Node) (arguments : Option Node)
  | arrayCreation (elementType : Option Node) (elements : List Node)
  | typeOf (type : Node)
  | thisInstance
  | lambda (body : Option Node)
  | other (form : String)

namespace ExprView

/-- The parts of a view that hold further expressions. -/
def parts : ExprView → List Node
  | name | predefinedType _ | literal _ | interpolatedString | typeOf _ | thisInstance | other _ =>
    []
  | memberAccess target _ => [target]
  | invocation target arguments => [target, arguments]
  | binary _ left right => [left, right]
  | unary _ operand => [operand]
  | parenthesized inner => [inner]
  | cast _ operand => [operand]
  | conditional condition whenTrue whenFalse => [condition, whenTrue, whenFalse]
  | objectCreation _ arguments => arguments.toList
  | arrayCreation _ elements => elements
  | lambda body => body.toList

end ExprView

namespace Node

/-- The elements of the initializer of a node. -/
def initializerElements (node : Node) : List Node :=
  match node.childOfForm? .initializer with
  | some initializer => initializer.namedChildren
  | none => []

def view (node : Node) : ExprView :=
  match node.form, node.children with
  | .identifier _, _ | .genericName, _ => .name
  | .predefinedType keyword, _ => .predefinedType keyword
  | .literal kind text, _ => .literal ⟨kind, text⟩
  | .interpolatedString, _ => .interpolatedString
  | .token "this", _ => .thisInstance
  | .parenthesized, [_, inner, _] =>
    if inner.form.isNamed then .parenthesized inner else .other node.form.expressionName
  | .memberAccess, [target, _, member] => .memberAccess target member
  | .invocation, [target, arguments] => .invocation target arguments
  | .binary, [left, operator, right] =>
    match operator.tokenText?.bind BinaryOperator.ofToken? with
    | some operator =>
      if left.form.isNamed && right.form.isNamed then .binary operator left right
      else .other node.form.expressionName
    | none => .other node.form.expressionName
  | .prefixUnary, [operator, operand] =>
    match operator.tokenText?.bind UnaryOperator.ofToken? with
    | some operator =>
      if operand.form.isNamed then .unary operator operand else .other node.form.expressionName
    | none => .other node.form.expressionName
  | .cast, [_, type, _, operand] => .cast type operand
  | .conditional, [condition, _, whenTrue, _, whenFalse] =>
    .conditional condition whenTrue whenFalse
  | .objectCreation, _ =>
    match node.child? .type with
    | some type => .objectCreation type (node.childOfForm? .argumentList)
    | none => .other node.form.expressionName
  | .arrayCreation, _ =>
    .arrayCreation ((node.childOfForm? .arrayType).bind (·.child? .type)) node.initializerElements
  | .implicitArrayCreation, _ => .arrayCreation none node.initializerElements
  | .typeOf, _ =>
    match node.children.find? (·.form.isType) with
    | some type => .typeOf type
    | none => .other node.form.expressionName
  | .lambda, _ => .lambda ((node.child? .body).filter (·.form != .block))
  | form, _ => .other form.expressionName

theorem child?_mem {node child : Node} {role : Role} (found : node.child? role = some child) :
    child ∈ node.children :=
  List.mem_of_find?_eq_some found

theorem childOfForm?_mem {node child : Node} {form : Form}
    (found : node.childOfForm? form = some child) : child ∈ node.children :=
  List.mem_of_find?_eq_some found

theorem sizeOf_lt_of_mem_initializerElements {node element : Node}
    (member : element ∈ node.initializerElements) : sizeOf element < sizeOf node := by
  unfold initializerElements at member
  split at member
  · next initializer found =>
    have outer := sizeOf_lt_of_mem_children (childOfForm?_mem found)
    have inner := sizeOf_lt_of_mem_children ((List.mem_filter.1 member).1)
    omega
  · simp at member

/-- What a view says about the node that it is a view of. -/
inductive HasView (node : Node) : ExprView → Prop
  | name : HasView node .name
  | predefinedType {keyword : String} : HasView node (.predefinedType keyword)
  | literal {literal : Literal} : HasView node (.literal literal)
  | interpolatedString : HasView node .interpolatedString
  | thisInstance : HasView node .thisInstance
  | parenthesized {opening inner closing : Node} (form_eq : node.form = .parenthesized)
      (children_eq : node.children = [opening, inner, closing]) :
      HasView node (.parenthesized inner)
  | memberAccess {target mark member : Node} (form_eq : node.form = .memberAccess)
      (children_eq : node.children = [target, mark, member]) :
      HasView node (.memberAccess target member)
  | invocation {target list : Node} (form_eq : node.form = .invocation)
      (children_eq : node.children = [target, list]) : HasView node (.invocation target list)
  | binary {operator : BinaryOperator} {left mark right : Node} (form_eq : node.form = .binary)
      (children_eq : node.children = [left, mark, right]) :
      HasView node (.binary operator left right)
  | unary {operator : UnaryOperator} {mark operand : Node} (form_eq : node.form = .prefixUnary)
      (children_eq : node.children = [mark, operand]) : HasView node (.unary operator operand)
  | cast {opening type closing operand : Node} (form_eq : node.form = .cast)
      (children_eq : node.children = [opening, type, closing, operand]) :
      HasView node (.cast type operand)
  | conditional {condition mark whenTrue colon whenFalse : Node}
      (form_eq : node.form = .conditional)
      (children_eq : node.children = [condition, mark, whenTrue, colon, whenFalse]) :
      HasView node (.conditional condition whenTrue whenFalse)
  | objectCreation {type : Node} (isType : node.child? .type = some type) :
      HasView node (.objectCreation type (node.childOfForm? .argumentList))
  | arrayCreation {type : Option Node} : HasView node (.arrayCreation type node.initializerElements)
  | typeOf {type : Node} : HasView node (.typeOf type)
  | lambda : HasView node (.lambda ((node.child? .body).filter (·.form != .block)))
  | other {form : String} : HasView node (.other form)

theorem hasView_view (node : Node) : node.HasView node.view := by
  unfold view
  split <;> (try split) <;> (try split) <;> constructor <;> assumption

theorem hasView_of_view_eq {node : Node} {view : ExprView} (view_eq : node.view = view) :
    node.HasView view :=
  view_eq ▸ node.hasView_view

/-- What a view names is a child of the node or an element of its initializer. -/
theorem mem_children_or_mem_initializerElements {node part : Node}
    (member : part ∈ node.view.parts) :
    part ∈ node.children ∨ part ∈ node.initializerElements := by
  have hasView := node.hasView_view
  generalize node.view = view at member hasView
  cases hasView with
  | objectCreation => exact .inl (childOfForm?_mem (Option.mem_toList.mp member))
  | arrayCreation => exact .inr member
  | lambda =>
    exact .inl (child?_mem (Option.eq_some_of_filter_eq_some (Option.mem_toList.mp member)))
  | parenthesized _ children_eq | memberAccess _ children_eq | invocation _ children_eq
  | binary _ children_eq | unary _ children_eq | cast _ children_eq
  | conditional _ children_eq =>
    refine .inl ?_
    rw [children_eq]
    grind [ExprView.parts]
  | _ => cases member

/-- Every part that a view names is smaller than the node. -/
theorem sizeOf_lt_of_mem_parts {node part : Node} (member : part ∈ node.view.parts) :
    sizeOf part < sizeOf node := by
  rcases mem_children_or_mem_initializerElements member with isChild | isElement
  · exact sizeOf_lt_of_mem_children isChild
  · exact sizeOf_lt_of_mem_initializerElements isElement

def argumentLabel? (node : Node) : Option Node := node.child? .name

/-- The expression of an argument: the last part that is neither a keyword nor its label. -/
def argumentValue? (node : Node) : Option Node :=
  (node.children.filter fun child => child.form.isNamed && child.role != some .name).getLast?

/-- The arguments of a list that have an expression. -/
def arguments (node : Node) : List ArgumentView :=
  go node.span.start node.children
where
  go (leadingFrom : Nat) : List Node → List ArgumentView
    | [] => []
    | child :: following =>
      if child.form == .argument then
        match child.argumentValue? with
        | some value =>
          ⟨child, value, leadingFrom, following.head?.map (·.span.start)⟩ ::
            go leadingFrom following
        -- an argument without an expression is dropped with the text around it
        | none => go leadingFrom following
      else go child.span.stop following

theorem argumentValue?_mem {node value : Node} (found : node.argumentValue? = some value) :
    value ∈ node.children :=
  (List.mem_filter.1 (List.mem_of_getLast? found)).1

theorem mem_arguments_go {nodes : List Node} {start : Nat} {view : ArgumentView}
    (member : view ∈ arguments.go start nodes) :
    view.node ∈ nodes ∧ view.node.argumentValue? = some view.value := by
  induction nodes generalizing start with
  | nil => simp [arguments.go] at member
  | cons child following ih =>
    unfold arguments.go at member
    split at member
    · split at member
      · rcases List.mem_cons.1 member with rfl | member
        · exact ⟨by simp, by assumption⟩
        · exact ⟨List.mem_cons_of_mem _ (ih member).1, (ih member).2⟩
      · exact ⟨List.mem_cons_of_mem _ (ih member).1, (ih member).2⟩
    · exact ⟨List.mem_cons_of_mem _ (ih member).1, (ih member).2⟩

/-- The expression of an argument is smaller than the list. -/
theorem sizeOf_lt_of_mem_arguments {node : Node} {view : ArgumentView}
    (member : view ∈ node.arguments) : sizeOf view.value < sizeOf node := by
  obtain ⟨inside, found⟩ := mem_arguments_go member
  have outer := sizeOf_lt_of_mem_children inside
  have inner := sizeOf_lt_of_mem_children (argumentValue?_mem found)
  omega

end Node

end AssertionLint
