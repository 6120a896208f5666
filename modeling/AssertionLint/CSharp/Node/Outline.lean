import AssertionLint.CSharp.Declarations
import AssertionLint.CSharp.Node.Expr
import AssertionLint.CSharp.SyntaxTree

/-!
# Outlines

Walks over the concrete syntax of a document and finds its outermost expressions, the bodies of
methods and lambdas, and the locals. An expression inside a form that analysis does not look into
is an outermost expression of its own; one that is part of a converted expression is not. Findings
come in the order in which the walk leaves what they were found in.
-/

namespace AssertionLint

/-- What the walk finds. -/
inductive OutlineItem
  | root (found : RootExpression)
  | body (scope : BodyScope)
  | declared (found : LocalDecl)

namespace OutlineItem

/-- The outermost expression of a finding. -/
def root? : OutlineItem → Option RootExpression
  | root found => some found
  | _ => none

/-- The body of a finding. -/
def body? : OutlineItem → Option BodyScope
  | body scope => some scope
  | _ => none

/-- The local of a finding. -/
def declared? : OutlineItem → Option LocalDecl
  | declared found => some found
  | _ => none

end OutlineItem

/-- What surrounds a statement or an expression. -/
structure Surroundings where
  inMethodBody : Bool
  hasErrors : Bool
  /-- The part of the document that sees the locals declared here. -/
  scope : Span

/-- How a node is searched. -/
inductive Region
  /-- A declaration; it is a member if a type, static or not, is around it. -/
  | declaration (owner : Option Bool) (around : Span)
  /-- The accessors of a member. -/
  | accessors (parameters : List ParameterDecl) (isStatic : Bool)
  /-- Something with a body of its own. -/
  | function (parameters : List ParameterDecl) (typeParameters : List String) (isStatic : Bool)
  | statement (around : Surroundings)
  /-- An expression that is the outermost one. -/
  | root (around : Surroundings)
  /-- An expression that is part of a converted one. -/
  | operand (around : Surroundings)
  /-- The inside of a form that analysis does not look into. -/
  | inside (around : Surroundings)

namespace Region

/-- A walk that stays at a node goes on to a region of a lower rank. -/
def rank : Region → Nat
  | declaration .. => 6
  | accessors .. => 5
  | statement _ => 4
  | function .. => 3
  | root _ => 2
  | operand _ => 1
  | inside _ => 0

end Region

namespace Node

/-- The modifiers, keywords and marks in front of a part. -/
def wordsBefore (node stop : Node) : List String :=
  (node.children.takeWhile fun child => child.span.start < stop.span.start).filterMap fun child =>
    match child.form with
    | .token text | .modifier text => some text
    | _ => none

/-- The name that a node declares. -/
def declaredName? (node : Node) : Option Node := node.child? .name

/-- The words in front of the name that a node declares. -/
def leadingWords (node : Node) : List String :=
  match node.declaredName? with
  | some name => node.wordsBefore name
  | none => []

def typeParameterNames (node : Node) : List String :=
  match node.childOfForm? .typeParameterList with
  | some list => list.children.filterMap fun parameter =>
    if parameter.form == .typeParameter then (parameter.child? .name).map nameText else none
  | none => []

/-- A parameter. Without a written type, any part that could be a type stands for it. -/
def toParameter? (source : String) (node : Node) : Option ParameterDecl := do
  let name ← node.child? .name
  let type := node.child? .type <|>
    node.children.find? fun child => child.form.isType && child.role != some .name
  let words := node.children.filterMap fun child =>
    match child.form with
    | .token text | .modifier text => some text
    | _ => none
  return { name := name.nameText
           type := type.map (·.toType source)
           isParams := words.contains "params"
           isThis := words.contains "this"
           isOptional := words.contains "=" }

/-- The parameters of a list. -/
def toParameters (source : String) (node : Node) : List ParameterDecl :=
  (node.children.filter (·.form == .parameter)).filterMap (·.toParameter? source)

def declaredParameters (source : String) (node : Node) : List ParameterDecl :=
  match node.child? .parameters with
  | some list => list.toParameters source
  | none => []

def lambdaParameters (source : String) (node : Node) : List ParameterDecl :=
  match node.child? .parameters with
  | some list =>
    match list.form with
    | .parameterList => list.toParameters source
    | .identifier text => [⟨text, none, false, false, false⟩]
    | _ => []
  | none => []

/-- The name of a declared variable: its own, or else the first name that its declarator shows. -/
def declaratorName? (node : Node) : Option String :=
  ((node.child? .name) <|> node.children.find? fun child =>
    match child.form with
    | .identifier _ => true
    | _ => false).map nameText

/-- The parts of a declarator behind the equals sign, each with the proof that it is a part. -/
def declaredValue? (node : Node) : Option { value // value ∈ node.children } :=
  ((node.children.attach.dropWhile fun ⟨child, _⟩ => !child.isToken "=").drop 1).find?
    fun ⟨child, _⟩ => child.form.isNamed

/-- A written type other than `var`. -/
def writtenType? (source : String) (node : Node) : Option TypeExpr :=
  (node.child? .type).bind fun type =>
    match type.toType source with
    | .inferred _ => none
    | written => some written

/-- An outermost expression, unless it is a name, a literal, a keyword type or `this`. -/
def rootItems (source : String) (around : Surroundings) (node : Node) : List OutlineItem :=
  match node.toExpr source with
  | .name .. | .literal .. | .predefinedType .. | .thisInstance .. => []
  | expression =>
    [.root ⟨expression, around.inMethodBody,
      around.hasErrors || node.hasError || node.hasMalformedArgument⟩]

/-- The local that a declarator introduces. -/
def localItems (source : String) (around : Surroundings) (type : Option TypeExpr)
    (declarator : Node) : List OutlineItem :=
  match declarator.declaratorName? with
  | none => []
  | some name =>
    let value :=
      match declarator.declaredValue? with
      | some ⟨value, _⟩ => LocalValue.initializer (value.toExpr source)
      | none => .none
    [.declared ⟨name, type, value, around.scope, declarator.span.stop⟩]

/-- The local that a loop over a collection introduces. -/
def loopItems (source : String) (node : Node) : List OutlineItem :=
  match node.child? .left with
  | some left =>
    match left.form with
    | .identifier text =>
      let value :=
        match node.child? .right with
        | some collection => LocalValue.elementOf (collection.toExpr source)
        | none => .none
      [.declared ⟨text, node.writtenType? source, value, node.span, left.span.stop⟩]
    | _ => []
  | none => []

/-- What surrounds the parts of a statement. -/
def surroundParts (around : Surroundings) (node : Node) : Surroundings :=
  { around with
    hasErrors := node.form == .error || around.hasErrors ||
      (node.form.isStatement && node.hasError)
    scope := if node.form.isScope then node.span else around.scope }

/-- The findings in a node, searched as a region of the given kind. -/
def outline (source : String) (region : Region) (node : Node) : List OutlineItem :=
  match _region_eq : region with
  | .inside around =>
    node.children.attach.flatMap fun ⟨child, _⟩ =>
      if child.form == .block then child.outline source (.statement around)
      else if child.form.isExpression then child.outline source (.root around)
      else child.outline source (.inside around)
  | .root around => node.rootItems source around ++ node.outline source (.operand around)
  | .operand around =>
    match _view_eq : node.view with
    | .interpolatedString | .other _ => node.outline source (.inside around)
    | .invocation target list =>
      target.outline source (.operand around) ++
        list.arguments.attach.flatMap fun ⟨view, _⟩ =>
          view.value.outline source (.operand around)
    | .objectCreation _ list =>
      (list.attach.toList.flatMap fun ⟨list, _⟩ => list.arguments.attach.flatMap fun ⟨view, _⟩ =>
        view.value.outline source (.operand around)) ++
        node.children.attach.flatMap fun ⟨child, _⟩ =>
          if child.form == .initializer then child.outline source (.inside around) else []
    | .lambda _ =>
      .body ⟨node.span, node.lambdaParameters source, [], false⟩ ::
        node.children.attach.flatMap fun ⟨child, _⟩ =>
          if child.role == some .body then
            let inner := { around with inMethodBody := true, scope := child.span }
            if child.form == .block then child.outline source (.statement inner)
            else child.outline source (.operand inner)
          else []
    | view => view.parts.attach.flatMap fun ⟨part, _⟩ => part.outline source (.operand around)
  | .statement around =>
    if node.form.isExpression then node.outline source (.root around)
    else
      let inner := node.surroundParts around
      match node.form with
      | .variableDeclaration =>
        let type := node.writtenType? source
        node.children.attach.flatMap fun ⟨declarator, _⟩ =>
          if declarator.form == .declarator then
            (match declarator.declaredValue? with
              | some ⟨value, _⟩ => value.outline source (.root inner)
              | none => []) ++ declarator.localItems source inner type
          else []
      | .foreachStatement =>
        (node.children.attach.flatMap fun ⟨child, _⟩ =>
          if child.role == some .right then child.outline source (.root inner) else []) ++
        node.loopItems source ++
        node.children.attach.flatMap fun ⟨child, _⟩ =>
          if child.role == some .body then
            child.outline source (.statement { inner with scope := node.span })
          else []
      | .localFunction =>
        node.outline source
          (.function (node.declaredParameters source) node.typeParameterNames false)
      | .attributeList => []
      | form =>
        if form.isType then []
        else node.children.attach.flatMap fun ⟨child, _⟩ =>
          child.outline source (.statement inner)
  | .function parameters typeParameters isStatic =>
    node.children.attach.flatMap fun ⟨child, _⟩ =>
      if child.role == some .body && child.form.isNamed then
        .body ⟨child.span, parameters, typeParameters, isStatic⟩ ::
          child.outline source (.statement ⟨true, false, child.span⟩)
      else []
  | .accessors parameters isStatic =>
    node.children.attach.flatMap fun ⟨child, _⟩ =>
      match child.form with
      | .accessorList => child.outline source (.accessors parameters isStatic)
      | .accessor => child.outline source (.function parameters [] isStatic)
      | .arrowClause =>
        .body ⟨child.span, parameters, [], isStatic⟩ ::
          child.outline source (.statement ⟨true, false, child.span⟩)
      | _ => []
  | .declaration owner span =>
    match node.form, owner with
    | .globalStatement, _ =>
      node.children.attach.flatMap fun ⟨child, _⟩ =>
        child.outline source (.statement ⟨true, node.hasError, span⟩)
    | .namespaceDeclaration, _ =>
      node.children.attach.flatMap fun ⟨child, _⟩ =>
        if child.role == some .body then child.outline source (.declaration none child.span)
        else []
    | .typeDeclaration kind, _ =>
      -- constants of an enumeration hold no calls
      if kind = .enum then []
      else node.children.attach.flatMap fun ⟨child, _⟩ =>
        if child.role == some .body then
          child.outline source
            (.declaration (some (node.leadingWords.contains "static")) child.span)
        else []
    | .declarationList, _ =>
      node.children.attach.flatMap fun ⟨child, _⟩ => child.outline source (.declaration owner span)
    | .methodDeclaration, some static =>
      node.outline source (.function (node.declaredParameters source) node.typeParameterNames
        (node.leadingWords.contains "static" || static))
    | .constructorDeclaration, some _ =>
      node.outline source (.function (node.declaredParameters source) []
        (node.leadingWords.contains "static"))
    | .operatorDeclaration, some _ | .conversionDeclaration, some _ =>
      node.outline source (.function (node.declaredParameters source) [] true)
    | .indexerDeclaration, some static =>
      node.outline source (.accessors (node.declaredParameters source) static)
    | .eventDeclaration, some _ => node.outline source (.accessors [] false)
    | .propertyDeclaration, some static =>
      let value : ParameterDecl :=
        ⟨"value", (node.child? .type).map (·.toType source), false, false, false⟩
      node.outline source (.accessors [value] (node.leadingWords.contains "static" || static)) ++
        node.children.attach.flatMap fun ⟨child, _⟩ =>
          if child.role == some .value && child.form != .arrowClause then
            child.outline source (.root ⟨false, node.hasError, node.span⟩)
          else []
    | .fieldDeclaration, some _ =>
      node.children.attach.flatMap fun ⟨declaration, _⟩ =>
        if declaration.form == .variableDeclaration then
          declaration.children.attach.flatMap fun ⟨declarator, _⟩ =>
            match declarator.declaredValue? with
            | some ⟨value, _⟩ => value.outline source (.root ⟨false, node.hasError, node.span⟩)
            | none => []
        else []
    | .error, _ =>
      node.children.attach.flatMap fun ⟨child, _⟩ =>
        child.outline source (.declaration owner node.span)
    | _, _ => []
termination_by 8 * sizeOf node + region.rank
decreasing_by
  all_goals simp only [Region.rank]
  all_goals first
    | omega
    | have inner := sizeOf_lt_of_mem_children ‹child ∈ node.children›
      omega
    | have inner := sizeOf_lt_of_mem_partArguments ‹view ∈ list.arguments›
        (show list ∈ node.view.parts by simp_all [ExprView.parts])
      omega
    | subst _view_eq
      have inner := sizeOf_lt_of_mem_parts ‹part ∈ node.view.parts›
      omega
    | have inner : sizeOf target < sizeOf node :=
        sizeOf_lt_of_mem_parts (by simp_all [ExprView.parts])
      omega
    | have outer := sizeOf_lt_of_mem_children ‹declarator ∈ node.children›
      have inner := sizeOf_lt_of_mem_children ‹value ∈ declarator.children›
      omega
    | have outermost := sizeOf_lt_of_mem_children ‹declaration ∈ node.children›
      have outer := sizeOf_lt_of_mem_children ‹declarator ∈ declaration.children›
      have inner := sizeOf_lt_of_mem_children ‹value ∈ declarator.children›
      omega

end Node

end AssertionLint
