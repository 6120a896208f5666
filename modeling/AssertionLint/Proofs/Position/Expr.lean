import AssertionLint.CSharp.Expr.Build
import AssertionLint.CSharp.Expr.Constant
import AssertionLint.CSharp.Expr.Render
import AssertionLint.Proofs.Position.Text
import AssertionLint.Proofs.Syntax.Search

/-!
# Expressions behind a text

An expression that was read behind a text is the same tree with other spans. Everything that does
not look at spans says the same of both, the search by span finds the same parts, and both are
written in the same way (`Expr.render_behind`), since what is copied from the source is the same
text.
-/

namespace AssertionLint

namespace TypeExpr

mutual

/-- The same type once a text stands in front of the source. -/
def behind (front : String) : TypeExpr → TypeExpr
  | predefined keyword span => predefined keyword (span.map (Span.behind front))
  | named qualifier name typeArguments span =>
    named (behindQualifier front qualifier) name (behindAll front typeArguments)
      (span.map (Span.behind front))
  | array element rank span => array (element.behind front) rank (span.map (Span.behind front))
  | nullable inner span => nullable (inner.behind front) (span.map (Span.behind front))
  | inferred span => inferred (span.map (Span.behind front))
  | other text span => other text (span.map (Span.behind front))

def behindQualifier (front : String) : Option TypeExpr → Option TypeExpr
  | none => none
  | some qualifier => some (qualifier.behind front)

def behindAll (front : String) : List TypeExpr → List TypeExpr
  | [] => []
  | type :: rest => type.behind front :: behindAll front rest

end

variable (front source : String)

@[simp]
theorem behindQualifier_eq_map (qualifier : Option TypeExpr) :
    behindQualifier front qualifier = qualifier.map (behind front) := by
  cases qualifier <;> rfl

@[simp]
theorem behindAll_eq_map (types : List TypeExpr) :
    behindAll front types = types.map (behind front) := by
  induction types with
  | nil => rfl
  | cons type rest ih => rw [behindAll, ih, List.map_cons]

end TypeExpr

theorem copyOr_behind (front source : String) (span : Option Span) (written : Unit → String) :
    copyOr (front ++ source) (span.map (Span.behind front)) written =
      copyOr source span written := by
  cases span with
  | none => rfl
  | some span => simp only [copyOr, Option.map_some, Option.bind_some, Span.textWithin?_behind]

mutual

@[simp]
theorem TypeExpr.render_behind (front source : String) (type : TypeExpr) :
    (type.behind front).render (front ++ source) = type.render source := by
  cases type with
  | predefined | inferred | other => exact copyOr_behind ..
  | named qualifier name typeArguments span =>
    rw [TypeExpr.behind, TypeExpr.render.eq_def, TypeExpr.render.eq_def]
    dsimp only
    rw [copyOr_behind, TypeExpr.renderQualifier_behind front source qualifier]
    cases typeArguments with
    | nil => rfl
    | cons first rest =>
      simp only [TypeExpr.behindAll, TypeExpr.render_behind front source first,
        TypeExpr.renderFollowing_behind front source rest]
  | array element rank span =>
    rw [TypeExpr.behind, TypeExpr.render, TypeExpr.render, copyOr_behind,
      TypeExpr.render_behind front source element]
  | nullable inner span =>
    rw [TypeExpr.behind, TypeExpr.render, TypeExpr.render, copyOr_behind,
      TypeExpr.render_behind front source inner]

theorem TypeExpr.renderQualifier_behind (front source : String) (qualifier : Option TypeExpr) :
    TypeExpr.renderQualifier (front ++ source) (TypeExpr.behindQualifier front qualifier) =
      TypeExpr.renderQualifier source qualifier := by
  cases qualifier with
  | none => rfl
  | some qualifier =>
    rw [TypeExpr.behindQualifier, TypeExpr.renderQualifier, TypeExpr.renderQualifier,
      TypeExpr.render_behind front source qualifier]

theorem TypeExpr.renderFollowing_behind (front source : String) (types : List TypeExpr) :
    TypeExpr.renderFollowing (front ++ source) (TypeExpr.behindAll front types) =
      TypeExpr.renderFollowing source types := by
  cases types with
  | nil => rfl
  | cons type rest =>
    rw [TypeExpr.behindAll, TypeExpr.renderFollowing, TypeExpr.renderFollowing,
      TypeExpr.render_behind front source type, TypeExpr.renderFollowing_behind front source rest]

end

theorem TypeExpr.renderArguments_behind (front source : String) (types : List TypeExpr) :
    TypeExpr.renderArguments (front ++ source) (types.map (TypeExpr.behind front)) =
      TypeExpr.renderArguments source types := by
  cases types with
  | nil => rfl
  | cons first rest =>
    rw [List.map_cons, TypeExpr.renderArguments, TypeExpr.renderArguments, TypeExpr.render_behind,
      ← TypeExpr.behindAll_eq_map, TypeExpr.renderFollowing_behind]

namespace SimpleName

/-- The same name once a text stands in front of the source. -/
def behind (front : String) (name : SimpleName) : SimpleName where
  identifier := name.identifier
  typeArguments := name.typeArguments.map (List.map (TypeExpr.behind front))
  span := name.span.map (Span.behind front)

variable (front source : String)

@[simp]
theorem identifier_behind (name : SimpleName) : (name.behind front).identifier = name.identifier :=
  rfl

@[simp]
theorem typeArguments_behind (name : SimpleName) :
    (name.behind front).typeArguments =
      name.typeArguments.map (List.map (TypeExpr.behind front)) := rfl

@[simp]
theorem span_behind (name : SimpleName) :
    (name.behind front).span = name.span.map (Span.behind front) := rfl

@[simp]
theorem behind_ofIdentifier (identifier : String) :
    (ofIdentifier identifier).behind front = ofIdentifier identifier := rfl

@[simp]
theorem render_behind (name : SimpleName) :
    (name.behind front).render (front ++ source) = name.render source := by
  rcases name with ⟨identifier, typeArguments, span⟩
  simp only [render, span_behind, copyOr_behind, identifier_behind, typeArguments_behind]
  cases typeArguments with
  | none => rfl
  | some typeArguments => simp only [Option.map_some, TypeExpr.renderArguments_behind]

end SimpleName

mutual

/-- The same expression once a text stands in front of the source. -/
def Expr.behind (front : String) : Expr → Expr
  | .name simple span => .name (simple.behind front) (span.map (Span.behind front))
  | .predefinedType keyword span => .predefinedType keyword (span.map (Span.behind front))
  | .memberAccess target member span =>
    .memberAccess (target.behind front) (member.behind front) (span.map (Span.behind front))
  | .invocation target arguments span =>
    .invocation (target.behind front) (arguments.behind front) (span.map (Span.behind front))
  | .binary operator left right span =>
    .binary operator (left.behind front) (right.behind front) (span.map (Span.behind front))
  | .unary operator operand span =>
    .unary operator (operand.behind front) (span.map (Span.behind front))
  | .parenthesized inner span => .parenthesized (inner.behind front) (span.map (Span.behind front))
  | .literal written span => .literal written (span.map (Span.behind front))
  | .interpolatedString verbatim parts span =>
    .interpolatedString verbatim (InterpolationPart.behindAll front parts)
      (span.map (Span.behind front))
  | .cast type operand span =>
    .cast (type.behind front) (operand.behind front) (span.map (Span.behind front))
  | .conditional condition whenTrue whenFalse span =>
    .conditional (condition.behind front) (whenTrue.behind front) (whenFalse.behind front)
      (span.map (Span.behind front))
  | .objectCreation type arguments span =>
    .objectCreation (type.behind front) (ArgumentList.behindOption front arguments)
      (span.map (Span.behind front))
  | .arrayCreation elementType elements span =>
    .arrayCreation (elementType.map (TypeExpr.behind front)) (Expr.behindAll front elements)
      (span.map (Span.behind front))
  | .typeOf type span => .typeOf (type.behind front) (span.map (Span.behind front))
  | .thisInstance span => .thisInstance (span.map (Span.behind front))
  | .lambda body span => .lambda (Expr.behindOption front body) (span.map (Span.behind front))
  | .other form span => .other form (span.map (Span.behind front))

def Expr.behindOption (front : String) : Option Expr → Option Expr
  | none => none
  | some expr => some (expr.behind front)

def Expr.behindAll (front : String) : List Expr → List Expr
  | [] => []
  | expr :: rest => expr.behind front :: Expr.behindAll front rest

/-- The same argument once a text stands in front of the source. -/
def Argument.behind (front : String) : Argument → Argument
  | ⟨name, modifier, expression, leading, trailing, span⟩ =>
    ⟨name, modifier, expression.behind front, leading, trailing, span.map (Span.behind front)⟩

def Argument.behindAll (front : String) : List Argument → List Argument
  | [] => []
  | argument :: rest => argument.behind front :: Argument.behindAll front rest

/-- The same argument list once a text stands in front of the source. -/
def ArgumentList.behind (front : String) : ArgumentList → ArgumentList
  | ⟨arguments, span⟩ => ⟨Argument.behindAll front arguments, span.map (Span.behind front)⟩

def ArgumentList.behindOption (front : String) : Option ArgumentList → Option ArgumentList
  | none => none
  | some list => some (list.behind front)

/-- The same piece once a text stands in front of the source. -/
def InterpolationPart.behind (front : String) : InterpolationPart → InterpolationPart
  | .text text => .text text
  | .hole expression alignment format => .hole (expression.behind front) alignment format

def InterpolationPart.behindAll (front : String) : List InterpolationPart → List InterpolationPart
  | [] => []
  | part :: rest => part.behind front :: InterpolationPart.behindAll front rest

end

section Lists

variable (front : String)

@[simp]
theorem Expr.behindOption_eq_map (expr : Option Expr) :
    Expr.behindOption front expr = expr.map (Expr.behind front) := by
  cases expr <;> rfl

@[simp]
theorem Expr.behindAll_eq_map (exprs : List Expr) :
    Expr.behindAll front exprs = exprs.map (Expr.behind front) := by
  induction exprs with
  | nil => rfl
  | cons expr rest ih => rw [Expr.behindAll, ih, List.map_cons]

@[simp]
theorem Argument.behindAll_eq_map (arguments : List Argument) :
    Argument.behindAll front arguments = arguments.map (Argument.behind front) := by
  induction arguments with
  | nil => rfl
  | cons argument rest ih => rw [Argument.behindAll, ih, List.map_cons]

@[simp]
theorem ArgumentList.behindOption_eq_map (list : Option ArgumentList) :
    ArgumentList.behindOption front list = list.map (ArgumentList.behind front) := by
  cases list <;> rfl

@[simp]
theorem InterpolationPart.behindAll_eq_map (parts : List InterpolationPart) :
    InterpolationPart.behindAll front parts = parts.map (InterpolationPart.behind front) := by
  induction parts with
  | nil => rfl
  | cons part rest ih => rw [InterpolationPart.behindAll, ih, List.map_cons]

@[simp]
theorem ArgumentList.arguments_behind (list : ArgumentList) :
    (list.behind front).arguments = list.arguments.map (Argument.behind front) := by
  rcases list with ⟨arguments, span⟩
  exact Argument.behindAll_eq_map front arguments

end Lists

namespace Argument

variable (front : String) (argument : Argument)

@[simp]
theorem name_behind : (argument.behind front).name = argument.name := by
  cases argument
  rfl

@[simp]
theorem expression_behind :
    (argument.behind front).expression = argument.expression.behind front := by
  cases argument
  rfl

@[simp]
theorem leading_behind : (argument.behind front).leading = argument.leading := by
  cases argument
  rfl

@[simp]
theorem trailing_behind : (argument.behind front).trailing = argument.trailing := by
  cases argument
  rfl

theorem behind_ofExpr (expr : Expr) :
    (ofExpr expr).behind front = ofExpr (expr.behind front) := rfl

theorem behind_withoutName :
    (argument.behind front).withoutName = argument.withoutName.behind front := by
  rcases argument with ⟨name, modifier, expression, leading, trailing, span⟩
  cases name <;> rfl

theorem behind_withExpression (expr : Expr) :
    (argument.behind front).withExpression (expr.behind front) =
      (argument.withExpression expr).behind front := by
  cases argument
  rfl

end Argument

namespace Expr

variable (front source : String) (expr : Expr)

@[simp]
theorem span_behind : (expr.behind front).span = expr.span.map (Span.behind front) := by
  cases expr <;> rfl

@[simp]
theorem unparenthesized_behind :
    (expr.behind front).unparenthesized = expr.unparenthesized.behind front := by
  induction expr using inductionOnChildren with
  | step expr ih =>
    cases expr with
    | parenthesized inner span => exact ih inner (by simp [children])
    | _ => rfl

@[simp]
theorem asInvocation?_behind :
    (expr.behind front).asInvocation? =
      expr.asInvocation?.map fun (target, list) => (target.behind front, list.behind front) := by
  cases expr <;> rfl

@[simp]
theorem isInvocation_behind : (expr.behind front).isInvocation = expr.isInvocation := by
  simp [isInvocation]

@[simp]
theorem asMemberAccess?_behind :
    (expr.behind front).asMemberAccess? =
      expr.asMemberAccess?.map fun (target, member) =>
        (target.behind front, member.behind front) := by
  cases expr <;> rfl

@[simp]
theorem asName?_behind :
    (expr.behind front).asName? = expr.asName?.map (SimpleName.behind front) := by
  cases expr <;> rfl

@[simp]
theorem trailingName?_behind :
    (expr.behind front).trailingName? = expr.trailingName?.map (SimpleName.behind front) := by
  induction expr using inductionOnChildren with
  | step expr ih =>
    cases expr with
    | invocation target arguments span => exact ih target (by simp [children])
    | _ => rfl

@[simp]
theorem isLiteral_behind (kind : LiteralKind) :
    (expr.behind front).isLiteral kind = expr.isLiteral kind := by
  cases expr <;> rfl

@[simp]
theorem isPrimary_behind : (expr.behind front).isPrimary = expr.isPrimary := by
  cases expr <;> rfl

@[simp]
theorem integerConstant?_behind : (expr.behind front).integerConstant? = expr.integerConstant? := by
  induction expr using inductionOnChildren with
  | step expr ih =>
    cases expr with
    | parenthesized inner span => exact ih inner (by simp [children])
    | unary operator operand span =>
      have same := ih operand (by simp [children])
      cases operator <;> simp [behind, integerConstant?, same]
    | _ => rfl

@[simp]
theorem children_behind :
    (expr.behind front).children = expr.children.map (behind front) := by
  cases expr with
  | objectCreation type arguments span => cases arguments <;> simp [behind, children]
  | lambda body span => cases body <;> rfl
  | interpolatedString verbatim parts span =>
    simp only [behind, children, InterpolationPart.behindAll_eq_map, List.filterMap_map,
      List.map_filterMap]
    congr 1
    funext part
    cases part <;> rfl
  | _ => simp [behind, children]

@[simp]
theorem walk_behind : (expr.behind front).walk = expr.walk.map (behind front) := by
  induction expr using inductionOnChildren with
  | step expr ih =>
    rw [walk_eq, walk_eq, children_behind, List.flatMap_map, List.map_cons, List.map_flatMap]
    congr 1
    exact List.flatMap_congr ih

/-- The search by span finds the same part. -/
@[simp]
theorem findBySpan?_behind (wanted : Span) :
    (expr.behind front).findBySpan? (wanted.behind front) =
      (expr.findBySpan? wanted).map (behind front) := by
  induction expr using inductionOnChildren with
  | step expr ih =>
    have here : (expr.behind front).span = some (wanted.behind front) ↔
        expr.span = some wanted := by
      simp
    have inside : (expr.behind front).span.all (·.contains (wanted.behind front)) =
        expr.span.all (·.contains wanted) := by
      cases spanIs : expr.span with
      | none => simp [spanIs]
      | some span => simp [spanIs]
    have below : ((expr.behind front).children.findSome? (·.findBySpan? (wanted.behind front))) =
        (expr.children.findSome? (·.findBySpan? wanted)).map (behind front) := by
      rw [children_behind]
      generalize expr.children = children at ih
      induction children with
      | nil => rfl
      | cons child rest rec =>
        rw [List.forall_mem_cons] at ih
        rw [List.map_cons, List.findSome?_cons, List.findSome?_cons, ih.1, rec ih.2]
        cases child.findBySpan? wanted <;> rfl
    rw [findBySpan?_eq, findBySpan?_eq, inside, below]
    simp only [here]
    split
    · rfl
    · split <;> rfl

end Expr

namespace Expr

variable (front : String)

@[simp]
theorem behind_identifier (text : String) : (identifier text).behind front = identifier text := rfl

@[simp]
theorem behind_member (target : Expr) (text : String) :
    (member target text).behind front = member (target.behind front) text := rfl

@[simp]
theorem behind_genericMember (target : Expr) (text : String) (typeArguments : List TypeExpr) :
    (genericMember target text typeArguments).behind front =
      genericMember (target.behind front) text (typeArguments.map (TypeExpr.behind front)) := rfl

@[simp]
theorem behind_dotted (path : List String) : (dotted path).behind front = dotted path := by
  have step (rest : List String) (start : Expr) :
      (rest.foldl member start).behind front = rest.foldl member (start.behind front) := by
    induction rest generalizing start with
    | nil => rfl
    | cons text rest ih => exact ih (member start text)
  cases path with
  | nil => rfl
  | cons first rest => exact step rest (identifier first)

@[simp]
theorem behind_call (target : Expr) (arguments : List Argument) :
    (call target arguments).behind front =
      call (target.behind front) (arguments.map (Argument.behind front)) := by
  cases arguments with
  | nil => rfl
  | cons first rest =>
    simp only [call, ArgumentList.ofArguments, behind, ArgumentList.behind,
      Argument.behindAll_eq_map, List.map_cons, List.map_map, Option.map_none]
    congr 3
    apply List.map_congr_left
    rintro ⟨name, modifier, expression, leading, trailing, span⟩ -
    simp only [Function.comp_apply]
    split <;> simp_all [Argument.behind]

@[simp]
theorem behind_inParentheses (inner : Expr) :
    (inParentheses inner).behind front = inParentheses (inner.behind front) := rfl

@[simp]
theorem behind_castTo (type : TypeExpr) (operand : Expr) :
    (castTo type operand).behind front = castTo (type.behind front) (operand.behind front) := by
  simp only [castTo, isPrimary_behind, behind, apply_ite (behind front), behind_inParentheses]
  rfl

@[simp]
theorem behind_stringLiteral (text : String) :
    (stringLiteral text).behind front = stringLiteral text := rfl

end Expr

mutual

@[simp]
theorem Expr.render_behind (front source : String) (expr : Expr) :
    (expr.behind front).render (front ++ source) = expr.render source := by
  cases expr with
  | predefinedType | literal | thisInstance | other => exact copyOr_behind ..
  | lambda body span =>
    rw [Expr.behind, Expr.render, Expr.render, copyOr_behind]
  | name simple span =>
    rw [Expr.behind, Expr.render, Expr.render, copyOr_behind, SimpleName.render_behind]
  | memberAccess target member span =>
    rw [Expr.behind, Expr.render, Expr.render, copyOr_behind,
      Expr.render_behind front source target, SimpleName.render_behind]
  | invocation target arguments span =>
    rw [Expr.behind, Expr.render, Expr.render, copyOr_behind,
      Expr.render_behind front source target, ArgumentList.render_behind front source arguments]
  | binary operator left right span =>
    rw [Expr.behind, Expr.render, Expr.render, copyOr_behind,
      Expr.render_behind front source left, Expr.render_behind front source right]
  | unary operator operand span =>
    rw [Expr.behind, Expr.render, Expr.render, copyOr_behind,
      Expr.render_behind front source operand]
  | parenthesized inner span =>
    rw [Expr.behind, Expr.render, Expr.render, copyOr_behind,
      Expr.render_behind front source inner]
  | interpolatedString verbatim parts span =>
    rw [Expr.behind, Expr.render, Expr.render, copyOr_behind,
      Expr.renderParts_behind front source parts]
  | cast type operand span =>
    rw [Expr.behind, Expr.render, Expr.render, copyOr_behind, TypeExpr.render_behind,
      Expr.render_behind front source operand]
  | conditional condition whenTrue whenFalse span =>
    rw [Expr.behind, Expr.render, Expr.render, copyOr_behind,
      Expr.render_behind front source condition, Expr.render_behind front source whenTrue,
      Expr.render_behind front source whenFalse]
  | objectCreation type arguments span =>
    rw [Expr.behind, Expr.render.eq_def, Expr.render.eq_def]
    dsimp only
    rw [copyOr_behind, TypeExpr.render_behind]
    cases arguments with
    | none => rfl
    | some list =>
      simp only [ArgumentList.behindOption, ArgumentList.render_behind front source list]
  | arrayCreation elementType elements span =>
    rw [Expr.behind, Expr.render.eq_def, Expr.render.eq_def]
    dsimp only
    rw [copyOr_behind]
    cases elements with
    | nil => cases elementType <;> simp [Expr.behindAll]
    | cons first rest =>
      have first_eq := Expr.render_behind front source first
      have rest_eq := Expr.renderFollowing_behind front source rest
      cases elementType <;> simp only [Expr.behindAll, Option.map_some, Option.map_none,
        TypeExpr.render_behind, first_eq, rest_eq]
  | typeOf type span =>
    rw [Expr.behind, Expr.render, Expr.render, copyOr_behind, TypeExpr.render_behind]

theorem Expr.renderFollowing_behind (front source : String) (exprs : List Expr) :
    Expr.renderFollowing (front ++ source) (Expr.behindAll front exprs) =
      Expr.renderFollowing source exprs := by
  cases exprs with
  | nil => rfl
  | cons expr rest =>
    rw [Expr.behindAll, Expr.renderFollowing, Expr.renderFollowing,
      Expr.render_behind front source expr, Expr.renderFollowing_behind front source rest]

theorem Argument.render_behind (front source : String) (argument : Argument) :
    (argument.behind front).render (front ++ source) = argument.render source := by
  rcases argument with ⟨name, modifier, expression, leading, trailing, span⟩
  rw [Argument.behind, Argument.render.eq_def, Argument.render.eq_def]
  dsimp only
  rw [copyOr_behind, Expr.render_behind front source expression]

theorem Argument.renderFollowing_behind (front source : String) (arguments : List Argument) :
    Argument.renderFollowing (front ++ source) (Argument.behindAll front arguments) =
      Argument.renderFollowing source arguments := by
  cases arguments with
  | nil => rfl
  | cons argument rest =>
    rw [Argument.behindAll, Argument.renderFollowing, Argument.renderFollowing,
      Argument.render_behind front source argument,
      Argument.renderFollowing_behind front source rest]

theorem ArgumentList.render_behind (front source : String) (list : ArgumentList) :
    (list.behind front).render (front ++ source) = list.render source := by
  rcases list with ⟨arguments, span⟩
  rw [ArgumentList.behind, ArgumentList.render.eq_def, ArgumentList.render.eq_def]
  dsimp only
  rw [copyOr_behind]
  cases arguments with
  | nil => rfl
  | cons first rest =>
    simp only [Argument.behindAll, Argument.render_behind front source first,
      Argument.renderFollowing_behind front source rest]

theorem Expr.renderParts_behind (front source : String) (parts : List InterpolationPart) :
    Expr.renderParts (front ++ source) (InterpolationPart.behindAll front parts) =
      Expr.renderParts source parts := by
  cases parts with
  | nil => rfl
  | cons part rest =>
    cases part with
    | text text =>
      rw [InterpolationPart.behindAll, InterpolationPart.behind, Expr.renderParts,
        Expr.renderParts, Expr.renderParts_behind front source rest]
    | hole expression alignment format =>
      rw [InterpolationPart.behindAll, InterpolationPart.behind, Expr.renderParts.eq_def,
        Expr.renderParts.eq_def]
      dsimp only
      rw [Expr.render_behind front source expression, Expr.renderParts_behind front source rest]

end

end AssertionLint
