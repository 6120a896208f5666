import AssertionLint.Binding.Member
import AssertionLint.Binding.Operation
import AssertionLint.Binding.Overload
import AssertionLint.Binding.Scope
import AssertionLint.SemanticModel

/-!
# Binding of expressions

One step of binding: what an expression is bound to, given a way to bind other expressions. The
step needs them for the operands, the target and the arguments of the expression, and for the
initializer of a local that it names. Whoever ties the knot decides whether bindings are remembered
and how deep they may nest.
-/

namespace AssertionLint

/-- The types of a document and a way to bind its expressions. -/
structure Binder (m : Type → Type) where
  table : TypeTable
  bind : Expr → m Bound

namespace TypeTable

/-- The scope of a position of the document for type names. -/
def scopeAt (table : TypeTable) (offset : Nat) : TypeScope := table.document.typeScopeAt offset

/-- A simple name that is neither a local nor a parameter: a member of a type around it, a type or
a namespace. -/
def bindOuterName (table : TypeTable) (scope : TypeScope) (name : SimpleName) : Bound :=
  let inside := scope.enclosing.findSome? fun index =>
    (table.member scope (table.selfType ⟨.document, index⟩) name none).known?
  match inside with
  | some bound => bound
  | none =>
    let type := table.resolve scope
      (.named none name.identifier (name.typeArguments.getD []) none)
    if !type.isUnknown then .typeReference type
    else if name.typeArguments.isNone && table.isNamespace name.identifier then
      .namespaceReference name.identifier
    else .unknown

/-- A type or a namespace with the given full name. -/
def bindInside (table : TypeTable) (scope : TypeScope) (path : String) (name : SimpleName)
    (otherwise : Bound) : Bound :=
  let typeArguments := table.writtenArguments scope name
  match table.find? (path ++ "." ++ name.identifier) typeArguments.length with
  | some id => .typeReference (table.symbolOf id typeArguments)
  | none => otherwise

/-- A name behind a dot. -/
def bindMember (table : TypeTable) (scope : TypeScope) (target : Bound) (name : SimpleName) :
    Bound :=
  match target with
  | .namespaceReference path =>
    let fullName := path ++ "." ++ name.identifier
    table.bindInside scope path name
      (if name.typeArguments.isNone && table.isNamespace fullName then .namespaceReference fullName
        else .unknown)
  | .typeReference type =>
    table.bindInside scope type.fullName name (table.member scope type name none)
  | .value type _ => table.member scope type name (some type)
  | .methods _ | .unknown => .unknown

/-- The current instance at a position of the document. -/
def bindInstance (table : TypeTable) (offset : Nat) : Bound :=
  match (table.document.enclosingTypes offset).head? with
  | some index => .ofType (table.selfType ⟨.document, index⟩)
  | none => .unknown

end TypeTable

namespace Binder

variable {m : Type → Type} [Monad m]

def knownType? (binder : Binder m) (expr : Expr) : m (Option TypeSymbol) := do
  pure (← binder.bind expr).knownType?

/-- An argument without a label. -/
def operandSlot (binder : Binder m) (expr : Expr) : m ArgumentSlot := do
  pure ⟨none, some expr, ← binder.knownType? expr⟩

def argumentSlot (binder : Binder m) (argument : Argument) : m ArgumentSlot := do
  pure ⟨argument.name, some argument.expression, ← binder.knownType? argument.expression⟩

/-- The type of a local: the written one, or else that of its initializer or of the elements of the
collection that it runs through. -/
def localType (binder : Binder m) (scope : TypeScope) (found : LocalDecl) : m TypeSymbol :=
  match found.type with
  | some type => pure (binder.table.resolve scope type)
  | none =>
    match found.value with
    | .none => pure .unknown
    | .initializer value => do pure ((← binder.bind value).type?.getD .unknown)
    | .elementOf collection => do
      match (← binder.bind collection).type? with
      | some type => pure (binder.table.elementType type)
      | none => pure .unknown

/-- A simple name: a local, else a parameter, else something declared outside of bodies. -/
def bindName (binder : Binder m) (offset : Nat) (name : SimpleName) : m Bound :=
  let table := binder.table
  let scope := table.scopeAt offset
  -- neither locals nor parameters take type arguments
  if name.typeArguments.isSome then pure (table.bindOuterName scope name)
  else
    match table.document.visibleLocal? name.identifier offset with
    | some found => do
      let type ← binder.localType scope found
      pure (.value type (some (.localVariable found.name type)))
    | none =>
      match table.document.visibleParameter? name.identifier offset with
      | some parameter =>
        let type := (parameter.type.map (table.resolve scope)).getD .unknown
        pure (.value type (some (.parameter parameter.name type)))
      | none => pure (table.bindOuterName scope name)

/-- A call. The name of an expression is a text. -/
def bindInvocation (binder : Binder m) (target : Expr) (arguments : List Argument) : m Bound := do
  match ← binder.bind target with
  | .methods group =>
    let slots ← arguments.mapM binder.argumentSlot
    match binder.table.resolveOverload? group slots with
    | some method => pure (.ofMethod method)
    | none => pure .unknown
  | .unknown =>
    match target with
    | .name name _ =>
      -- only where nothing of this name is declared
      if name.identifier = "nameof" then pure (.ofType (binder.table.special .string))
      else pure .unknown
    | _ => pure .unknown
  | _ => pure .unknown

/-- A call of a declared operator, if the operands have types that declare a fitting one. -/
def bindOperator? (binder : Binder m) (token : String) (operands : List Expr)
    (types : List TypeSymbol) : m (Option Bound) := do
  match binder.table.operatorMethods token types with
  | [] => pure none
  | candidates =>
    let slots ← operands.mapM binder.operandSlot
    pure ((binder.table.resolveAmong? candidates slots []).map .ofMethod)

/-- Two operands around an operator. -/
def bindBinary (binder : Binder m) (operator : BinaryOperator) (left right : Expr) : m Bound := do
  let leftType := (← binder.bind left).type?
  let rightType := (← binder.bind right).type?
  let declared ←
    match leftType, rightType with
    | some first, some second =>
      binder.bindOperator? operator.token [left, right] [first, second]
    | _, _ => pure none
  pure (declared.getD (.ofType? (binder.table.binaryType? operator leftType rightType)))

/-- An operand behind an operator. -/
def bindUnary (binder : Binder m) (operator : UnaryOperator) (operand : Expr) : m Bound := do
  match (← binder.bind operand).type? with
  | none => pure .unknown
  | some type =>
    let declared ← binder.bindOperator? operator.token [operand] [type]
    pure (declared.getD (.ofType? (binder.table.unaryType? operator type)))

/-- A choice between two expressions. -/
def bindConditional (binder : Binder m) (whenTrue whenFalse : Expr) : m Bound := do
  let first := (← binder.bind whenTrue).type?
  let second := (← binder.bind whenFalse).type?
  pure (.ofType? (binder.table.conditionalType? first second))

/-- An array without a written element type. -/
def bindElements (binder : Binder m) (elements : List Expr) : m Bound := do
  let typed ← elements.mapM fun element => do pure (element, ← binder.knownType? element)
  pure (.ofType? ((binder.table.commonType? typed).map .arrayOf))

/-- One step of binding an expression that starts at the given offset. -/
def bindStep (binder : Binder m) (offset : Nat) : Expr → m Bound
  | .name name _ => binder.bindName offset name
  | .predefinedType keyword _ =>
    pure (.typeReference (binder.table.resolve (binder.table.scopeAt offset)
      (.predefined keyword none)))
  | .memberAccess target name _ => do
    let bound ← binder.bind target
    pure (binder.table.bindMember (binder.table.scopeAt offset) bound name)
  | .invocation target arguments _ => binder.bindInvocation target arguments.arguments
  | .literal written _ => pure (.ofType? (binder.table.literalType? written))
  | .interpolatedString .. => pure (.ofType (binder.table.special .string))
  | .binary operator left right _ => binder.bindBinary operator left right
  | .unary operator operand _ => binder.bindUnary operator operand
  | .parenthesized inner _ => do
    match ← binder.bind inner with
    | .value type symbol => pure (.value type symbol)
    | _ => pure .unknown
  | .cast type _ _ | .objectCreation type _ _ =>
    pure (.ofType (binder.table.resolve (binder.table.scopeAt offset) type))
  | .conditional _ whenTrue whenFalse _ => binder.bindConditional whenTrue whenFalse
  | .arrayCreation (some type) _ _ =>
    pure (.ofType (.arrayOf (binder.table.resolve (binder.table.scopeAt offset) type)))
  | .arrayCreation none elements _ => binder.bindElements elements
  | .typeOf .. => pure (.ofType (binder.table.wellKnown "System.Type"))
  | .thisInstance _ => pure (binder.table.bindInstance offset)
  | .lambda .. | .other .. => pure .unknown

def toModel (binder : Binder m) : SemanticModel m where
  resolveMethod expr := do
    match (← binder.bind expr).symbol? with
    | some (.method method) => pure (some method)
    | _ => pure none
  symbolInfo expr := do pure (← binder.bind expr).symbol?
  typeOf := binder.knownType?
  classifyConversion expr destination := do
    match ← binder.knownType? expr with
    | some source => pure (binder.table.exprConversion expr source destination)
    | none => pure .none
  isDerivedFrom type fullName := pure (binder.table.isDerivedFrom type fullName)

end Binder

end AssertionLint
