import AssertionLint.Binding.Document
import AssertionLint.Proofs.Position.Document
import AssertionLint.Proofs.Position.Overload

/-!
# Bindings behind a text

A document is bound twice, once on its own and once behind a text. Whatever is remembered for an
expression is remembered behind the text for the expression that has moved, so the two runs stay in
step (`Moves`), and the models of the two documents give the same answers
(`TypeTable.moves_model`).
-/

namespace AssertionLint

variable (front : String)

namespace TypeTable

variable (table : TypeTable)

@[simp]
theorem scopeAt_behind (offset : Nat) :
    (table.behind front).scopeAt (Text.behind front offset) = table.scopeAt offset := by
  simp [scopeAt]

@[simp]
theorem bindOuterName_behind (scope : TypeScope) (name : SimpleName) :
    (table.behind front).bindOuterName scope (name.behind front) =
      (table.bindOuterName scope name).behind front := by
  have inside : (scope.enclosing.findSome? fun index =>
        ((table.behind front).member scope ((table.behind front).selfType ⟨.document, index⟩)
          (name.behind front) none).known?) =
      (scope.enclosing.findSome? fun index =>
        (table.member scope (table.selfType ⟨.document, index⟩) name none).known?).map
          (Bound.behind front) := by
    simp [List.map_findSome?, Function.comp_def]
  have outside : (table.behind front).resolve scope (.named none name.identifier
        ((name.typeArguments.map (List.map (TypeExpr.behind front))).getD []) none) =
      table.resolve scope (.named none name.identifier (name.typeArguments.getD []) none) := by
    rw [resolve_behind, ← resolve_typeBehind front table scope
      (.named none name.identifier (name.typeArguments.getD []) none)]
    cases name.typeArguments <;> simp [TypeExpr.behind]
  simp only [bindOuterName, inside, SimpleName.identifier_behind, SimpleName.typeArguments_behind,
    outside, Option.isNone_map, isNamespace_behind]
  cases scope.enclosing.findSome? fun index =>
      (table.member scope (table.selfType ⟨.document, index⟩) name none).known? with
  | some bound => rfl
  | none => simp only [Option.map_none]; split_ifs <;> rfl

@[simp]
theorem bindInside_behind (scope : TypeScope) (path : String) (name : SimpleName)
    (otherwise : Bound) :
    (table.behind front).bindInside scope path (name.behind front) (otherwise.behind front) =
      (table.bindInside scope path name otherwise).behind front := by
  simp only [bindInside, writtenArguments_behind, SimpleName.identifier_behind, find?_behind,
    symbolOf_behind]
  split <;> rfl

@[simp]
theorem bindMember_behind (scope : TypeScope) (target : Bound) (name : SimpleName) :
    (table.behind front).bindMember scope (target.behind front) (name.behind front) =
      (table.bindMember scope target name).behind front := by
  cases target with
  | value type symbol => simp [bindMember]
  | typeReference type => simp [bindMember]
  | namespaceReference path =>
    simp only [bindMember, Bound.behind_namespaceReference, SimpleName.identifier_behind,
      SimpleName.typeArguments_behind, Option.isNone_map, isNamespace_behind, ← bindInside_behind]
    congr 1
    split <;> rfl
  | methods group => rfl
  | unknown => rfl

@[simp]
theorem bindInstance_behind (offset : Nat) :
    (table.behind front).bindInstance (Text.behind front offset) =
      (table.bindInstance offset).behind front := by
  simp only [bindInstance, behind_document, Declarations.enclosingTypes_behind, selfType_behind]
  split <;> rfl

end TypeTable

/-- What has been bound, once a text stands in front of the source. -/
@[simps]
def Bindings.behind (bindings : Bindings) : Bindings where
  entries := bindings.entries.map (Prod.map (Span.behind front) (Bound.behind front))

namespace Bindings

variable (bindings : Bindings)

@[simp]
theorem find?_behind (span : Span) :
    (bindings.behind front).find? (span.behind front) =
      (bindings.find? span).map (Bound.behind front) := by
  simp [find?, List.find?_map, Function.comp_def]

@[simp]
theorem insert_behind (span : Span) (bound : Bound) :
    (bindings.behind front).insert (span.behind front) (bound.behind front) =
      (bindings.insert span bound).behind front :=
  rfl

@[simp]
theorem behind_nil : ({} : Bindings).behind front = {} := rfl

end Bindings

/-- A run behind a text remembers and gives what the run without the text does, moved. -/
def Moves {α β : Type} (move : α → β) (one : StateM Bindings α) (other : StateM Bindings β) :
    Prop :=
  ∀ bindings : Bindings,
    other.run (bindings.behind front) = Prod.map move (Bindings.behind front) (one.run bindings)

namespace Moves

variable {front} {α β γ δ : Type} {move : α → β} {carry : γ → δ}

theorem pure {result : α} {other : β} (same : other = move result) :
    Moves front move (Pure.pure result) (Pure.pure other) := by
  subst same
  intro bindings
  rfl

theorem bind {first : StateM Bindings α} {other : StateM Bindings β}
    {next : α → StateM Bindings γ} {rest : β → StateM Bindings δ}
    (start : Moves front move first other)
    (step : ∀ result, Moves front carry (next result) (rest (move result))) :
    Moves front carry (first >>= next) (other >>= rest) := by
  intro bindings
  simp only [StateT.run_bind, start bindings]
  exact step _ _

theorem get : Moves front (Bindings.behind front) MonadState.get MonadState.get := fun _ => rfl

theorem modify {change change' : Bindings → Bindings}
    (same : ∀ bindings, change' (bindings.behind front) = (change bindings).behind front) :
    Moves front id (modify change : StateM Bindings Unit) (modify change') := by
  intro bindings
  change ((), change' (bindings.behind front)) = ((), (change bindings).behind front)
  rw [same]

theorem ite {condition : Prop} [Decidable condition] {yes no : StateM Bindings α}
    {yes' no' : StateM Bindings β} (whenTrue : Moves front move yes yes')
    (whenFalse : Moves front move no no') :
    Moves front move (if condition then yes else no) (if condition then yes' else no') := by
  split
  · exact whenTrue
  · exact whenFalse

theorem mapM {move : γ → δ} {items : List α} (carry : α → β) {next : α → StateM Bindings γ}
    {rest : β → StateM Bindings δ}
    (each : ∀ item ∈ items, Moves front move (next item) (rest (carry item))) :
    Moves front (List.map move) (items.mapM next) ((items.map carry).mapM rest) := by
  rw [← List.mapM'_eq_mapM, ← List.mapM'_eq_mapM]
  induction items with
  | nil => exact .pure rfl
  | cons item items ih =>
    refine (each item List.mem_cons_self).bind fun first => ?_
    exact (ih fun other member => each other (List.mem_cons_of_mem _ member)).bind
      fun _ => .pure rfl

end Moves

/-- Two binders of one document, the second one of the document behind a text. -/
structure Binder.MovesTo (one other : Binder (StateM Bindings)) : Prop where
  table : other.table = one.table.behind front
  bind : ∀ expr, Moves front (Bound.behind front) (one.bind expr)
    (other.bind (expr.behind front))

namespace Binder.MovesTo

variable {front} {one other : Binder (StateM Bindings)} (moves : Binder.MovesTo front one other)

include moves

theorem knownType? (expr : Expr) :
    Moves front id (one.knownType? expr) (other.knownType? (expr.behind front)) :=
  (moves.bind expr).bind fun _ => .pure (by simp)

theorem operandSlot (expr : Expr) :
    Moves front (ArgumentSlot.behind front) (one.operandSlot expr)
      (other.operandSlot (expr.behind front)) :=
  (moves.knownType? expr).bind fun _ => .pure rfl

theorem argumentSlot (argument : Argument) :
    Moves front (ArgumentSlot.behind front) (one.argumentSlot argument)
      (other.argumentSlot (argument.behind front)) := by
  unfold Binder.argumentSlot
  rw [Argument.expression_behind, Argument.name_behind]
  exact (moves.knownType? _).bind fun _ => .pure rfl

theorem localType (scope : TypeScope) (found : LocalDecl) :
    Moves front id (one.localType scope found)
      (other.localType scope (found.behind front)) := by
  rcases found with ⟨name, type, value, declared, visibleFrom⟩
  unfold Binder.localType
  rw [moves.table]
  cases type with
  | some type => exact .pure (by simp)
  | none =>
    cases value with
    | none => exact .pure rfl
    | initializer value => exact (moves.bind value).bind fun _ => .pure (by simp)
    | elementOf collection =>
      refine (moves.bind collection).bind fun bound => ?_
      rw [Bound.type?_behind]
      cases bound.type? with
      | none => exact .pure rfl
      | some type => exact .pure (by simp)

theorem bindName (offset : Nat) (name : SimpleName) :
    Moves front (Bound.behind front) (one.bindName offset name)
      (other.bindName (Text.behind front offset) (name.behind front)) := by
  unfold Binder.bindName
  simp only [moves.table, TypeTable.scopeAt_behind, SimpleName.typeArguments_behind,
    Option.isSome_map, TypeTable.bindOuterName_behind, SimpleName.identifier_behind,
    TypeTable.behind_document, Declarations.visibleLocal?_behind,
    Declarations.visibleParameter?_behind]
  refine .ite (.pure rfl) ?_
  cases one.table.document.visibleLocal? name.identifier offset with
  | some found => exact (moves.localType _ found).bind fun _ => .pure rfl
  | none =>
    cases one.table.document.visibleParameter? name.identifier offset with
    | some parameter => exact .pure (by simp [Function.comp_def])
    | none => exact .pure rfl

theorem bindInvocation (target : Expr) (arguments : List Argument) :
    Moves front (Bound.behind front) (one.bindInvocation target arguments)
      (other.bindInvocation (target.behind front) (arguments.map (Argument.behind front))) := by
  refine (moves.bind target).bind fun bound => ?_
  cases bound with
  | methods group =>
    refine (Moves.mapM (Argument.behind front) fun argument _ => moves.argumentSlot argument).bind
      fun slots => ?_
    simp only [moves.table, TypeTable.resolveOverload?_behind]
    cases one.table.resolveOverload? group slots with
    | none => exact .pure rfl
    | some method => exact .pure rfl
  | unknown =>
    cases target with
    | name name span =>
      simp only [Bound.behind_unknown, Expr.behind, SimpleName.identifier_behind, moves.table]
      exact .ite (.pure (by simp [Bound.ofType])) (.pure rfl)
    | _ => exact .pure rfl
  | _ => exact .pure rfl

theorem bindOperator? (token : String) (operands : List Expr) (types : List TypeSymbol) :
    Moves front (Option.map (Bound.behind front))
      (one.bindOperator? token operands types)
      (other.bindOperator? token (operands.map (Expr.behind front)) types) := by
  unfold Binder.bindOperator?
  rw [moves.table, TypeTable.operatorMethods_behind]
  cases one.table.operatorMethods token types with
  | nil => exact .pure rfl
  | cons candidate candidates =>
    refine (Moves.mapM (Expr.behind front) fun operand _ => moves.operandSlot operand).bind
      fun slots => .pure ?_
    rw [TypeTable.resolveAmong?_behind, Option.map_map]
    rfl

theorem bindBinary (operator : BinaryOperator) (left right : Expr) :
    Moves front (Bound.behind front) (one.bindBinary operator left right)
      (other.bindBinary operator (left.behind front) (right.behind front)) := by
  unfold Binder.bindBinary
  refine (moves.bind left).bind fun leftBound => ?_
  refine (moves.bind right).bind fun rightBound => ?_
  have chosen (declared : Option Bound) :
      (declared.map (Bound.behind front)).getD (.ofType? (other.table.binaryType? operator
        (leftBound.behind front).type? (rightBound.behind front).type?)) =
      (declared.getD (.ofType? (one.table.binaryType? operator leftBound.type?
        rightBound.type?))).behind front := by
    cases declared <;> simp [moves.table]
  simp only [Bound.type?_behind] at chosen ⊢
  split
  · exact (moves.bindOperator? operator.token [left, right] _).bind fun declared =>
      .pure (chosen declared)
  · exact .pure (chosen none)

theorem bindUnary (operator : UnaryOperator) (operand : Expr) :
    Moves front (Bound.behind front) (one.bindUnary operator operand)
      (other.bindUnary operator (operand.behind front)) := by
  refine (moves.bind operand).bind fun bound => ?_
  rw [Bound.type?_behind]
  cases bound.type? with
  | none => exact .pure rfl
  | some type =>
    refine (moves.bindOperator? operator.token [operand] [type]).bind fun declared => .pure ?_
    rw [moves.table]
    cases declared <;> simp

theorem bindConditional (whenTrue whenFalse : Expr) :
    Moves front (Bound.behind front) (one.bindConditional whenTrue whenFalse)
      (other.bindConditional (whenTrue.behind front) (whenFalse.behind front)) := by
  refine (moves.bind whenTrue).bind fun first => ?_
  refine (moves.bind whenFalse).bind fun second => .pure ?_
  simp [moves.table]

theorem bindElements (elements : List Expr) :
    Moves front (Bound.behind front) (one.bindElements elements)
      (other.bindElements (elements.map (Expr.behind front))) := by
  have typed (element : Expr) :
      Moves front (Prod.map (Expr.behind front) id)
        (do pure (element, ← one.knownType? element))
        (do pure (element.behind front, ← other.knownType? (element.behind front))) :=
    (moves.knownType? element).bind fun _ => .pure rfl
  refine (Moves.mapM (Expr.behind front) fun element _ => typed element).bind
    fun typed => .pure ?_
  rw [moves.table, TypeTable.commonType?_behind, Bound.behind_ofType?]

theorem bindStep (offset : Nat) (expr : Expr) :
    Moves front (Bound.behind front) (one.bindStep offset expr)
      (other.bindStep (Text.behind front offset) (expr.behind front)) := by
  cases expr with
  | name name span => exact moves.bindName offset name
  | memberAccess target name span =>
    refine (moves.bind target).bind fun bound => .pure ?_
    rw [moves.table, TypeTable.scopeAt_behind, TypeTable.bindMember_behind]
  | invocation target arguments span =>
    simp only [Expr.behind, Binder.bindStep, ArgumentList.arguments_behind]
    exact moves.bindInvocation target arguments.arguments
  | binary operator left right span => exact moves.bindBinary operator left right
  | unary operator operand span => exact moves.bindUnary operator operand
  | parenthesized inner span =>
    refine (moves.bind inner).bind fun bound => ?_
    cases bound <;> exact .pure rfl
  | conditional condition whenTrue whenFalse span => exact moves.bindConditional whenTrue whenFalse
  | arrayCreation type elements span =>
    cases type with
    | none =>
      simp only [Expr.behind, Expr.behindAll_eq_map, Option.map_none, Binder.bindStep]
      exact moves.bindElements elements
    | some type => exact .pure (by simp [moves.table, Bound.ofType])
  | predefinedType keyword span =>
    refine .pure ?_
    rw [moves.table, TypeTable.scopeAt_behind, TypeTable.resolve_behind, Bound.behind_typeReference]
  | literal | interpolatedString | cast | objectCreation | typeOf | thisInstance =>
    exact .pure (by simp [moves.table, Bound.ofType])
  | lambda | other => exact .pure rfl

end Binder.MovesTo

namespace TypeTable

variable {front} (table : TypeTable)

theorem moves_bindWithin (depth : Nat) (expr : Expr) :
    Moves front (Bound.behind front) (table.bindWithin depth expr)
      ((table.behind front).bindWithin depth (expr.behind front)) := by
  unfold bindWithin
  rw [Expr.span_behind]
  cases expr.span with
  | none => exact .pure rfl
  | some span =>
    refine Moves.get.bind fun bindings => ?_
    rw [Bindings.find?_behind]
    cases bindings.find? span with
    | some bound => exact .pure rfl
    | none =>
      cases depth with
      | zero => exact .pure rfl
      | succ depth =>
        have moves : Binder.MovesTo front ⟨table, table.bindWithin depth⟩
            ⟨table.behind front, (table.behind front).bindWithin depth⟩ :=
          ⟨rfl, moves_bindWithin depth⟩
        refine (moves.bindStep span.start expr).bind fun bound => ?_
        exact (Moves.modify fun bindings => bindings.insert_behind front span bound).bind
          fun _ => .pure rfl

end TypeTable

/-- Two models that give the same answers, the second one about the expressions behind a text. -/
structure SemanticModel.MovesTo (front : String) (one other : SemanticModel (StateM Bindings)) :
    Prop where
  resolveMethod : ∀ expr,
    Moves front id (one.resolveMethod expr) (other.resolveMethod (expr.behind front))
  symbolInfo : ∀ expr, Moves front id (one.symbolInfo expr) (other.symbolInfo (expr.behind front))
  typeOf : ∀ expr, Moves front id (one.typeOf expr) (other.typeOf (expr.behind front))
  classifyConversion : ∀ expr type, Moves front id (one.classifyConversion expr type)
    (other.classifyConversion (expr.behind front) type)
  isDerivedFrom : ∀ type fullName,
    Moves front id (one.isDerivedFrom type fullName) (other.isDerivedFrom type fullName)

theorem Binder.MovesTo.toModel {front : String} {one other : Binder (StateM Bindings)}
    (moves : Binder.MovesTo front one other) :
    SemanticModel.MovesTo front one.toModel other.toModel where
  resolveMethod expr := by
    refine (moves.bind expr).bind fun bound => ?_
    rw [Bound.symbol?_behind]
    split <;> exact .pure rfl
  symbolInfo expr := (moves.bind expr).bind fun _ => .pure (by simp)
  typeOf expr := moves.knownType? expr
  classifyConversion expr type := by
    refine (moves.knownType? expr).bind fun source => ?_
    cases source with
    | none => exact .pure rfl
    | some source => exact .pure (by simp [moves.table])
  isDerivedFrom type fullName := .pure (by simp [moves.table])

/-- The model of a document behind a text answers like the model of the document. -/
theorem TypeTable.moves_model (front : String) (table : TypeTable) :
    SemanticModel.MovesTo front table.model (table.behind front).model :=
  Binder.MovesTo.toModel ⟨rfl, table.moves_bindWithin maxBindDepth⟩

end AssertionLint
