import AssertionLint.Binding.Binder

/-!
# Binding in two monads

A step of binding is written for any monad. So if two monads are related in a way that holds of
results and goes through sequences of steps, and two ways to bind expressions give related bindings,
then the steps that they tie together are related, and so are the answers of the two models. Only
expressions that a step really asks for have to be bound alike: those of a set that has, with each
expression, its parts, and the values of all locals (`TypeTable.IsClosed`).
-/

namespace AssertionLint

variable {m n : Type → Type} [Monad m] [Monad n]

/-- A relation between computations in two monads that holds of results and goes through sequences
of steps. -/
structure StepRelation (m n : Type → Type) [Monad m] [Monad n] where
  Rel : {α : Type} → m α → n α → Prop
  pure : ∀ {α : Type} (result : α), Rel (Pure.pure result) (Pure.pure result)
  bind : ∀ {α β : Type} {first : m α} {other : n α} {next : α → m β} {rest : α → n β},
    Rel first other → (∀ result, Rel (next result) (rest result)) →
      Rel (first >>= next) (other >>= rest)

namespace StepRelation

variable (relation : StepRelation m n)

theorem mapM [LawfulMonad m] [LawfulMonad n] {α β : Type} {items : List α} {next : α → m β}
    {rest : α → n β} (each : ∀ item ∈ items, relation.Rel (next item) (rest item)) :
    relation.Rel (items.mapM next) (items.mapM rest) := by
  rw [← List.mapM'_eq_mapM, ← List.mapM'_eq_mapM]
  induction items with
  | nil => exact relation.pure _
  | cons item items ih =>
    refine relation.bind (each item List.mem_cons_self) fun first => ?_
    exact relation.bind (ih fun other member => each other (List.mem_cons_of_mem _ member))
      fun _ => relation.pure _

end StepRelation

/-- The expression that a local takes its value from. -/
def LocalValue.expr? : LocalValue → Option Expr
  | .none => Option.none
  | .initializer value | .elementOf value => some value

/-- The expression that the type of a local is inferred from. -/
def LocalDecl.inferredFrom? (found : LocalDecl) : Option Expr :=
  if found.type.isSome then none else found.value.expr?

/-- The expressions that a step of binding may ask for: the parts of the expression, and for a
simple name the expression that the type of its local is inferred from. -/
def TypeTable.asked (table : TypeTable) (offset : Nat) (expr : Expr) : List Expr :=
  match expr with
  | .name name _ =>
    if name.typeArguments.isSome then []
    else ((table.document.visibleLocal? name.identifier offset).bind
      LocalDecl.inferredFrom?).toList
  | expr => expr.children

/-- With an expression also its parts are in the set, and so are the values of all locals. -/
structure TypeTable.IsClosed (table : TypeTable) (inside : Expr → Prop) : Prop where
  child : ∀ {expr child : Expr}, inside expr → child ∈ expr.children → inside child
  value : ∀ {found : LocalDecl} {value : Expr}, found ∈ table.document.locals →
    found.value.expr? = some value → inside value

namespace Declarations

/-- The fold keeps a local that became visible last. -/
theorem latest_of_foldl_laterLocal {locals : List LocalDecl} {latest : Option LocalDecl}
    {found : LocalDecl} (chosen : locals.foldl laterLocal latest = some found) :
    (found ∈ locals ∨ latest = some found) ∧
      ∀ other, other ∈ locals ∨ latest = some other → other.visibleFrom ≤ found.visibleFrom := by
  induction locals generalizing latest with
  | nil =>
    rw [List.foldl_nil] at chosen
    subst chosen
    simp
  | cons next rest ih =>
    have later : ∃ first, laterLocal latest next = some first ∧
        (first = next ∨ latest = some first) ∧ next.visibleFrom ≤ first.visibleFrom ∧
        ∀ other, latest = some other → other.visibleFrom ≤ first.visibleFrom := by
      cases latest with
      | none => exact ⟨next, rfl, by simp⟩
      | some first =>
        by_cases earlier : next.visibleFrom < first.visibleFrom
        · exact ⟨first, by simp [laterLocal, earlier], by simp; omega⟩
        · exact ⟨next, by simp [laterLocal, earlier], by simp; omega⟩
    rcases later with ⟨first, firstIs, isFirst, after, before⟩
    rcases ih chosen with ⟨member, bounds⟩
    have firstBound := bounds first (.inr firstIs)
    constructor
    · rcases member with inRest | isLater
      · exact .inl (List.mem_cons_of_mem _ inRest)
      · rw [firstIs, Option.some.injEq] at isLater
        subst isLater
        rcases isFirst with rfl | isLatest
        · exact .inl List.mem_cons_self
        · exact .inr isLatest
    · rintro other (member | isLatest)
      · rcases List.mem_cons.mp member with rfl | inRest
        · exact Nat.le_trans after firstBound
        · exact bounds other (.inl inRest)
      · exact Nat.le_trans (before other isLatest) firstBound

theorem mem_of_visibleLocal? {declarations : Declarations} {name : String} {offset : Nat}
    {found : LocalDecl} (visible : declarations.visibleLocal? name offset = some found) :
    found ∈ declarations.locals := by
  rcases (latest_of_foldl_laterLocal visible).1 with member | none
  · exact (List.mem_filter.mp member).1
  · cases none

end Declarations

/-- Two binders bind an expression in related ways. -/
def StepRelation.Alike (relation : StepRelation m n) (left : Binder m) (right : Binder n)
    (expr : Expr) : Prop :=
  relation.Rel (left.bind expr) (right.bind expr)

namespace StepRelation

section

variable {relation : StepRelation m n} {left : Binder m} {right : Binder n}

theorem Alike.knownType? {expr : Expr} (alike : relation.Alike left right expr) :
    relation.Rel (left.knownType? expr) (right.knownType? expr) :=
  relation.bind alike fun _ => relation.pure _

theorem Alike.operandSlot {expr : Expr} (alike : relation.Alike left right expr) :
    relation.Rel (left.operandSlot expr) (right.operandSlot expr) :=
  relation.bind alike.knownType? fun _ => relation.pure _

theorem Alike.argumentSlot {argument : Argument}
    (alike : relation.Alike left right argument.expression) :
    relation.Rel (left.argumentSlot argument) (right.argumentSlot argument) :=
  relation.bind alike.knownType? fun _ => relation.pure _

variable (table : left.table = right.table)

include table

theorem rel_localType (scope : TypeScope) {found : LocalDecl}
    (inferred : ∀ value, found.inferredFrom? = some value → relation.Alike left right value) :
    relation.Rel (left.localType scope found) (right.localType scope found) := by
  unfold Binder.localType
  rw [← table]
  split
  · exact relation.pure _
  · rename_i untyped
    simp only [LocalDecl.inferredFrom?, untyped, Option.isSome_none, Bool.false_eq_true,
      if_false] at inferred
    split
    · exact relation.pure _
    · rename_i value valueIs
      exact relation.bind (inferred value (by rw [valueIs]; rfl)) fun _ => relation.pure _
    · rename_i collection valueIs
      refine relation.bind (inferred collection (by rw [valueIs]; rfl)) fun bound => ?_
      split <;> exact relation.pure _

theorem rel_bindName (offset : Nat) (name : SimpleName) {span : Option Span}
    (asked : ∀ part ∈ left.table.asked offset (.name name span),
      relation.Alike left right part) :
    relation.Rel (left.bindName offset name) (right.bindName offset name) := by
  unfold Binder.bindName
  rw [← table]
  dsimp only
  split
  · exact relation.pure _
  · rename_i noArguments
    split
    · rename_i found visible
      have inferred : ∀ value, found.inferredFrom? = some value →
          relation.Alike left right value := by
        intro value valueIs
        apply asked
        simp [TypeTable.asked, noArguments, visible, valueIs]
      exact relation.bind (rel_localType table _ inferred) fun _ => relation.pure _
    · split <;> exact relation.pure _

theorem rel_bindConditional {whenTrue whenFalse : Expr}
    (whenTrueAlike : relation.Alike left right whenTrue)
    (whenFalseAlike : relation.Alike left right whenFalse) :
    relation.Rel (left.bindConditional whenTrue whenFalse)
      (right.bindConditional whenTrue whenFalse) := by
  unfold Binder.bindConditional
  rw [← table]
  refine relation.bind whenTrueAlike fun _ => ?_
  exact relation.bind whenFalseAlike fun _ => relation.pure _

variable [LawfulMonad m] [LawfulMonad n]

theorem rel_bindInvocation {target : Expr} {arguments : List Argument}
    (targetAlike : relation.Alike left right target)
    (argumentsAlike : ∀ argument ∈ arguments, relation.Alike left right argument.expression) :
    relation.Rel (left.bindInvocation target arguments)
      (right.bindInvocation target arguments) := by
  unfold Binder.bindInvocation
  rw [← table]
  refine relation.bind targetAlike fun bound => ?_
  split
  · refine relation.bind (relation.mapM fun argument member =>
      (argumentsAlike argument member).argumentSlot) fun slots => ?_
    split <;> exact relation.pure _
  · split
    · split <;> exact relation.pure _
    · exact relation.pure _
  · exact relation.pure _

theorem rel_bindOperator? (token : String) {operands : List Expr} (types : List TypeSymbol)
    (operandsAlike : ∀ operand ∈ operands, relation.Alike left right operand) :
    relation.Rel (left.bindOperator? token operands types)
      (right.bindOperator? token operands types) := by
  unfold Binder.bindOperator?
  rw [← table]
  split
  · exact relation.pure _
  · exact relation.bind (relation.mapM fun operand member =>
      (operandsAlike operand member).operandSlot) fun _ => relation.pure _

theorem rel_bindBinary (operator : BinaryOperator) {first second : Expr}
    (firstAlike : relation.Alike left right first)
    (secondAlike : relation.Alike left right second) :
    relation.Rel (left.bindBinary operator first second)
      (right.bindBinary operator first second) := by
  unfold Binder.bindBinary
  rw [← table]
  refine relation.bind firstAlike fun firstBound => ?_
  refine relation.bind secondAlike fun secondBound => ?_
  dsimp only
  split
  · exact relation.bind (rel_bindOperator? table _ _ (by simp [firstAlike, secondAlike]))
      fun _ => relation.pure _
  · exact relation.bind (relation.pure _) fun _ => relation.pure _

theorem rel_bindUnary (operator : UnaryOperator) {operand : Expr}
    (alike : relation.Alike left right operand) :
    relation.Rel (left.bindUnary operator operand) (right.bindUnary operator operand) := by
  unfold Binder.bindUnary
  rw [← table]
  refine relation.bind alike fun bound => ?_
  split
  · exact relation.pure _
  · exact relation.bind (rel_bindOperator? table _ _ (by simp [alike])) fun _ => relation.pure _

theorem rel_bindElements {elements : List Expr}
    (elementsAlike : ∀ element ∈ elements, relation.Alike left right element) :
    relation.Rel (left.bindElements elements) (right.bindElements elements) := by
  unfold Binder.bindElements
  rw [← table]
  refine relation.bind (relation.mapM fun element member => ?_) fun _ => relation.pure _
  exact relation.bind (elementsAlike element member).knownType? fun _ => relation.pure _

/-- What an expression is bound to in one step is related if the expressions that the step may ask
for are bound alike. -/
theorem rel_bindStep (offset : Nat) {expr : Expr}
    (asked : ∀ part ∈ left.table.asked offset expr, relation.Alike left right part) :
    relation.Rel (left.bindStep offset expr) (right.bindStep offset expr) := by
  cases expr with
  | name name span => exact rel_bindName table offset name asked
  | memberAccess target name span =>
    simp only [Binder.bindStep, ← table]
    refine relation.bind (asked target ?_) fun _ => relation.pure _
    simp [TypeTable.asked, Expr.children]
  | invocation target list span =>
    have targetAlike := asked target (by simp [TypeTable.asked, Expr.children])
    refine rel_bindInvocation table targetAlike fun argument isArgument => asked _ ?_
    exact List.mem_cons_of_mem _ (List.mem_map_of_mem isArgument)
  | binary operator first second span =>
    refine rel_bindBinary table operator (asked first ?_) (asked second ?_) <;>
      simp [TypeTable.asked, Expr.children]
  | unary operator operand span =>
    refine rel_bindUnary table operator (asked operand ?_)
    simp [TypeTable.asked, Expr.children]
  | parenthesized inner span =>
    have innerAlike := asked inner (by simp [TypeTable.asked, Expr.children])
    refine relation.bind innerAlike fun bound => ?_
    cases bound <;> exact relation.pure _
  | conditional condition whenTrue whenFalse span =>
    refine rel_bindConditional table (asked whenTrue ?_) (asked whenFalse ?_) <;>
      simp [TypeTable.asked, Expr.children]
  | arrayCreation elementType elements span =>
    cases elementType with
    | none => exact rel_bindElements table asked
    | some type =>
      simp only [Binder.bindStep, ← table]
      exact relation.pure _
  | predefinedType | literal | interpolatedString | cast | objectCreation | typeOf
  | thisInstance | lambda | other =>
    simp only [Binder.bindStep, ← table]
    exact relation.pure _

end

end StepRelation

/-- Two binders over one table whose bindings of the expressions of a closed set are related. -/
structure Binder.Related (relation : StepRelation m n) (inside : Expr → Prop) (left : Binder m)
    (right : Binder n) : Prop where
  table : left.table = right.table
  closed : left.table.IsClosed inside
  bind : ∀ {expr : Expr}, inside expr → relation.Rel (left.bind expr) (right.bind expr)

namespace Binder.Related

variable {relation : StepRelation m n} {inside : Expr → Prop} {left : Binder m} {right : Binder n}
  (related : Related relation inside left right)

include related

theorem alike {expr : Expr} (member : inside expr) : relation.Alike left right expr :=
  related.bind member

theorem knownType? {expr : Expr} (member : inside expr) :
    relation.Rel (left.knownType? expr) (right.knownType? expr) :=
  (related.alike member).knownType?

/-- What an expression of the set is bound to in one step is related. -/
theorem bindStep [LawfulMonad m] [LawfulMonad n] (offset : Nat) {expr : Expr}
    (member : inside expr) :
    relation.Rel (left.bindStep offset expr) (right.bindStep offset expr) := by
  refine StepRelation.rel_bindStep related.table offset fun part isAsked => related.alike ?_
  unfold TypeTable.asked at isAsked
  split at isAsked
  · split at isAsked
    · simp at isAsked
    · rw [Option.mem_toList, Option.bind_eq_some_iff] at isAsked
      rcases isAsked with ⟨found, visible, inferred⟩
      unfold LocalDecl.inferredFrom? at inferred
      split at inferred
      · cases inferred
      · exact related.closed.value (Declarations.mem_of_visibleLocal? visible) inferred
  · exact related.closed.child member isAsked

end Binder.Related

/-- A question about an expression. -/
inductive Question
  | resolveMethod (expr : Expr)
  | symbolInfo (expr : Expr)
  | typeOf (expr : Expr)
  | classifyConversion (expr : Expr) (destination : TypeSymbol)
  | isConstant (expr : Expr)

/-- What is answered to a question. -/
inductive Answer
  | method (found : Option MethodSymbol)
  | symbol (found : Option Symbol)
  | type (found : Option TypeSymbol)
  | conversion (found : Conversion)
  | constant (isConstant : Bool)

namespace Question

/-- The expression that a question is about. -/
def expr : Question → Expr
  | resolveMethod expr | symbolInfo expr | typeOf expr | classifyConversion expr _
  | isConstant expr => expr

/-- Asks a model. -/
def ask (model : SemanticModel m) : Question → m Answer
  | resolveMethod expr => do pure (.method (← model.resolveMethod expr))
  | symbolInfo expr => do pure (.symbol (← model.symbolInfo expr))
  | typeOf expr => do pure (.type (← model.typeOf expr))
  | classifyConversion expr destination => do
    pure (.conversion (← model.classifyConversion expr destination))
  | isConstant expr => do pure (.constant (← model.isConstant expr))

end Question

namespace Binder.Related

variable {relation : StepRelation m n} {inside : Expr → Prop} {left : Binder m} {right : Binder n}
  (related : Related relation inside left right)

include related

theorem resolveMethod {expr : Expr} (member : inside expr) :
    relation.Rel (left.toModel.resolveMethod expr) (right.toModel.resolveMethod expr) := by
  refine relation.bind (related.bind member) fun bound => ?_
  split <;> exact relation.pure _

theorem symbolInfo {expr : Expr} (member : inside expr) :
    relation.Rel (left.toModel.symbolInfo expr) (right.toModel.symbolInfo expr) :=
  relation.bind (related.bind member) fun _ => relation.pure _

theorem classifyConversion {expr : Expr} (member : inside expr) (destination : TypeSymbol) :
    relation.Rel (left.toModel.classifyConversion expr destination)
      (right.toModel.classifyConversion expr destination) := by
  simp only [toModel, ← related.table]
  refine relation.bind (related.knownType? member) fun type => ?_
  cases type <;> exact relation.pure _

theorem isConstantField {expr : Expr} (member : inside expr) :
    relation.Rel (left.toModel.isConstantField expr) (right.toModel.isConstantField expr) := by
  refine relation.bind (related.symbolInfo member) fun symbol => ?_
  split <;> exact relation.pure _

theorem isConstant {expr : Expr} (member : inside expr) :
    relation.Rel (left.toModel.isConstant expr) (right.toModel.isConstant expr) := by
  induction expr using SemanticModel.isConstant.induct with
  | case1 inner span ih => exact ih (related.closed.child member (by simp [Expr.children]))
  | case2 => exact relation.pure _
  | case3 operand span ih | case4 operand span ih | case5 operand span ih =>
    exact ih (related.closed.child member (by simp [Expr.children]))
  | case6 | case9 =>
    rw [SemanticModel.isConstant, SemanticModel.isConstant]
    · exact relation.pure _
    all_goals assumption
  | case7 | case8 => exact related.isConstantField member

/-- Related binders give related answers. -/
theorem ask (question : Question) (member : inside question.expr) :
    relation.Rel (question.ask left.toModel) (question.ask right.toModel) := by
  cases question with
  | resolveMethod expr =>
    exact relation.bind (related.resolveMethod member) fun _ => relation.pure _
  | symbolInfo expr => exact relation.bind (related.symbolInfo member) fun _ => relation.pure _
  | typeOf expr => exact relation.bind (related.knownType? member) fun _ => relation.pure _
  | classifyConversion expr destination =>
    exact relation.bind (related.classifyConversion member destination) fun _ => relation.pure _
  | isConstant expr => exact relation.bind (related.isConstant member) fun _ => relation.pure _

end Binder.Related

end AssertionLint
