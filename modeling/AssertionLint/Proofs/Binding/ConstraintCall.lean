import AssertionLint.Proofs.Binding.ConstraintMethods
import AssertionLint.Proofs.Binding.PassedArray

/-!
# Constraints in a document

A constraint that a fix writes is a member of a helper class or of what `Not` gives there, perhaps
called, and perhaps with a tolerance behind it. In a document that keeps the reference surface, such
an expression is a constraint if its arguments suit it, and nothing is known of it otherwise
(`ParsedDocument.boundOf_of_read?`).
-/

namespace AssertionLint

/-- The target of a member access of a name that is written without type arguments. -/
def Expr.before? (name : String) : Expr → Option Expr
  | .memberAccess target ⟨identifier, none, _⟩ _ => if identifier = name then some target else none
  | _ => none

theorem Expr.exists_of_before? {name : String} {expr target : Expr}
    (isBefore : expr.before? name = some target) :
    ∃ member span, expr = .memberAccess target member span ∧ member.identifier = name ∧
      member.typeArguments = none := by
  unfold before? at isBefore
  split at isBefore
  · split at isBefore
    · rename_i same
      cases isBefore
      exact ⟨_, _, rfl, same, rfl⟩
    · cases isBefore
  · cases isBefore

/-- The dotted name of a constraint. -/
structure ConstraintName where
  helper : String
  isNegated : Bool
  member : String
  deriving DecidableEq

namespace ConstraintName

def chain (name : ConstraintName) : List String :=
  ConditionConstraint.chainOf name.helper name.member name.isNegated

/-- The class that the member is looked up in. -/
def owner (name : ConstraintName) : String :=
  if name.isNegated then "ConstraintExpression" else name.helper

/-- What stands for the helper class in front of the member. -/
def head? (name : ConstraintName) (receiver : Expr) : Option Expr :=
  if name.isNegated then receiver.before? "Not" else some receiver

/-- The name that a chain spells. -/
def ofChain? : List String → Option ConstraintName
  | [helper, "Not", member] => some ⟨helper, true, member⟩
  | [helper, member] => some ⟨helper, false, member⟩
  | _ => none

end ConstraintName

/-- How a constraint is written. -/
inductive ConstraintForm
  /-- A property. -/
  | property (name : ConstraintName)
  /-- A call with one argument. -/
  | call (name : ConstraintName)
  /-- A call with one argument and a tolerance. -/
  | within (name : ConstraintName)
  /-- A call with a number of type arguments instead of an argument. -/
  | typeCheck (name : ConstraintName) (count : Nat)
  deriving DecidableEq

namespace ConstraintForm

def name : ConstraintForm → ConstraintName
  | property name | call name | within name | typeCheck name _ => name

def readProperty? (name : ConstraintName) (expr : Expr) : Option Expr :=
  (expr.before? name.member).bind name.head?

def readCall? (name : ConstraintName) : Expr → Option (Expr × Argument)
  | .invocation target ⟨[argument], _⟩ _ =>
    if argument.name.isNone then (readProperty? name target).map fun head => (head, argument)
    else none
  | _ => none

def readWithin? (name : ConstraintName) : Expr → Option (Expr × Argument × Argument)
  | .invocation target ⟨[tolerance], _⟩ _ =>
    if tolerance.name.isNone then
      ((target.before? "Within").bind (readCall? name)).map fun (head, argument) =>
        (head, argument, tolerance)
    else none
  | _ => none

def readTypeCheck? (name : ConstraintName) (count : Nat) : Expr → Option Expr
  | .invocation (.memberAccess receiver member _) ⟨[], _⟩ _ =>
    if member.identifier = name.member ∧ member.typeArguments.map (·.length) = some count then
      name.head? receiver
    else none
  | _ => none

/-- What stands for the helper class in an expression of the form, and the arguments. -/
def read? : ConstraintForm → Expr → Option (Expr × List Argument)
  | property name, expr => (readProperty? name expr).map fun head => (head, [])
  | call name, expr => (readCall? name expr).map fun (head, argument) => (head, [argument])
  | within name, expr =>
    (readWithin? name expr).map fun (head, argument, tolerance) => (head, [argument, tolerance])
  | typeCheck name count, expr => (readTypeCheck? name count expr).map fun head => (head, [])

variable {name : ConstraintName} {expr head : Expr} {argument tolerance : Argument}

theorem exists_of_readProperty? (isRead : readProperty? name expr = some head) :
    ∃ receiver, expr.before? name.member = some receiver ∧ name.head? receiver = some head :=
  Option.bind_eq_some_iff.mp isRead

theorem exists_of_readCall? (isRead : readCall? name expr = some (head, argument)) :
    ∃ target list span, expr = .invocation target list span ∧ list.arguments = [argument] ∧
      argument.name = none ∧ readProperty? name target = some head := by
  unfold readCall? at isRead
  split at isRead
  · split at isRead
    · rename_i unlabelled
      rcases Option.map_eq_some_iff.mp isRead with ⟨_, isHead, same⟩
      cases same
      exact ⟨_, _, _, rfl, rfl, Option.isNone_iff_eq_none.mp unlabelled, isHead⟩
    · cases isRead
  · cases isRead

theorem exists_of_readWithin? (isRead : readWithin? name expr = some (head, argument, tolerance)) :
    ∃ target list span inner, expr = .invocation target list span ∧
      list.arguments = [tolerance] ∧ tolerance.name = none ∧
      target.before? "Within" = some inner ∧ readCall? name inner = some (head, argument) := by
  unfold readWithin? at isRead
  split at isRead
  · split at isRead
    · rename_i unlabelled
      rcases Option.map_eq_some_iff.mp isRead with ⟨_, isInner, same⟩
      cases same
      rcases Option.bind_eq_some_iff.mp isInner with ⟨inner, isBefore, isCall⟩
      exact ⟨_, _, _, inner, rfl, rfl, Option.isNone_iff_eq_none.mp unlabelled, isBefore, isCall⟩
    · cases isRead
  · cases isRead

theorem exists_of_readTypeCheck? {count : Nat}
    (isRead : readTypeCheck? name count expr = some head) :
    ∃ receiver simple place list span,
      expr = .invocation (.memberAccess receiver simple place) list span ∧
      list.arguments = [] ∧ simple.identifier = name.member ∧
      simple.typeArguments.map (·.length) = some count ∧ name.head? receiver = some head := by
  unfold readTypeCheck? at isRead
  split at isRead
  · split at isRead
    · rename_i isMember
      exact ⟨_, _, _, _, _, rfl, rfl, isMember.1, isMember.2, isRead⟩
    · cases isRead
  · cases isRead

end ConstraintForm

namespace Reference

/-- The name of a member stands for no type of the surface. -/
structure IsMemberName (name : String) : Prop where
  noDot : dot ∉ bytes name
  noType : ∀ type ∈ declarations.types, type.name ≠ name

instance (name : String) : Decidable (IsMemberName name) :=
  decidable_of_iff (dot ∉ bytes name ∧ ∀ type ∈ declarations.types, type.name ≠ name)
    ⟨fun ⟨noDot, noType⟩ => ⟨noDot, noType⟩, fun ⟨noDot, noType⟩ => ⟨noDot, noType⟩⟩

/-- The methods that are called on constraints and on what `Not` gives. -/
def valueMethods : List String :=
  ["EqualTo", "SameAs", "InstanceOf", "AssignableFrom", "Contain", "StartWith", "EndWith", "Within"]

theorem noExtensions : ∀ type ∈ declarations.types, ∀ method ∈ type.methods,
    method.isExtension = true → method.name ∉ valueMethods := by
  decide +kernel

end Reference

/-- No extension method of the document has the name of a method of constraints. -/
def Declarations.KeepsConstraints (declarations : Declarations) : Prop :=
  ∀ type ∈ declarations.types, ∀ method ∈ type.methods, method.isExtension = true →
    method.name ∉ Reference.valueMethods

instance (declarations : Declarations) : Decidable declarations.KeepsConstraints :=
  inferInstanceAs (Decidable (∀ type ∈ declarations.types, _))

namespace ConstraintForm

open Reference

/-- The name leads to its member. -/
structure IsReached (name : ConstraintName) : Prop where
  isMember : IsMemberName name.member
  negation : name.isNegated = true →
    HasProperty name.helper "Not" "ConstraintExpression" ∧ IsMemberName "Not"

instance (name : ConstraintName) : Decidable (IsReached name) :=
  decidable_of_iff
    (IsMemberName name.member ∧ (name.isNegated = true →
      HasProperty name.helper "Not" "ConstraintExpression" ∧ IsMemberName "Not"))
    ⟨fun ⟨isMember, negation⟩ => ⟨isMember, negation⟩,
      fun ⟨isMember, negation⟩ => ⟨isMember, negation⟩⟩

/-- The name leads to methods that give constraints. -/
structure IsMethod (name : ConstraintName) : Prop extends IsReached name where
  isMethod : IsConstraintMethod name.owner name.member
  isValueMethod : name.isNegated = true → name.member ∈ valueMethods

instance (name : ConstraintName) : Decidable (IsMethod name) :=
  decidable_of_iff
    (IsReached name ∧ IsConstraintMethod name.owner name.member ∧
      (name.isNegated = true → name.member ∈ valueMethods))
    ⟨fun ⟨isReached, isMethod, isValueMethod⟩ => ⟨isReached, isMethod, isValueMethod⟩,
      fun ⟨isReached, isMethod, isValueMethod⟩ => ⟨isReached, isMethod, isValueMethod⟩⟩

/-- The framework has constraints of the form. -/
def IsKnown : ConstraintForm → Prop
  | property name => IsReached name ∧
      ∃ result ∈ constraintNames, HasProperty name.owner name.member result
  | call name => IsMethod name
  | within name => IsMethod name ∧ ∀ method ∈ methodsOf name.owner name.member,
      method.returnType.plainName? = some "EqualConstraint"
  | typeCheck name _ => IsMethod name ∧
      ((methodsOf name.owner name.member).filter (·.takes?.isNone)).length = 1

instance : DecidablePred IsKnown
  | property name => inferInstanceAs (Decidable (IsReached name ∧ _))
  | call name => inferInstanceAs (Decidable (IsMethod name))
  | within name => inferInstanceAs (Decidable (IsMethod name ∧ _))
  | typeCheck name _ => inferInstanceAs (Decidable (IsMethod name ∧ _))

end ConstraintForm

theorem Reference.isConstraintMethod_within :
    IsConstraintMethod "EqualConstraint" "Within" ∧ IsMemberName "Within" := by
  decide

/-- The expression stands for a type of the surface or for a value of it. -/
def Bound.IsOf (bound : Bound) (name : String) : Prop :=
  bound = .typeReference (TypeTable.surfaceType name) ∨
    ∃ symbol, bound = .value (TypeTable.surfaceType name) symbol

instance (type : TypeSymbol) : (bound : Bound) → Decidable (bound = .typeReference type)
  | .typeReference other => decidable_of_iff (other = type) (by simp)
  | .value .. | .namespaceReference _ | .methods _ | .unknown => isFalse nofun

/-- The expression is a value of the type that a method of a name returns, which is the type of a
constraint. -/
def Bound.IsResultOf (bound : Bound) (owner member : String) : Prop :=
  ∃ method ∈ Reference.methodsOf owner member, ∃ result ∈ Reference.constraintNames,
    method.returnType.plainName? = some result ∧
      ∃ symbol, bound = .value (TypeTable.surfaceType result) symbol

theorem Bound.IsResultOf.isConstraint {bound : Bound} {owner member : String}
    (isResult : bound.IsResultOf owner member) :
    ∃ result ∈ Reference.constraintNames, ∃ symbol,
      bound = .value (TypeTable.surfaceType result) symbol := by
  rcases isResult with ⟨-, -, result, isResult, -, isValue⟩
  exact ⟨result, isResult, isValue⟩

namespace TypeTable

open Reference

variable {document : ParsedDocument} (keeps : document.declarations.KeepsReference)
  {owner member : String} {simple : SimpleName} {bound : Bound}

theorem extensionMethods_eq_nil (keepsConstraints : document.declarations.KeepsConstraints)
    (isMethod : member ∈ valueMethods) (scope : TypeScope) :
    document.table.extensionMethods scope member = [] := by
  rw [extensionMethods, List.flatMap_eq_nil_iff]
  intro id _
  cases isDecl : document.table.decl? id with
  | none => rfl
  | some declaration =>
    have noExtension : ∀ method ∈ declaration.methods, method.isExtension = true →
        method.name ∉ valueMethods := by
      rcases id with ⟨origin, index⟩
      cases origin with
      | document => exact keepsConstraints declaration (List.mem_of_getElem? isDecl)
      | reference => exact noExtensions declaration (List.mem_of_getElem? isDecl)
    simp only [methodsOf, List.map_eq_nil_iff, List.filter_eq_nil_iff]
    rintro ⟨method, place⟩ isListed
    have isExtension := noExtension method (List.fst_mem_of_mem_zipIdx isListed)
    grind

/-- No type of the surface has the name of a member behind one. -/
theorem fullName_ne_of_isMemberName (isMember : IsMemberName member) {path : String}
    (isNamed : path.isEmpty = false) :
    ∀ entry ∈ library.entries, entry.fullName ≠ path ++ "." ++ member := by
  intro entry isEntry same
  rcases List.mem_append.mp isEntry with isEntry | isEntry
  · cases isEntry
  rw [Declarations.entries, List.mem_reverse, List.mem_map] at isEntry
  rcases isEntry with ⟨⟨type, index⟩, isType, rfl⟩
  have isType := List.mk_mem_zipIdx_iff_getElem?.mp isType
  have isSurface := List.mem_of_getElem? isType
  have isFull := (fullName_reference index (List.getElem?_eq_some_iff.mp isType).1 _ isType).1
  rw [← qualify_enclosing isSurface] at isFull
  have isBehind : TypeSymbol.qualify path member = path ++ "." ++ member := by
    rw [TypeSymbol.qualify, isNamed]
    rfl
  have sameName := isFull.symm.trans (Eq.trans same isBehind.symm)
  exact isMember.noType type isSurface
    (name_eq_of_qualify_eq (names_reference.2 type isSurface) isMember.noDot sameName)

include keeps

/-- A name behind a type of the surface or a value of it is looked up among the members. -/
theorem exists_bindMember_eq_member {type : TypeDecl} {index : Nat}
    (isPlain : plain? owner = some (type, index)) (isMember : IsMemberName member)
    (isOf : bound.IsOf owner) (isName : simple.identifier = member) (scope : TypeScope) :
    ∃ receiver, document.table.bindMember scope bound simple =
        document.table.member scope (surfaceType owner) simple receiver ∧
      (receiver.isSome = true → bound ≠ .typeReference (surfaceType owner)) := by
  rcases isOf with rfl | ⟨symbol, rfl⟩
  · have isType := List.mem_of_getElem? (isType_of_plain? isPlain)
    have isFull : (surfaceType owner).fullName = type.enclosing ++ "." ++ type.name := by
      rw [fullName_surfaceType isPlain, qualify_enclosing isType, (name_of_plain? isPlain).1]
    have isNamed : (surfaceType owner).fullName.isEmpty = false := by
      rw [isFull]
      simp
    exact ⟨none, keeps.bindMember_typeReference isType isFull
      (fullName_ne_of_isMemberName isMember isNamed) isName scope, nofun⟩
  · exact ⟨some (surfaceType owner), rfl, nofun⟩

/-- A property behind a type or a value is a value. -/
theorem bindMember_of_hasProperty {result : String} (has : HasProperty owner member result)
    (isMember : IsMemberName member) (isOf : bound.IsOf owner)
    (isName : simple.identifier = member) (noArguments : simple.typeArguments = none)
    (scope : TypeScope) :
    ∃ symbol, document.table.bindMember scope bound simple =
      .value (surfaceType result) symbol := by
  rcases has.hasOwn.1 with ⟨⟨type, index⟩, isPlain, -⟩
  rcases memberValueOf?_of_hasProperty has with ⟨symbol, isValue⟩
  rcases exists_bindMember_eq_member keeps isPlain isMember isOf isName scope with
    ⟨receiver, isLookedUp, -⟩
  exact ⟨symbol, isLookedUp.trans (keeps.member_eq_value (isType_surfaceType isPlain) isValue isName
    noArguments scope receiver)⟩

/-- The methods of a name behind a type or a value. -/
theorem bindMember_of_isConstraintMethod (isMethod : IsConstraintMethod owner member)
    (isMember : IsMemberName member) (isOf : bound.IsOf owner)
    (isName : simple.identifier = member) (scope : TypeScope)
    (noExtensions : bound ≠ .typeReference (surfaceType owner) →
      document.table.extensionMethods scope member = []) :
    ∃ receiver, document.table.bindMember scope bound simple =
      .methods ⟨receiver, document.table.writtenArguments scope simple,
        memberCandidates (surfaceType owner) member, []⟩ := by
  rcases isMethod.hasOwn.1 with ⟨⟨type, index⟩, isPlain, -⟩
  have nonempty : (memberCandidates (surfaceType owner) member).isEmpty = false := by
    rw [List.isEmpty_eq_false_iff]
    intro isEmpty
    have noneTaken := filterMap_takes? isMethod
    rw [isEmpty, List.filterMap_nil] at noneTaken
    rcases isMethod.shape with isOne | areTwo
    · rw [← noneTaken] at isOne
      cases isOne
    · rw [← noneTaken] at areTwo
      cases areTwo
  rcases exists_bindMember_eq_member keeps isPlain isMember isOf isName scope with
    ⟨receiver, isLookedUp, isValue⟩
  refine ⟨receiver, isLookedUp.trans (keeps.member_eq_methods (isType_surfaceType isPlain)
    (memberValueOf?_of_isConstraintMethod isMethod) nonempty isName scope ?_)⟩
  exact fun isSome => noExtensions (isValue isSome)

omit keeps in
/-- Without extensions a group resolves to one of its members. -/
theorem resolveOverload?_of_noExtensions {table : TypeTable} (receiver : Option TypeSymbol)
    (explicit : List TypeSymbol) (candidates : List MethodCandidate) (slots : List ArgumentSlot) :
    table.resolveOverload? ⟨receiver, explicit, candidates, []⟩ slots =
      table.resolveAmong? candidates slots explicit := by
  have noBest (slots : List ArgumentSlot) : table.resolveAmong? [] slots explicit = none := rfl
  simp only [resolveOverload?]
  cases receiver <;> simp [noBest]

end TypeTable

namespace ParsedDocument

open Reference TypeTable

/-- What a document keeps of the framework, and that its expressions can be bound. -/
structure KeepsFramework (document : ParsedDocument) : Prop where
  keeps : document.declarations.KeepsReference
  keepsConstraints : document.declarations.KeepsConstraints
  within : document.IsWithinDepth
  spanned : ∀ expr ∈ document.expressions, ∃ span, expr.span = some span

/-- The arguments fit the form of a constraint. -/
def Suits (document : ParsedDocument) : ConstraintForm → List Argument → Prop
  | .property _, _ => True
  | .call name, [argument] =>
    document.table.Takes (takes name.owner name.member) (document.slotOf argument)
  | .within name, [argument, tolerance] =>
    document.table.Takes (takes name.owner name.member) (document.slotOf argument) ∧
      document.table.Takes (takes "EqualConstraint" "Within") (document.slotOf tolerance)
  | .typeCheck _ count, _ => count = 1
  | _, _ => False

instance (document : ParsedDocument) :
    (form : ConstraintForm) → (arguments : List Argument) →
      Decidable (document.Suits form arguments)
  | .property _, _ => inferInstanceAs (Decidable True)
  | .call _, [_] => inferInstanceAs (Decidable (TypeTable.Takes ..))
  | .within _, [_, _] => inferInstanceAs (Decidable (_ ∧ _))
  | .typeCheck _ count, _ => inferInstanceAs (Decidable (count = 1))
  | .call _, [] | .call _, _ :: _ :: _ => inferInstanceAs (Decidable False)
  | .within _, [] | .within _, [_] | .within _, _ :: _ :: _ :: _ =>
    inferInstanceAs (Decidable False)

/-- What an expression of a document is bound to without memory. -/
def boundOf (document : ParsedDocument) (expr : Expr) : Bound :=
  Id.run (document.totalBinder.bind expr)

variable {document : ParsedDocument} (keeps : document.KeepsFramework) {owner member : String}
  {target : Expr} {list : ArgumentList} {span : Option Span}

section

include keeps

theorem boundOf_memberAccess {target : Expr} {simple : SimpleName} {span : Option Span}
    (inside : .memberAccess target simple span ∈ document.expressions) :
    target ∈ document.expressions ∧ ∃ scope, document.boundOf (.memberAccess target simple span) =
      document.table.bindMember scope (document.boundOf target) simple := by
  rcases keeps.spanned _ inside with ⟨place, spanIs⟩
  refine ⟨document.isClosed_expressions.child inside (by simp [Expr.children]),
    document.table.scopeAt place.start, ?_⟩
  rw [boundOf, totalBinder_bind keeps.within inside spanIs]
  rfl

theorem boundOf_of_before? {expr target : Expr} {name : String}
    (inside : expr ∈ document.expressions) (isBefore : expr.before? name = some target) :
    target ∈ document.expressions ∧ ∃ scope simple, simple.identifier = name ∧
      simple.typeArguments = none ∧
        document.boundOf expr =
          document.table.bindMember scope (document.boundOf target) simple := by
  rcases Expr.exists_of_before? isBefore with ⟨simple, span, rfl, isName, noArguments⟩
  rcases boundOf_memberAccess keeps inside with ⟨isInside, scope, isBound⟩
  exact ⟨isInside, scope, simple, isName, noArguments, isBound⟩

/-- A call is what its target resolves to. -/
theorem boundOf_invocation {target : Expr} {list : ArgumentList} {span : Option Span}
    (inside : .invocation target list span ∈ document.expressions)
    {receiver : Option TypeSymbol} {explicit : List TypeSymbol} {candidates : List MethodCandidate}
    (calls : document.boundOf target = .methods ⟨receiver, explicit, candidates, []⟩) :
    document.boundOf (.invocation target list span) =
      ((document.table.resolveAmong? candidates (list.arguments.map document.slotOf) explicit).map
        Bound.ofMethod).getD .unknown := by
  rcases keeps.spanned _ inside with ⟨place, spanIs⟩
  rw [boundOf, totalBinder_bind keeps.within inside spanIs]
  have slots_eq : Id.run (list.arguments.mapM document.totalBinder.argumentSlot) =
      list.arguments.map document.slotOf :=
    List.idRun_mapM
  simp only [boundOf, Id.run] at calls slots_eq
  simp only [Binder.bindStep, Binder.bindInvocation, Bind.bind, Id.run, calls, slots_eq]
  rw [show document.totalBinder.table = document.table from rfl,
    resolveOverload?_of_noExtensions]
  cases document.table.resolveAmong? candidates (list.arguments.map document.slotOf) explicit <;>
    rfl

theorem isOf_boundOf_receiver {name : ConstraintName} (isReached : ConstraintForm.IsReached name)
    {receiver head : Expr} (inside : receiver ∈ document.expressions)
    (isHead : name.head? receiver = some head)
    (headIs : document.boundOf head = .typeReference (surfaceType name.helper)) :
    (document.boundOf receiver).IsOf name.owner ∧ (name.isNegated = false →
      document.boundOf receiver = .typeReference (surfaceType name.owner)) := by
  cases isNegated : name.isNegated with
  | false =>
    rw [ConstraintName.head?, isNegated, if_neg Bool.false_ne_true] at isHead
    cases isHead
    rw [ConstraintName.owner, isNegated, if_neg Bool.false_ne_true]
    exact ⟨.inl headIs, fun _ => headIs⟩
  | true =>
    rw [ConstraintName.head?, isNegated, if_pos rfl] at isHead
    rw [ConstraintName.owner, isNegated, if_pos rfl]
    refine ⟨.inr ?_, nofun⟩
    rcases isReached.negation isNegated with ⟨has, isMember⟩
    rcases boundOf_of_before? keeps inside isHead with
      ⟨-, scope, simple, isName, noArguments, isBound⟩
    rw [isBound]
    exact bindMember_of_hasProperty keeps.keeps has isMember (.inl headIs) isName noArguments scope

/-- The methods that the target of a constraint call stands for. -/
theorem boundOf_method {name : ConstraintName} (isMethod : ConstraintForm.IsMethod name)
    {receiver head target : Expr} {simple : SimpleName} {span : Option Span}
    (isTarget : target = .memberAccess receiver simple span)
    (isName : simple.identifier = name.member) (inside : target ∈ document.expressions)
    (isHead : name.head? receiver = some head)
    (headIs : document.boundOf head = .typeReference (surfaceType name.helper)) :
    ∃ scope receiver, document.boundOf target =
      .methods ⟨receiver, document.table.writtenArguments scope simple,
        memberCandidates (surfaceType name.owner) name.member, []⟩ := by
  subst isTarget
  rcases boundOf_memberAccess keeps inside with ⟨isInside, scope, isBound⟩
  rcases isOf_boundOf_receiver keeps isMethod.toIsReached isInside isHead headIs with
    ⟨isOf, isReference⟩
  refine ⟨scope, ?_⟩
  rw [isBound]
  refine bindMember_of_isConstraintMethod keeps.keeps isMethod.isMethod isMethod.isMember isOf
    isName scope fun notReference => ?_
  refine extensionMethods_eq_nil keeps.keepsConstraints (isMethod.isValueMethod ?_) scope
  by_contra notNegated
  exact notReference (isReference (Bool.eq_false_iff.mpr notNegated))

/-- A call of a constraint method gives what a method of this name returns if it resolves. -/
theorem boundOf_constraintCall (isMethod : IsConstraintMethod owner member)
    (inside : .invocation target list span ∈ document.expressions) {receiver : Option TypeSymbol}
    {explicit : List TypeSymbol} (calls : document.boundOf target =
      .methods ⟨receiver, explicit, memberCandidates (surfaceType owner) member, []⟩)
    {resolves : Prop} (resolves_iff : (document.table.resolveAmong?
      (memberCandidates (surfaceType owner) member) (list.arguments.map document.slotOf)
        explicit).isSome = true ↔ resolves) :
    (resolves → (document.boundOf (.invocation target list span)).IsResultOf owner member) ∧
      (¬resolves → document.boundOf (.invocation target list span) = .unknown) := by
  have isBound := boundOf_invocation keeps inside calls
  constructor
  · intro resolves
    rcases Option.isSome_iff_exists.mp (resolves_iff.mpr resolves) with ⟨method, isResolved⟩
    rcases exists_returnType_of_resolveAmong? isMethod keeps.keeps isResolved with
      ⟨declared, isDeclared, result, isResult, isNamed, returnType⟩
    refine ⟨declared, isDeclared, result, isResult, isNamed, some (.method method), ?_⟩
    rw [isBound, isResolved, ← returnType]
    rfl
  · intro fails
    rw [← resolves_iff, Option.not_isSome_iff_eq_none] at fails
    rw [isBound, fails]
    rfl

/-- With one argument it resolves if the method takes the argument. -/
theorem boundOf_argumentCall (isMethod : IsConstraintMethod owner member)
    (inside : .invocation target list span ∈ document.expressions) {receiver : Option TypeSymbol}
    (calls : document.boundOf target =
      .methods ⟨receiver, [], memberCandidates (surfaceType owner) member, []⟩)
    {argument : Argument} (isList : list.arguments = [argument])
    (unlabelled : argument.name = none) :
    (document.table.Takes (takes owner member) (document.slotOf argument) →
      (document.boundOf (.invocation target list span)).IsResultOf owner member) ∧
    (¬document.table.Takes (takes owner member) (document.slotOf argument) →
      document.boundOf (.invocation target list span) = .unknown) := by
  refine boundOf_constraintCall keeps isMethod inside calls ?_
  rw [isList]
  exact isSome_resolveAmong?_argument isMethod keeps.keeps unlabelled

/-- A call of what is not known is not known. -/
theorem boundOf_invocation_of_unknown {name : String} {receiver : Expr}
    (inside : .invocation target list span ∈ document.expressions)
    (isBefore : target.before? name = some receiver)
    (isUnknown : document.boundOf receiver = .unknown) :
    document.boundOf (.invocation target list span) = .unknown := by
  have isInside : target ∈ document.expressions :=
    document.isClosed_expressions.child inside List.mem_cons_self
  rcases boundOf_of_before? keeps isInside isBefore with ⟨-, scope, simple, -, -, isBound⟩
  rw [isUnknown, bindMember] at isBound
  rcases Expr.exists_of_before? isBefore with ⟨simple, place, rfl, -⟩
  rcases keeps.spanned _ inside with ⟨place, spanIs⟩
  rw [boundOf, totalBinder_bind keeps.within inside spanIs]
  simp only [boundOf, Id.run] at isBound
  simp only [Binder.bindStep, Binder.bindInvocation, Bind.bind, Id.run, isBound]
  rfl

/-- A call of a constraint method with one argument gives a constraint if the method takes the
argument, and nothing otherwise. -/
theorem boundOf_of_readCall? {name : ConstraintName} (isMethod : ConstraintForm.IsMethod name)
    {expr head : Expr} {argument : Argument} (inside : expr ∈ document.expressions)
    (isRead : ConstraintForm.readCall? name expr = some (head, argument))
    (headIs : document.boundOf head = .typeReference (surfaceType name.helper)) :
    (document.table.Takes (takes name.owner name.member) (document.slotOf argument) →
      (document.boundOf expr).IsResultOf name.owner name.member) ∧
    (¬document.table.Takes (takes name.owner name.member) (document.slotOf argument) →
      document.boundOf expr = .unknown) := by
  rcases ConstraintForm.exists_of_readCall? isRead with
    ⟨target, list, span, rfl, isList, unlabelled, isProperty⟩
  rcases ConstraintForm.exists_of_readProperty? isProperty with ⟨receiver, isBefore, isHead⟩
  rcases Expr.exists_of_before? isBefore with ⟨simple, place, isTarget, isName, noArguments⟩
  have isInside : target ∈ document.expressions :=
    document.isClosed_expressions.child inside List.mem_cons_self
  rcases boundOf_method keeps isMethod isTarget isName isInside isHead headIs with
    ⟨scope, group, calls⟩
  rw [writtenArguments, noArguments, Option.getD_none, resolveAll] at calls
  exact boundOf_argumentCall keeps isMethod.isMethod inside calls isList unlabelled

/-- A constraint for equality with a tolerance behind it. -/
theorem boundOf_within {inner : Expr} {tolerance : Argument}
    (inside : .invocation target list span ∈ document.expressions)
    (isList : list.arguments = [tolerance]) (unlabelled : tolerance.name = none)
    (isBefore : target.before? "Within" = some inner)
    (isEqual : (document.boundOf inner).IsOf "EqualConstraint") :
    (document.table.Takes (takes "EqualConstraint" "Within") (document.slotOf tolerance) →
      (document.boundOf (.invocation target list span)).IsResultOf "EqualConstraint" "Within") ∧
    (¬document.table.Takes (takes "EqualConstraint" "Within") (document.slotOf tolerance) →
      document.boundOf (.invocation target list span) = .unknown) := by
  have isInside : target ∈ document.expressions :=
    document.isClosed_expressions.child inside List.mem_cons_self
  rcases isConstraintMethod_within with ⟨isMethod, isMember⟩
  rcases boundOf_of_before? keeps isInside isBefore with
    ⟨-, scope, simple, isName, noArguments, isBound⟩
  rcases bindMember_of_isConstraintMethod keeps.keeps isMethod isMember isEqual isName scope
    (fun _ => extensionMethods_eq_nil keeps.keepsConstraints (by decide) scope)
    with ⟨receiver, calls⟩
  rw [writtenArguments, noArguments, Option.getD_none, resolveAll, ← isBound] at calls
  exact boundOf_argumentCall keeps isMethod inside calls isList unlabelled

/-- An expression of the form of a constraint is a constraint if its arguments suit it, and nothing
is known of it otherwise. -/
theorem boundOf_of_read? {form : ConstraintForm} (isKnown : form.IsKnown) {expr head : Expr}
    {arguments : List Argument} (inside : expr ∈ document.expressions)
    (isRead : form.read? expr = some (head, arguments))
    (headIs : document.boundOf head = .typeReference (surfaceType form.name.helper)) :
    (document.Suits form arguments → ∃ result ∈ constraintNames, ∃ symbol,
      document.boundOf expr = .value (surfaceType result) symbol) ∧
    (¬document.Suits form arguments → document.boundOf expr = .unknown) := by
  cases form with
  | property name =>
    rcases Option.map_eq_some_iff.mp isRead with ⟨_, isHead, same⟩
    cases same
    rcases ConstraintForm.exists_of_readProperty? isHead with ⟨receiver, isBefore, isHead⟩
    rcases isKnown with ⟨isReached, result, isResult, has⟩
    rcases boundOf_of_before? keeps inside isBefore with
      ⟨isInside, scope, simple, isName, noArguments, isBound⟩
    have isOf := (isOf_boundOf_receiver keeps isReached isInside isHead headIs).1
    refine ⟨fun _ => ⟨result, isResult, ?_⟩, fun fails => absurd trivial fails⟩
    rw [isBound]
    exact bindMember_of_hasProperty keeps.keeps has isReached.isMember isOf isName noArguments scope
  | call name =>
    rcases Option.map_eq_some_iff.mp isRead with ⟨⟨_, argument⟩, isCall, same⟩
    cases same
    rcases boundOf_of_readCall? keeps isKnown inside isCall headIs with ⟨isResult, isUnknown⟩
    exact ⟨fun suits => (isResult suits).isConstraint, isUnknown⟩
  | within name =>
    rcases Option.map_eq_some_iff.mp isRead with ⟨⟨_, argument, tolerance⟩, isWithin, same⟩
    cases same
    rcases ConstraintForm.exists_of_readWithin? isWithin with
      ⟨target, list, span, inner, rfl, isList, unlabelled, isBefore, isCall⟩
    have isInside : target ∈ document.expressions :=
      document.isClosed_expressions.child inside List.mem_cons_self
    have innerInside := (boundOf_of_before? keeps isInside isBefore).1
    rcases boundOf_of_readCall? keeps isKnown.1 innerInside isCall headIs with ⟨isResult, isUnknown⟩
    by_cases isTaken :
        document.table.Takes (takes name.owner name.member) (document.slotOf argument)
    · rcases isResult isTaken with ⟨method, isListed, result, -, isNamed, symbol, isValue⟩
      cases (isKnown.2 method isListed).symm.trans isNamed
      rcases boundOf_within keeps inside isList unlabelled isBefore (.inr ⟨symbol, isValue⟩) with
        ⟨isResult, isUnknown⟩
      exact ⟨fun suits => (isResult suits.2).isConstraint,
        fun fails => isUnknown fun suits => fails ⟨isTaken, suits⟩⟩
    · exact ⟨fun suits => absurd suits.1 isTaken, fun _ =>
        boundOf_invocation_of_unknown keeps inside isBefore (isUnknown isTaken)⟩
  | typeCheck name count =>
    rcases Option.map_eq_some_iff.mp isRead with ⟨_, isCheck, same⟩
    cases same
    rcases ConstraintForm.exists_of_readTypeCheck? isCheck with
      ⟨receiver, simple, place, list, span, rfl, noArguments, isName, isCount, isHead⟩
    have isInside : .memberAccess receiver simple place ∈ document.expressions :=
      document.isClosed_expressions.child inside List.mem_cons_self
    rcases boundOf_method keeps isKnown.1 rfl isName isInside isHead headIs with
      ⟨scope, group, calls⟩
    have resolves_iff := isSome_resolveAmong?_typeArguments isKnown.1.isMethod keeps.keeps isKnown.2
      (document.table.writtenArguments scope simple)
    have sameLength : (document.table.writtenArguments scope simple).length = count := by
      rcases Option.map_eq_some_iff.mp isCount with ⟨written, isWritten, rfl⟩
      rw [writtenArguments, length_resolveAll, isWritten, Option.getD_some]
    rw [sameLength] at resolves_iff
    rw [show ([] : List ArgumentSlot) = list.arguments.map document.slotOf by rw [noArguments]; rfl]
      at resolves_iff
    rcases boundOf_constraintCall keeps isKnown.1.isMethod inside calls resolves_iff with
      ⟨isResult, isUnknown⟩
    exact ⟨fun suits => (isResult suits).isConstraint, isUnknown⟩

end

end ParsedDocument

end AssertionLint
