import AssertionLint.Proofs.Binding.LocalTypes
import AssertionLint.Proofs.Binding.Scopes

/-!
# The innermost declaration

A simple name in a body stands for a local or for a parameter in scope. Of several locals it is the
one that became visible last, of several parameters the one of the body that starts last, and both
are the innermost ones of their kind. But a local comes first, also where a parameter of a lambda or
of a local function inside of its scope hides it (`Binder.bindName_innermost`).
-/

namespace AssertionLint

/-- What a simple name stands for inside of bodies. -/
inductive Variable
  | declared (found : LocalDecl)
  | parameter (around : BodyScope) (found : ParameterDecl)

namespace Variable

/-- The scope that the variable is declared in. -/
def scoping : Variable → Scoping
  | declared found => .declared found
  | parameter around _ => .body around

def scope (variable_ : Variable) : Span := variable_.scoping.scope

def isLocal : Variable → Bool
  | declared _ => true
  | parameter .. => false

end Variable

/-- What starts last comes first in the sorted list. -/
theorem pairwise_mergeSort_start {α : Type} (start : α → Nat) (items : List α) :
    (items.mergeSort fun left right => start right ≤ start left).Pairwise fun left right =>
      start right ≤ start left := by
  have sorted : (items.mergeSort fun left right => start right ≤ start left).Pairwise
      fun left right => decide (start right ≤ start left) = true := by
    apply List.pairwise_mergeSort
    · intro one other third first second
      rw [decide_eq_true_eq] at first second ⊢
      omega
    · intro one other
      rw [Bool.or_eq_true, decide_eq_true_eq, decide_eq_true_eq]
      omega
  exact sorted.imp of_decide_eq_true

namespace Declarations

variable {declarations : Declarations} {name : String} {offset : Nat}

/-- The declarations have a variable of the name, and it is in scope at the offset. -/
def InScope (declarations : Declarations) (name : String) (offset : Nat) : Variable → Prop
  | .declared found =>
    found ∈ declarations.locals ∧ found.name = name ∧ found.IsVisibleAt offset
  | .parameter around found =>
    around ∈ declarations.bodies ∧ (found ∈ around.parameters ∧ found.name = name) ∧
      around.span.encloses offset = true

theorem InScope.opens {variable_ : Variable}
    (inScope : declarations.InScope name offset variable_) :
    declarations.Opens variable_.scoping ∧ variable_.scoping.IsVisibleAt offset := by
  cases variable_ with
  | declared found => exact ⟨inScope.1, inScope.2.2⟩
  | parameter around found => exact ⟨inScope.1, inScope.2.2⟩

theorem visibleLocal?_eq_none_iff : declarations.visibleLocal? name offset = none ↔
    ∀ found, ¬declarations.InScope name offset (.declared found) := by
  constructor
  · rintro none found ⟨isLocal, nameIs, visible⟩
    rcases exists_visibleLocal? isLocal visible with ⟨latest, latestIs⟩
    rw [nameIs, none] at latestIs
    cases latestIs
  · intro noLocal
    rw [Option.eq_none_iff_forall_ne_some]
    intro found visible
    exact noLocal found (of_visibleLocal? visible).1

/-- The parameter that a name stands for is one of the body that starts last. -/
theorem of_visibleParameter? {found : ParameterDecl}
    (visible : declarations.visibleParameter? name offset = some found) :
    ∃ around, declarations.InScope name offset (.parameter around found) ∧
      ∀ other hidden, declarations.InScope name offset (.parameter other hidden) →
        other.span.start ≤ around.span.start := by
  rcases List.findSome?_eq_some_iff.mp visible with
    ⟨before, around, behind, split_eq, isFound, noneBefore⟩
  have sorted := pairwise_mergeSort_start (·.span.start) (declarations.bodiesAround offset)
  have mem_iff (body : BodyScope) : body ∈ before ++ around :: behind ↔
      body ∈ declarations.bodies ∧ body.span.encloses offset = true := by
    rw [← split_eq, List.mem_mergeSort, bodiesAround, List.mem_filter]
  rcases (mem_iff around).mp (List.mem_append_right _ List.mem_cons_self) with ⟨isBody, encloses⟩
  refine ⟨around, ⟨isBody, ⟨List.mem_of_find?_eq_some isFound, ?_⟩, encloses⟩, ?_⟩
  · simpa using List.find?_some isFound
  rintro other hidden ⟨isBody, ⟨isParameter, nameIs⟩, encloses⟩
  rw [split_eq] at sorted
  rcases List.mem_append.mp ((mem_iff other).mpr ⟨isBody, encloses⟩) with isBefore | isBehind
  · -- a body that starts later has no parameter of the name
    have none := List.find?_eq_none.mp (noneBefore other isBefore) hidden isParameter
    exact absurd (beq_iff_eq.mpr nameIs) none
  · rcases List.mem_cons.mp isBehind with rfl | isBehind
    · exact Nat.le_refl _
    · have ordered := (List.pairwise_append.mp sorted).2.1
      exact List.rel_of_pairwise_cons ordered isBehind

theorem visibleParameter?_eq_none_iff : declarations.visibleParameter? name offset = none ↔
    ∀ around found, ¬declarations.InScope name offset (.parameter around found) := by
  simp only [visibleParameter?, List.findSome?_eq_none_iff, List.mem_mergeSort, bodiesAround,
    List.mem_filter, List.find?_eq_none, InScope]
  grind

end Declarations

namespace Binder

variable {m : Type → Type} [Monad m]

/-- A variable, named at an offset. -/
def bindVariable (binder : Binder m) (offset : Nat) : Variable → m Bound
  | .declared found => do
    let type ← binder.localType (binder.table.scopeAt offset) found
    pure (.value type (some (.localVariable found.name type)))
  | .parameter _ found =>
    let type := (found.type.map (binder.table.resolve (binder.table.scopeAt offset))).getD .unknown
    pure (.value type (some (.parameter found.name type)))

variable {binder : Binder m} {offset : Nat} {written : SimpleName}

theorem bindName_of_visibleLocal? {found : LocalDecl} (plain : written.typeArguments = none)
    (visible : binder.table.document.visibleLocal? written.identifier offset = some found) :
    binder.bindName offset written = binder.bindVariable offset (.declared found) := by
  simp [bindName, bindVariable, plain, visible]

theorem bindName_of_visibleParameter? {around : BodyScope} {found : ParameterDecl}
    (plain : written.typeArguments = none)
    (noLocal : binder.table.document.visibleLocal? written.identifier offset = none)
    (visible : binder.table.document.visibleParameter? written.identifier offset = some found) :
    binder.bindName offset written = binder.bindVariable offset (.parameter around found) := by
  simp [bindName, bindVariable, plain, noLocal, visible]

/-- In a document, a simple name that has variables in scope stands for one of them: for the
innermost local, or if there is none, for the innermost parameter. So it is the innermost variable,
unless it is a local around the body of a parameter. -/
theorem bindName_innermost {source : String} {node : Node} (isDocument : node.IsDocument source)
    {m : Type → Type} [Monad m] (binder : Binder m)
    (tableIs : binder.table = (ParsedDocument.ofNode source node).table) {offset : Nat}
    {written : SimpleName} (plain : written.typeArguments = none)
    (someInScope : ∃ variable_,
      binder.table.document.InScope written.identifier offset variable_) :
    ∃ chosen, binder.table.document.InScope written.identifier offset chosen ∧
      binder.bindName offset written = binder.bindVariable offset chosen ∧
      ∀ other, binder.table.document.InScope written.identifier offset other →
        (other.isLocal = true → chosen.isLocal = true) ∧
          (other.scope.contains chosen.scope = true ∨
            (chosen.isLocal = true ∧ other.isLocal = false ∧
              chosen.scope.contains other.scope = true)) := by
  have nested {one other : Variable}
      (isOne : binder.table.document.InScope written.identifier offset one)
      (isOther : binder.table.document.InScope written.identifier offset other)
      (le : one.scoping.opens ≤ other.scoping.opens) :
      one.scope.contains other.scope = true := by
    have opens := isOne.opens
    have opens' := isOther.opens
    rw [tableIs] at opens opens'
    exact ParsedDocument.contains_of_opens isDocument opens.1 opens'.1 opens.2 opens'.2 le
  -- a local wins even over the parameter of a body inside its scope
  cases localIs : binder.table.document.visibleLocal? written.identifier offset with
  | some found =>
    rcases Declarations.of_visibleLocal? localIs with ⟨inScope, bounds⟩
    have inScope : binder.table.document.InScope written.identifier offset (.declared found) :=
      inScope
    refine ⟨.declared found, inScope, bindName_of_visibleLocal? plain localIs, ?_⟩
    intro other isOther
    refine ⟨fun _ => rfl, ?_⟩
    cases other with
    | declared hidden =>
      exact .inl (nested isOther inScope (bounds hidden isOther.1 isOther.2.1 isOther.2.2))
    | parameter around hidden =>
      rcases Nat.le_total (Variable.parameter around hidden).scoping.opens
        (Variable.declared found).scoping.opens with le | le
      · exact .inl (nested isOther inScope le)
      · exact .inr ⟨rfl, rfl, nested inScope isOther le⟩
  | none =>
    have noLocal := Declarations.visibleLocal?_eq_none_iff.mp localIs
    obtain ⟨found, parameterIs⟩ : ∃ found,
        binder.table.document.visibleParameter? written.identifier offset = some found := by
      rw [← Option.ne_none_iff_exists']
      intro none
      rcases someInScope with ⟨declared | parameter, inScope⟩
      · exact noLocal _ inScope
      · exact Declarations.visibleParameter?_eq_none_iff.mp none _ _ inScope
    rcases Declarations.of_visibleParameter? parameterIs with ⟨around, inScope, bounds⟩
    refine ⟨.parameter around found, inScope,
      bindName_of_visibleParameter? plain localIs parameterIs, ?_⟩
    intro other isOther
    cases other with
    | declared hidden => exact absurd isOther (noLocal hidden)
    | parameter around' hidden =>
      have le := bounds around' hidden isOther
      exact ⟨nofun, .inl (nested isOther inScope (Nat.succ_le_succ le))⟩

/-- A method with a parameter that its body uses. -/
def methodWithParameter : ParsedDocument :=
  .ofSource "class A \x7b void M(int x) \x7b Use(x); \x7d \x7d"

/-- In a method without locals, the name of a parameter stands for the parameter. -/
theorem bindName_innermost_methodWithParameter :
    (∃ variable_, methodWithParameter.declarations.InScope "x" 30 variable_) ∧
      ∃ chosen, methodWithParameter.declarations.InScope "x" 30 chosen ∧
        chosen.isLocal = false ∧
        (methodWithParameter.table.rememberingBinder TypeTable.maxBindDepth).bindName 30
            ⟨"x", none, none⟩ =
          (methodWithParameter.table.rememberingBinder TypeTable.maxBindDepth).bindVariable 30
            chosen := by
  obtain ⟨isSome, noLocal⟩ :
      (methodWithParameter.declarations.visibleParameter? "x" 30).isSome = true ∧
      methodWithParameter.declarations.locals.isEmpty = true := by
    decide +kernel
  obtain ⟨found, parameterIs⟩ := Option.isSome_iff_exists.mp isSome
  rcases Declarations.of_visibleParameter? parameterIs with ⟨around, inScope, -⟩
  refine ⟨⟨_, inScope⟩, ?_⟩
  rcases bindName_innermost (Node.isDocument_ofSource methodWithParameter.tree.source)
    (methodWithParameter.table.rememberingBinder TypeTable.maxBindDepth) rfl
    (show (⟨"x", none, none⟩ : SimpleName).typeArguments = none from rfl) ⟨_, inScope⟩ with
    ⟨chosen, isChosen, bound_eq, -⟩
  refine ⟨chosen, isChosen, ?_, bound_eq⟩
  cases chosen with
  | declared found =>
    have isLocal : found ∈ methodWithParameter.declarations.locals := isChosen.1
    rw [List.isEmpty_iff.mp noLocal] at isLocal
    cases isLocal
  | parameter around found => rfl

/-- A method with a local, and behind it a lambda with a parameter of the same name. -/
def lambdaInMethod : ParsedDocument :=
  .ofSource
    "class A \x7b void M() \x7b int x = 1; F((string x) => \x7b Use(x); \x7d); \x7d \x7d"

/-- In the lambda, the name stands for the local, although the body with the parameter is further
inside. -/
theorem exists_local_around_parameter : ∃ found around hidden type,
    lambdaInMethod.declarations.InScope "x" 54 (.declared found) ∧
      lambdaInMethod.declarations.InScope "x" 54 (.parameter around hidden) ∧
      found.scope.contains around.span = true ∧ around.span.contains found.scope = false ∧
      (lambdaInMethod.table.rememberingBinder TypeTable.maxBindDepth).bindName 54
          ⟨"x", none, none⟩ =
        pure (.value type (some (.localVariable "x" type))) := by
  obtain ⟨isSome, isWritten, inside⟩ :
      (lambdaInMethod.declarations.visibleLocal? "x" 54).isSome = true ∧
      (∀ found ∈ lambdaInMethod.declarations.locals, found.type.isSome = true) ∧
      ∀ found ∈ lambdaInMethod.declarations.locals, ∃ around ∈ lambdaInMethod.declarations.bodies,
        (∃ hidden ∈ around.parameters, hidden.name = "x") ∧ around.span.encloses 54 = true ∧
          found.scope.contains around.span = true ∧
            around.span.contains found.scope = false := by
    decide +kernel
  obtain ⟨found, localIs⟩ := Option.isSome_iff_exists.mp isSome
  have inScope := (Declarations.of_visibleLocal? localIs).1
  obtain ⟨written, typeIs⟩ := Option.isSome_iff_exists.mp (isWritten found inScope.1)
  rcases inside found inScope.1 with
    ⟨around, isBody, ⟨hidden, isParameter, nameIs⟩, encloses, contains, further⟩
  refine ⟨found, around, hidden,
    lambdaInMethod.table.resolve (lambdaInMethod.table.scopeAt 54) written, inScope,
    ⟨isBody, ⟨isParameter, nameIs⟩, encloses⟩, contains, further, ?_⟩
  rw [bindName_of_visibleLocal? rfl localIs]
  simp only [bindVariable, localType, typeIs, inScope.2.1, pure_bind]
  rfl

end Binder

end AssertionLint
