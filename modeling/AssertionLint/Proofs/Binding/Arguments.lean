import AssertionLint.Assertions.CallShape
import AssertionLint.Binding.Overload
import AssertionLint.CSharp.Expr.Build
import AssertionLint.Reference.Surface
import Mathlib.Data.List.Forall2

/-!
# Arguments of assertion calls

Overload resolution and the reading of an assertion call each give the arguments of a call their
parameters: the first over the declared parameters and in one of two forms, the second over the
symbol of the method and without knowing the form. If only the last parameter can take more than one
argument, both give every argument the same parameter (`CallShape.bind?_follows_assign?`).
-/

namespace AssertionLint

namespace MethodDecl

/-- The parameter at a place takes any number of arguments. -/
def takesRest (parameters : List ParameterDecl) (place : Nat) : Bool :=
  parameters[place]?.any (·.isParams)

/-- Only the last parameter may take any number of arguments, and only such a parameter may have the
name `args`. -/
def CatchAllIsLast (parameters : List ParameterDecl) : Prop :=
  ∀ entry ∈ parameters.zipIdx, entry.1.isParams = true ∨ entry.1.name = "args" →
    entry.1.isParams = true ∧ entry.2 + 1 = parameters.length

instance (parameters : List ParameterDecl) : Decidable (CatchAllIsLast parameters) :=
  inferInstanceAs (Decidable (∀ entry ∈ parameters.zipIdx, _ → _))

/-- The parameters of a symbol are those of a declaration. -/
def Describes (declared : List ParameterDecl) (parameters : List ParameterSymbol) : Prop :=
  parameters.map (fun parameter => (parameter.name, parameter.isParams)) =
    declared.map fun parameter => (parameter.name, parameter.isParams)

end MethodDecl

/-- All methods that a document is read against take a rest of arguments at most at the end. -/
theorem Reference.catchAllIsLast :
    ∀ type ∈ Reference.declarations.types, ∀ method ∈ type.methods,
      MethodDecl.CatchAllIsLast method.parameters := by
  decide +kernel

namespace TypeTable

/-- The symbol of an applicable method has the parameters that the method declares. -/
theorem describes_of_applicableIn? {table : TypeTable} {candidate : MethodCandidate}
    {slots : List ArgumentSlot} {explicit : List TypeSymbol} {expanded : Option Nat}
    {applicable : ApplicableMethod}
    (found : table.applicableIn? candidate slots explicit expanded = some applicable) :
    MethodDecl.Describes candidate.method.parameters applicable.parameters := by
  simp only [applicableIn?, bind, Option.bind_eq_some_iff] at found
  rcases found with ⟨assigned, -, inferred, -, found⟩
  split at found <;> cases found
  simp only [MethodDecl.Describes, signature, ← List.map_prod_left_eq_zip, List.map_map]
  rfl

end TypeTable

namespace MethodDecl

variable {declared : List ParameterDecl} {parameters : List ParameterSymbol}

theorem Describes.length_eq (describes : Describes declared parameters) :
    parameters.length = declared.length := by
  simpa using congrArg List.length describes

theorem Describes.findIdx?_eq (describes : Describes declared parameters)
    (test : String × Bool → Bool) :
    parameters.findIdx? (fun parameter => test (parameter.name, parameter.isParams)) =
      declared.findIdx? fun parameter => test (parameter.name, parameter.isParams) := by
  have mapped := congrArg (List.findIdx? test) describes
  rw [List.findIdx?_map, List.findIdx?_map] at mapped
  exact mapped

theorem Describes.exists_getElem? (describes : Describes declared parameters) {place : Nat}
    {parameter : ParameterDecl} (isAt : declared[place]? = some parameter) :
    ∃ symbol, parameters[place]? = some symbol ∧ symbol.name = parameter.name ∧
      symbol.isParams = parameter.isParams := by
  have mapped := congrArg (·[place]?) describes
  simp only [List.getElem?_map, isAt, Option.map_some, Option.map_eq_some_iff, Prod.mk.injEq]
    at mapped
  exact mapped

theorem CatchAllIsLast.eq_last (isLast : CatchAllIsLast declared) {place : Nat}
    {parameter : ParameterDecl} (isAt : declared[place]? = some parameter)
    (takesAll : parameter.isParams = true ∨ parameter.name = "args") :
    parameter.isParams = true ∧ place + 1 = declared.length :=
  isLast (parameter, place) (List.mk_mem_zipIdx_iff_getElem?.mpr isAt) takesAll

theorem CatchAllIsLast.findIdx?_isCatchAll (isLast : CatchAllIsLast declared)
    (describes : Describes declared parameters) :
    parameters.findIdx? (·.isCatchAll) = declared.findIdx? (·.isParams) := by
  have byName : ∀ place (inside : place < declared.length),
      (declared[place].isParams || declared[place].name == "args") = declared[place].isParams := by
    intro place inside
    by_cases named : declared[place].name = "args"
    · rw [(isLast.eq_last (List.getElem?_eq_getElem inside) (.inr named)).1]
      rfl
    · rw [beq_eq_false_iff_ne.mpr named, Bool.or_false]
  refine (describes.findIdx?_eq fun entry => entry.2 || entry.1 == "args").trans ?_
  ext place
  simp only [List.findIdx?_eq_some_iff_getElem, byName]

theorem CatchAllIsLast.takesRest_eq (isLast : CatchAllIsLast declared)
    (describes : Describes declared parameters) {place : Nat} {symbol : ParameterSymbol}
    (isAt : parameters[place]? = some symbol) :
    symbol.isCatchAll = takesRest declared place := by
  have inside : place < declared.length := by
    rw [← describes.length_eq]
    exact (List.getElem?_eq_some_iff.mp isAt).1
  have declaredAt := List.getElem?_eq_getElem inside
  rcases describes.exists_getElem? declaredAt with ⟨other, otherAt, sameName, sameParams⟩
  cases isAt.symm.trans otherAt
  simp only [ParameterSymbol.isCatchAll, takesRest, declaredAt, Option.any_some, sameName,
    sameParams]
  by_cases named : declared[place].name = "args"
  · rw [(isLast.eq_last declaredAt (.inr named)).1]
    rfl
  · rw [beq_eq_false_iff_ne.mpr named, Bool.or_false]

/-- The normal form has no expanded parameter, the expanded form the one for the rest. -/
def IsForm (declared : List ParameterDecl) (expanded : Option Nat) : Prop :=
  expanded = none ∨ expanded = declared.findIdx? (·.isParams)

theorem lt_of_takesRest {place : Nat} (rest : takesRest declared place = true) :
    place < declared.length := by
  rcases (Option.any_eq_true_iff_get _ _).mp rest with ⟨isAt, -⟩
  simpa using isAt

theorem takesRest_of_isForm {expanded : Option Nat} (form : IsForm declared expanded) {place : Nat}
    (isExpanded : expanded = some place) : takesRest declared place = true := by
  rcases form with normal | expandedIs
  · rw [normal] at isExpanded
    cases isExpanded
  · rcases List.findIdx?_eq_some_iff_getElem.mp (expandedIs.symm.trans isExpanded) with
      ⟨inside, isParams, -⟩
    rw [takesRest, List.getElem?_eq_getElem inside]
    exact isParams

theorem lt_of_parameterIndex? {expanded : Option Nat} (form : IsForm declared expanded)
    {position place : Nat} {label : Option String}
    (given : parameterIndex? declared expanded position label = some place) :
    place < declared.length := by
  unfold parameterIndex? at given
  split at given
  · exact (List.findIdx?_eq_some_iff_getElem.mp given).1
  · split at given
    · rename_i index reached
      cases given
      exact lt_of_takesRest (takesRest_of_isForm form (Option.filter_eq_some_iff.mp reached).1)
    · split at given
      · rename_i inside
        cases given
        exact inside
      · cases given

/-- Reading a call gives an argument the parameter at the place that resolution gives it. -/
theorem parameterFor?_eq (isLast : CatchAllIsLast declared) {expanded : Option Nat}
    (form : IsForm declared expanded) {method : MethodSymbol}
    (describes : Describes declared method.parameters) {position place : Nat} {argument : Argument}
    (given : parameterIndex? declared expanded position argument.name = some place) :
    CallShape.parameterFor? method position argument = method.parameters[place]? := by
  unfold CallShape.parameterFor?
  cases labelIs : argument.name with
  | some label =>
    simp only [parameterIndex?, labelIs] at given
    have sameIndex := describes.findIdx?_eq fun entry => entry.1 == label
    dsimp only
    rw [MethodSymbol.parameter?, List.find?_eq_bind_findIdx?_getElem?, sameIndex, given]
    rfl
  | none =>
    simp only [parameterIndex?, labelIs] at given
    dsimp only
    rw [isLast.findIdx?_isCatchAll describes]
    cases restIs : declared.findIdx? (·.isParams) with
    | none =>
      have normal : expanded = none := by rcases form with h | h <;> simp [h, restIs]
      simp only [normal, Option.filter_none] at given
      split at given <;> cases given
      rfl
    | some last =>
      rcases List.findIdx?_eq_some_iff_getElem.mp restIs with ⟨inside, isParams, -⟩
      have atEnd := (isLast.eq_last (List.getElem?_eq_getElem inside) (.inl isParams)).2
      dsimp only
      congr 1
      -- in normal form the place is the position, in expanded form it stops at the last parameter
      rcases form with rfl | rfl
      · simp only [Option.filter_none] at given
        split at given <;> cases given
        omega
      · by_cases reached : last ≤ position
        · simp [restIs, Option.filter, reached] at given
          omega
        · simp [restIs, Option.filter, reached] at given
          omega

/-- Reading a call gives each argument the parameter at the place that resolution gives it. -/
theorem exists_assign? (isLast : CatchAllIsLast declared) {expanded : Option Nat}
    (form : IsForm declared expanded) {method : MethodSymbol}
    (describes : Describes declared method.parameters) {arguments : List Argument}
    {position : Nat} {taken places : List Nat}
    (accepted : assignFrom? declared expanded position taken (arguments.map (·.name)) =
      some places) :
    ∃ entries, CallShape.assign? method position arguments = some entries ∧
      entries.map (·.argument) = arguments ∧
      List.Forall₂ (fun entry place => method.parameters[place]? = some entry.parameter)
        entries places := by
  induction arguments generalizing position taken places with
  | nil =>
    cases accepted
    exact ⟨[], rfl, rfl, .nil⟩
  | cons argument rest ih =>
    simp only [List.map_cons, assignFrom?, bind, Option.bind_eq_some_iff] at accepted
    rcases accepted with ⟨place, given, accepted⟩
    split at accepted
    · cases accepted
    · simp only [pure, Option.bind_eq_some_iff, Option.some.injEq] at accepted
      rcases accepted with ⟨others, restAccepted, rfl⟩
      rcases ih restAccepted with ⟨entries, read, same, follow⟩
      have inside : place < method.parameters.length :=
        describes.length_eq ▸ lt_of_parameterIndex? form given
      have parameterIs := parameterFor?_eq isLast form describes given
      rw [List.getElem?_eq_getElem inside] at parameterIs
      refine ⟨⟨method.parameters[place], argument⟩ :: entries, ?_, ?_, ?_⟩
      · simp only [CallShape.assign?, parameterIs, read, bind, Option.bind_some]
        rfl
      · rw [List.map_cons, same]
      · exact .cons (List.getElem?_eq_getElem inside) follow

/-- Only the expanded parameter is given to two arguments. -/
theorem nodup_of_assignFrom? {expanded : Option Nat} {labels : List (Option String)}
    {position : Nat} {taken places : List Nat}
    (accepted : assignFrom? declared expanded position taken labels = some places) :
    (places.filter (expanded ≠ some ·)).Nodup ∧
      ∀ place ∈ places, expanded ≠ some place → place ∉ taken := by
  -- the second half carries the induction: a place that is taken is not given again
  induction labels generalizing position taken places with
  | nil =>
    cases accepted
    simp
  | cons label rest ih =>
    simp only [assignFrom?, bind, Option.bind_eq_some_iff] at accepted
    rcases accepted with ⟨place, -, accepted⟩
    split at accepted
    · cases accepted
    · rename_i isFree
      simp only [pure, Option.bind_eq_some_iff, Option.some.injEq] at accepted
      rcases accepted with ⟨others, restAccepted, rfl⟩
      rcases ih restAccepted with ⟨distinct, untaken⟩
      refine ⟨?_, ?_⟩
      · rw [List.filter_cons]
        split
        · rename_i isOwn
          refine List.nodup_cons.mpr ⟨fun again => ?_, distinct⟩
          exact untaken place (List.mem_filter.mp again).1 (of_decide_eq_true isOwn)
            List.mem_cons_self
        · exact distinct
      · intro other member isOwn
        rcases List.mem_cons.mp member with rfl | later
        · simpa [isOwn] using isFree
        · exact fun earlier => untaken other later isOwn (List.mem_cons_of_mem _ earlier)

end MethodDecl

namespace CallShape

/-- The call gives its arguments to the parameters at the given places: each argument is either
bound to the parameter at its place or, if that takes any number, in the overflow. Both are in
source order, and no parameter is bound twice. -/
structure Follows (shape : CallShape) (method : MethodSymbol) (declared : List ParameterDecl)
    (arguments : List Argument) (places : List Nat) : Prop where
  calls : shape.method = method
  length : places.length = arguments.length
  bound : shape.bound.map (fun entry => (entry.argument, some entry.parameter)) =
    ((arguments.zip places).filter fun given => !MethodDecl.takesRest declared given.2).map
      fun given => (given.1, method.parameters[given.2]?)
  overflow : shape.overflow =
    ((arguments.zip places).filter fun given => MethodDecl.takesRest declared given.2).map (·.1)
  once : (shape.bound.map (·.argument) ++ shape.overflow).Perm arguments
  boundInOrder : (shape.bound.map (·.argument)).Sublist arguments
  overflowInOrder : shape.overflow.Sublist arguments
  distinct : (places.filter fun place => !MethodDecl.takesRest declared place).Nodup

theorem perm_bound_append_overflow (shape : CallShape) :
    (shape.bound.map (·.argument) ++ shape.overflow).Perm shape.arguments := by
  have split := List.filter_append_perm (fun entry => !entry.parameter.isCatchAll) shape.assigned
  simp only [Bool.not_not] at split
  have mapped := split.map (·.argument)
  rw [List.map_append] at mapped
  exact mapped

section

variable {parameters : List ParameterSymbol} {entries : List BoundArgument} {places : List Nat}
  {test : Nat → Bool}
  (follow : List.Forall₂ (fun entry place => parameters[place]? = some entry.parameter) entries
    places)
  (tests : ∀ {place : Nat} {symbol : ParameterSymbol}, parameters[place]? = some symbol →
    symbol.isCatchAll = test place)

include follow tests

theorem map_filter_not_isCatchAll :
    (entries.filter fun entry => !entry.parameter.isCatchAll).map
        (fun entry => (entry.argument, some entry.parameter)) =
      (((entries.map (·.argument)).zip places).filter fun given => !test given.2).map
        fun given => (given.1, parameters[given.2]?) := by
  induction follow with
  | nil => rfl
  | cons parameterIs _ ih =>
    simp only [List.map_cons, List.zip_cons_cons, List.filter_cons, ← tests parameterIs]
    split
    · rw [List.map_cons, List.map_cons, ih, parameterIs]
    · exact ih

theorem map_filter_isCatchAll :
    (entries.filter fun entry => entry.parameter.isCatchAll).map (·.argument) =
      (((entries.map (·.argument)).zip places).filter fun given => test given.2).map (·.1) := by
  induction follow with
  | nil => rfl
  | cons parameterIs _ ih =>
    simp only [List.map_cons, List.zip_cons_cons, List.filter_cons, ← tests parameterIs]
    split
    · rw [List.map_cons, List.map_cons, ih]
    · exact ih

end

open MethodDecl (CatchAllIsLast IsForm Describes) in
/-- Reading a call succeeds on all arguments that resolution accepts, in both forms, and gives them
the same parameters. This covers all methods that a document is read against, with the symbols that
resolution gives them. -/
theorem bind?_follows_assign? :
    (∀ type ∈ Reference.declarations.types, ∀ method ∈ type.methods,
      CatchAllIsLast method.parameters) ∧
    (∀ (table : TypeTable) (candidate : MethodCandidate) (slots : List ArgumentSlot)
      (explicit : List TypeSymbol) (expanded : Option Nat),
      ∀ applicable ∈ table.applicableIn? candidate slots explicit expanded,
        Describes candidate.method.parameters applicable.parameters) ∧
    ∀ {declared : List ParameterDecl} {expanded : Option Nat} {method : MethodSymbol}
      {arguments : List Argument} {places : List Nat}, CatchAllIsLast declared →
      IsForm declared expanded → Describes declared method.parameters →
      MethodDecl.assign? declared expanded (arguments.map fun argument => argument.name) =
        some places →
      ∀ (target : Expr) (listSpan : Option Span) (span : Span), ∃ shape,
        bind? (.invocation target ⟨arguments, listSpan⟩ (some span)) method = some shape ∧
        shape.Follows method declared arguments places := by
  refine ⟨Reference.catchAllIsLast, ?_, ?_⟩
  · intro table candidate slots explicit expanded applicable found
    exact TypeTable.describes_of_applicableIn? found
  intro declared expanded method arguments places isLast form describes accepted target listSpan
    span
  simp only [MethodDecl.assign?, bind, Option.bind_eq_some_iff] at accepted
  rcases accepted with ⟨assigned, given, complete⟩
  split at complete <;> cases complete
  rcases MethodDecl.exists_assign? isLast form describes given with
    ⟨entries, read, same, follow⟩
  let shape : CallShape := ⟨span, target, method, entries⟩
  have tests := fun {place : Nat} {symbol : ParameterSymbol}
    (isAt : method.parameters[place]? = some symbol) => isLast.takesRest_eq describes isAt
  have argumentsAre : shape.arguments = arguments := same
  refine ⟨shape, ?_, rfl, ?_, ?_, ?_, ?_, ?_, ?_, ?_⟩
  · simp only [bind?, Expr.span, Expr.asInvocation?, bind, Option.bind_some, read]
    rfl
  · rw [← same, List.length_map, follow.length_eq]
  · rw [← same]
    exact map_filter_not_isCatchAll follow tests
  · rw [← same]
    exact map_filter_isCatchAll follow tests
  · rw [← argumentsAre]
    exact shape.perm_bound_append_overflow
  · rw [← argumentsAre]
    exact (List.filter_sublist).map _
  · rw [← argumentsAre]
    exact (List.filter_sublist).map _
  · have own := (MethodDecl.nodup_of_assignFrom? given).1
    refine own.sublist (List.monotone_filter_right places fun place isOwn => ?_)
    refine decide_eq_true fun isExpanded => ?_
    simp [MethodDecl.takesRest_of_isForm form isExpanded] at isOwn

/-- The arguments `actual: a, expected: b, message: c, delta: d, e, f`. -/
def reorderedArguments : List Argument :=
  [argument (some "actual") "a", argument (some "expected") "b", argument (some "message") "c",
    argument (some "delta") "d", argument none "e", argument none "f"]
where
  argument (label : Option String) (value : String) : Argument :=
    ⟨label, none, .identifier value, "", "", none⟩

open MethodDecl (CatchAllIsLast IsForm Describes) in
open Reference in
/-- Four labels out of order, with two more arguments for the last parameter. -/
theorem bind?_follows_reorderedArguments :
    let declared := [param double "expected", param double "actual", param double "delta",
      param string "message", rest (arrayOf object) "args"]
    let method : MethodSymbol :=
      ⟨"AreEqual", .unknown, declared.map fun parameter =>
        ⟨parameter.name, .unknown, parameter.isParams, parameter.isOptional⟩, .unknown, [], true,
        false, false⟩
    let places := [1, 0, 3, 2, 4, 4]
    CatchAllIsLast declared ∧ IsForm declared (some 4) ∧ Describes declared method.parameters ∧
      MethodDecl.assign? declared (some 4) (reorderedArguments.map fun argument => argument.name) =
        some places ∧
      ∃ shape, bind? (.invocation (.identifier "AreEqual") ⟨reorderedArguments, none⟩
          (some ⟨0, 60⟩)) method = some shape ∧
        shape.Follows method declared reorderedArguments places := by
  intro declared method places
  have isLast : CatchAllIsLast declared := by decide
  have form : IsForm declared (some 4) := .inr rfl
  have describes : Describes declared method.parameters := rfl
  have accepted : MethodDecl.assign? declared (some 4)
      (reorderedArguments.map fun argument => argument.name) = some places := by
    decide
  exact ⟨isLast, form, describes, accepted,
    bind?_follows_assign?.2.2 isLast form describes accepted _ _ _⟩

end CallShape

end AssertionLint
