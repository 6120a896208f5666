import AssertionLint.Binding.Overload
import Mathlib.Data.List.Perm.Subperm

/-!
# Calls without labels

Arguments without labels go to the parameters in their order. Where no parameter is optional, a
method takes as many of them as it has parameters, or in expanded form at least one for each
parameter but the last. Whether they convert depends on the types of the parameters, once the type
parameters among these are known (`TypeTable.Accepts`).
-/

namespace AssertionLint

namespace TypeSymbol

mutual

/-- The type mentions no type parameter. -/
def isClosed : TypeSymbol → Bool
  | ⟨_, _, kind, _, typeArguments, elementType, _⟩ =>
    kind ≠ .typeParameter && areClosed typeArguments &&
      match elementType with
      | some element => element.isClosed
      | none => true

/-- No type mentions a type parameter. -/
def areClosed : List TypeSymbol → Bool
  | [] => true
  | type :: rest => type.isClosed && areClosed rest

end

theorem isClosed_mk_iff {name container : String} {kind : TypeKind} {special : SpecialType}
    {typeArguments : List TypeSymbol} {elementType : Option TypeSymbol} {isRefLike : Bool} :
    isClosed ⟨name, container, kind, special, typeArguments, elementType, isRefLike⟩ = true ↔
      kind ≠ .typeParameter ∧ areClosed typeArguments = true ∧
        ∀ element, elementType = some element → element.isClosed = true := by
  cases elementType <;> simp [isClosed, and_assoc]

mutual

theorem substitute_of_isClosed (substitution : Substitution) :
    ∀ type : TypeSymbol, type.isClosed = true → type.substitute substitution = type
  | ⟨name, container, kind, special, typeArguments, elementType, isRefLike⟩, closed => by
    rcases isClosed_mk_iff.mp closed with ⟨notParameter, areClosed, elementClosed⟩
    rw [substitute.eq_def]
    dsimp only
    rw [if_neg notParameter, substituteAll_of_areClosed substitution _ areClosed]
    congr 1
    split
    · rename_i element
      rw [substitute_of_isClosed substitution element (elementClosed element rfl)]
    · rfl

theorem substituteAll_of_areClosed (substitution : Substitution) :
    ∀ types : List TypeSymbol, areClosed types = true →
      substituteAll substitution types = types
  | [], _ => rfl
  | type :: rest, closed => by
    rw [areClosed, Bool.and_eq_true] at closed
    rw [substituteAll, substitute_of_isClosed substitution type closed.1,
      substituteAll_of_areClosed substitution rest closed.2]

end

end TypeSymbol

namespace TypeTable

variable (table : TypeTable) (names : List String)

mutual

/-- A closed type says nothing about type parameters. -/
theorem infer_of_isClosed : ∀ (inferred : Substitution) (argument parameter : TypeSymbol),
    parameter.isClosed = true → table.infer names inferred argument parameter = inferred
  | inferred, argument,
    ⟨name, container, kind, special, typeArguments, elementType, isRefLike⟩, closed => by
    rcases TypeSymbol.isClosed_mk_iff.mp closed with ⟨notParameter, areClosed, elementClosed⟩
    rw [infer.eq_def]
    dsimp only
    rw [if_neg notParameter]
    split
    · rfl
    · split
      · exact infer_of_isClosed _ _ _ (elementClosed _ rfl)
      · split
        · rfl
        · rename_i inner following
          split
          · rw [TypeSymbol.areClosed, Bool.and_eq_true] at areClosed
            exact infer_of_isClosed _ _ _ areClosed.1
          · split
            · exact inferAll_of_areClosed _ _ _ areClosed
            · rfl

theorem inferAll_of_areClosed : ∀ (inferred : Substitution)
    (arguments parameters : List TypeSymbol), TypeSymbol.areClosed parameters = true →
      table.inferAll names inferred arguments parameters = inferred
  | _, _, [], _ => by rw [inferAll]
  | inferred, arguments, parameter :: parameters, closed => by
    rw [TypeSymbol.areClosed, Bool.and_eq_true] at closed
    rcases arguments with _ | ⟨argument, arguments⟩
    · rw [inferAll]
    · rw [inferAll, infer_of_isClosed _ _ _ closed.1, inferAll_of_areClosed _ _ _ closed.2]

end

end TypeTable

/-- An argument without a label whose type is known. -/
def ArgumentSlot.ofTyped (expr : Expr) (type : TypeSymbol) : ArgumentSlot :=
  ⟨none, some expr, some type⟩

/-- A method as a table sees it: its type parameters, its result, and for each of its parameters,
none of which is optional, whether it takes any number of arguments and which type it has. -/
structure MethodCandidate.Declares (candidate : MethodCandidate) (table : TypeTable)
    (names : List String) (parameters : List (Bool × TypeSymbol)) (result : TypeSymbol) :
    Prop where
  names : candidate.method.typeParameters = names
  takesRest : candidate.method.parameters.map (·.isParams) = parameters.map (·.1)
  required : ∀ parameter ∈ candidate.method.parameters, parameter.isOptional = false
  signature : table.signature candidate = (parameters.map (·.2), result)

instance (candidate : MethodCandidate) (table : TypeTable) (names : List String)
    (parameters : List (Bool × TypeSymbol)) (result : TypeSymbol) :
    Decidable (candidate.Declares table names parameters result) :=
  decidable_of_iff
    (candidate.method.typeParameters = names ∧
      candidate.method.parameters.map (·.isParams) = parameters.map (·.1) ∧
      (∀ parameter ∈ candidate.method.parameters, parameter.isOptional = false) ∧
      table.signature candidate = (parameters.map (·.2), result))
    ⟨fun ⟨names, takesRest, required, signature⟩ => ⟨names, takesRest, required, signature⟩,
      fun ⟨names, takesRest, required, signature⟩ => ⟨names, takesRest, required, signature⟩⟩

theorem MethodCandidate.Declares.paramsIndex?_eq {candidate : MethodCandidate} {table : TypeTable}
    {names : List String} {parameters : List (Bool × TypeSymbol)} {result : TypeSymbol}
    (declares : candidate.Declares table names parameters result) :
    candidate.method.paramsIndex? = parameters.findIdx? (·.1) := by
  have takesRest := congrArg (List.findIdx? fun isRest : Bool => isRest) declares.takesRest
  rwa [List.findIdx?_map, List.findIdx?_map] at takesRest

theorem MethodCandidate.Declares.length_eq {candidate : MethodCandidate} {table : TypeTable}
    {names : List String} {parameters : List (Bool × TypeSymbol)} {result : TypeSymbol}
    (declares : candidate.Declares table names parameters result) :
    candidate.method.parameters.length = parameters.length := by
  simpa using congrArg List.length declares.takesRest

namespace MethodDecl

theorem length_of_assignFrom? {parameters : List ParameterDecl} {expanded : Option Nat}
    {labels : List (Option String)} {position : Nat} {taken assigned : List Nat}
    (given : assignFrom? parameters expanded position taken labels = some assigned) :
    assigned.length = labels.length := by
  induction labels generalizing position taken assigned with
  | nil =>
    cases given
    rfl
  | cons label following ih =>
    simp only [assignFrom?, bind, Option.bind_eq_some_iff] at given
    rcases given with ⟨index, -, given⟩
    split at given
    · cases given
    · rcases Option.bind_eq_some_iff.mp given with ⟨others, isOthers, same⟩
      cases same
      simp [ih isOthers]

/-- Where no parameter is optional, each one gets an argument or takes any number. -/
theorem unassigned_of_assign? {parameters : List ParameterDecl} {expanded : Option Nat}
    {labels : List (Option String)} {assigned : List Nat}
    (required : ∀ parameter ∈ parameters, parameter.isOptional = false)
    (given : assign? parameters expanded labels = some assigned) :
    assignFrom? parameters expanded 0 [] labels = some assigned ∧
      unassigned parameters expanded assigned = [] := by
  simp only [assign?, bind, Option.bind_eq_some_iff] at given
  rcases given with ⟨places, isPlaces, given⟩
  split at given
  · rename_i allOptional
    cases given
    refine ⟨isPlaces, List.eq_nil_iff_forall_not_mem.mpr fun parameter isUnassigned => ?_⟩
    have optional := List.all_eq_true.mp allOptional parameter isUnassigned
    rcases List.mem_map.mp isUnassigned with ⟨⟨_, index⟩, isAt, rfl⟩
    rw [required _ (List.fst_mem_of_mem_zipIdx (List.mem_of_mem_filter isAt))] at optional
    cases optional
  · cases given

/-- Every parameter needs an argument, apart from one that takes any number. -/
theorem length_le_of_assign? {parameters : List ParameterDecl} {expanded : Option Nat}
    {labels : List (Option String)} {assigned : List Nat}
    (required : ∀ parameter ∈ parameters, parameter.isOptional = false)
    (given : assign? parameters expanded labels = some assigned) :
    parameters.length ≤ labels.length + expanded.toList.length := by
  rcases unassigned_of_assign? required given with ⟨isPlaces, noneLeft⟩
  rw [← length_of_assignFrom? isPlaces, ← List.length_append]
  have covered : List.range parameters.length ⊆ assigned ++ expanded.toList := by
    intro index inside
    rw [List.mem_range] at inside
    by_contra missing
    rw [unassigned, List.map_eq_nil_iff, List.filter_eq_nil_iff] at noneLeft
    refine noneLeft (parameters[index], index)
      (List.mk_mem_zipIdx_iff_getElem?.mpr (List.getElem?_eq_getElem inside)) ?_
    simp only [List.mem_append, Option.mem_toList, not_or] at missing
    simp [missing.1, missing.2]
  have bound := (List.subperm_of_subset List.nodup_range covered).length_le
  simpa using bound

variable {parameters : List ParameterDecl} {labels : List (Option String)}

/-- The place of the parameter for an argument without a label. -/
def placeOf (expanded : Option Nat) (position : Nat) : Nat :=
  match expanded with
  | none => position
  | some last => min position last

theorem placeOf_le (expanded : Option Nat) (position : Nat) :
    placeOf expanded position ≤ position := by
  cases expanded with
  | none => exact Nat.le_refl position
  | some last => exact Nat.min_le_left position last

theorem unassigned_eq_nil {expanded : Option Nat} {assigned : List Nat}
    (covers : ∀ index < parameters.length, index ∈ assigned ∨ expanded = some index) :
    unassigned parameters expanded assigned = [] := by
  rw [unassigned, List.map_eq_nil_iff, List.filter_eq_nil_iff]
  rintro ⟨parameter, index⟩ isParameter
  have inside := (List.getElem?_eq_some_iff.mp
    (List.mk_mem_zipIdx_iff_getElem?.mp isParameter)).1
  rcases covers index inside with isAssigned | isExpanded
  · simp [isAssigned]
  · simp [isExpanded]

section

variable (unlabelled : ∀ label ∈ labels, label = none)

include unlabelled

theorem assignFrom?_of_unlabelled {expanded : Option Nat}
    (form : ∀ last, expanded = some last → last < parameters.length) {position : Nat}
    {taken : List Nat} (before : ∀ index ∈ taken, index < position)
    (fits : expanded = none → position + labels.length ≤ parameters.length) :
    assignFrom? parameters expanded position taken labels =
      some ((List.range' position labels.length).map (placeOf expanded)) := by
  induction labels generalizing position taken with
  | nil => rfl
  | cons label rest ih =>
    rw [List.forall_mem_cons] at unlabelled
    rw [List.length_cons] at fits
    have isPlace : parameterIndex? parameters expanded position label =
        some (placeOf expanded position) := by
      cases unlabelled.1
      cases expanded with
      | none =>
        have inside : position < parameters.length := by
          have := fits rfl
          omega
        simp [parameterIndex?, placeOf, inside]
      | some last =>
        have inside := form last rfl
        by_cases reached : last ≤ position
        · simp [parameterIndex?, placeOf, Option.filter, reached]
        · have early : position < parameters.length := by omega
          simp [parameterIndex?, placeOf, Option.filter, reached, early]
          omega
    have atMost := placeOf_le expanded position
    have isFree : ¬expanded = some (placeOf expanded position) →
        placeOf expanded position ∉ taken := by
      intro notExpanded isTaken
      have earlier := before _ isTaken
      cases expanded with
      | none => simp [placeOf] at earlier
      | some last =>
        simp only [placeOf, Option.some.injEq] at earlier notExpanded
        omega
    have later : ∀ index ∈ placeOf expanded position :: taken, index < position + 1 := by
      rw [List.forall_mem_cons]
      exact ⟨by omega, fun index isTaken => Nat.lt_succ_of_lt (before index isTaken)⟩
    have others := ih unlabelled.2 later fun isNormal => by
      have := fits isNormal
      omega
    simp [assignFrom?, isPlace, others, List.range'_succ]
    exact isFree

theorem assignFrom?_eq_none_of_unlabelled {position : Nat} {taken : List Nat}
    (inside : position ≤ parameters.length)
    (tooMany : parameters.length < position + labels.length) :
    assignFrom? parameters none position taken labels = none := by
  induction labels generalizing position taken with
  | nil =>
    rw [List.length_nil] at tooMany
    omega
  | cons label rest ih =>
    rw [List.forall_mem_cons] at unlabelled
    rw [List.length_cons] at tooMany
    cases unlabelled.1
    by_cases inside' : position < parameters.length
    · have others (taken : List Nat) :
          assignFrom? parameters none (position + 1) taken rest = none :=
        ih unlabelled.2 inside' (by omega)
      simp [assignFrom?, parameterIndex?, inside', others]
    · simp [assignFrom?, parameterIndex?, inside']

variable (required : ∀ parameter ∈ parameters, parameter.isOptional = false)

include required

/-- In normal form there are as many arguments as parameters. -/
theorem assign?_none_of_unlabelled :
    assign? parameters none labels =
      if labels.length = parameters.length then some (List.range labels.length) else none := by
  split
  · rename_i sameLength
    have places : assignFrom? parameters none 0 [] labels = some (List.range labels.length) := by
      rw [assignFrom?_of_unlabelled unlabelled (by simp) (by simp) (by omega),
        ← List.range_eq_range', show placeOf none = id from rfl, List.map_id]
    have covers : unassigned parameters none (List.range labels.length) = [] :=
      unassigned_eq_nil (by simp [sameLength])
    simp [assign?, places, covers]
  · rename_i otherLength
    by_contra isSome
    rcases Option.ne_none_iff_exists'.mp isSome with ⟨assigned, isAssigned⟩
    have enough := length_le_of_assign? required isAssigned
    have tooMany : assignFrom? parameters none 0 [] labels = none :=
      assignFrom?_eq_none_of_unlabelled unlabelled (Nat.zero_le parameters.length)
        (by simp only [Option.toList_none, List.length_nil] at enough; omega)
    simp [assign?, tooMany] at isAssigned

/-- In expanded form the last parameter takes what is left, if anything is. -/
theorem assign?_some_of_unlabelled {last : Nat} (isLast : last + 1 = parameters.length) :
    assign? parameters (some last) labels =
      if last ≤ labels.length then some ((List.range labels.length).map (placeOf (some last)))
      else none := by
  split
  · rename_i enough
    have places : assignFrom? parameters (some last) 0 [] labels =
        some ((List.range labels.length).map (placeOf (some last))) := by
      rw [assignFrom?_of_unlabelled unlabelled (by simp; omega) (by simp) (by simp),
        ← List.range_eq_range']
    have covers : unassigned parameters (some last)
        ((List.range labels.length).map (placeOf (some last))) = [] := by
      refine unassigned_eq_nil fun index inside => ?_
      by_cases same : last = index
      · exact .inr (congrArg some same)
      · refine .inl (List.mem_map.mpr ⟨index, List.mem_range.mpr (by omega), ?_⟩)
        exact Nat.min_eq_left (by omega)
    simp [assign?, places, covers]
  · rename_i tooFew
    by_contra isSome
    rcases Option.ne_none_iff_exists'.mp isSome with ⟨assigned, isAssigned⟩
    have enough := length_le_of_assign? required isAssigned
    simp only [Option.toList_some, List.length_singleton] at enough
    omega

end

end MethodDecl

namespace TypeTable

variable {table : TypeTable} {candidate : MethodCandidate} {slots : List ArgumentSlot}

/-- A method is applicable in a form if each argument has a parameter, the type arguments can be
found, and each argument converts. -/
theorem isSome_applicableIn?_iff {explicit : List TypeSymbol} {expanded : Option Nat} :
    (table.applicableIn? candidate slots explicit expanded).isSome = true ↔
      ∃ assigned inferred,
        MethodDecl.assign? candidate.method.parameters expanded (slots.map (·.label)) =
          some assigned ∧
        table.callSubstitution? candidate.method.typeParameters explicit slots
          (assigned.map (MethodDecl.targetType (table.signature candidate).1 expanded)) =
            some inferred ∧
        ∀ entry ∈ slots.zip ((assigned.map
          (MethodDecl.targetType (table.signature candidate).1 expanded)).map
            (·.substitute inferred)), table.slotConverts entry.1 entry.2 = true := by
  unfold applicableIn?
  simp only [bind, Option.isSome_iff_exists, Option.bind_eq_some_iff]
  constructor
  · rintro ⟨found, assigned, isAssigned, inferred, isInferred, answer⟩
    split at answer
    · rename_i converts
      exact ⟨assigned, inferred, isAssigned, isInferred, List.all_eq_true.mp converts⟩
    · cases answer
  · rintro ⟨assigned, inferred, isAssigned, isInferred, converts⟩
    have all := List.all_eq_true.mpr converts
    simp only [isAssigned, isInferred, Option.some.injEq, exists_eq_left', all, if_true]
    exact ⟨_, rfl⟩

theorem isSome_applicable?_iff :
    (table.applicable? slots [] candidate).isSome = true ↔
      (table.applicableIn? candidate slots [] none).isSome = true ∨
        ∃ index, candidate.method.paramsIndex? = some index ∧
          (table.applicableIn? candidate slots [] (some index)).isSome = true := by
  unfold applicable?
  simp only [List.isEmpty_nil, Bool.not_true, Bool.false_and, Bool.false_eq_true, if_false]
  cases table.applicableIn? candidate slots [] none <;>
    cases candidate.method.paramsIndex? <;> simp

/-- Types stand for the type parameters of a call, and with these each argument converts. -/
def AcceptsWith (table : TypeTable) (names : List String) (slots : List ArgumentSlot)
    (targets : List TypeSymbol) (inferred : Substitution) : Prop :=
  table.callSubstitution? names [] slots targets = some inferred ∧
    ∀ entry ∈ slots.zip (targets.map (·.substitute inferred)),
      table.slotConverts entry.1 entry.2 = true

/-- The types of a method's parameters fit arguments: something stands for each type parameter, and
each argument converts. -/
def Accepts (table : TypeTable) (names : List String) (slots : List ArgumentSlot)
    (targets : List TypeSymbol) : Prop :=
  ∃ inferred, table.AcceptsWith names slots targets inferred

/-- The types that arguments without labels convert to in a form, if their number fits. -/
def targetTypes? (types : List TypeSymbol) (expanded : Option Nat) (count : Nat) :
    Option (List TypeSymbol) :=
  match expanded with
  | none => if count = types.length then some types else none
  | some last =>
    if last ≤ count then
      some ((List.range count).map fun position =>
        MethodDecl.targetType types (some last) (min position last))
    else none

/-- The forms in which a method can be called. -/
def formsOf (parameters : List (Bool × TypeSymbol)) : List (Option Nat) :=
  none :: (parameters.findIdx? (·.1)).toList.map some

/-- The applicable method is a declared one with types in the place of its type parameters. -/
structure IsInstance (method : ApplicableMethod) (names : List String)
    (parameters : List (Bool × TypeSymbol)) (result : TypeSymbol) (targets : List TypeSymbol)
    (isExpanded : Bool) (inferred : Substitution) : Prop where
  targets : method.targets = targets.map (·.substitute inferred)
  types : method.parameters.map (·.type) = parameters.map (·.2.substitute inferred)
  returnType : method.returnType = result.substitute inferred
  isExpanded : method.isExpanded = isExpanded
  isGeneric : method.isGeneric = !names.isEmpty
  /-- No parameter has a default value. -/
  usesDefaults : method.usesDefaults = false

theorem IsInstance.length {method : ApplicableMethod} {names : List String}
    {parameters : List (Bool × TypeSymbol)} {result : TypeSymbol} {targets : List TypeSymbol}
    {isExpanded : Bool} {inferred : Substitution}
    (isInstance : IsInstance method names parameters result targets isExpanded inferred) :
    method.parameters.length = parameters.length := by
  simpa using congrArg List.length isInstance.types

section

variable {names : List String} {parameters : List (Bool × TypeSymbol)} {result : TypeSymbol}
  {method : ApplicableMethod} (declares : candidate.Declares table names parameters result)
  (unlabelled : ∀ slot ∈ slots, slot.label = none)

include declares unlabelled

theorem map_targetType_assign? {expanded : Option Nat}
    (isForm : ∀ last, expanded = some last → last + 1 = parameters.length) :
    (MethodDecl.assign? candidate.method.parameters expanded (slots.map (·.label))).map
        (·.map (MethodDecl.targetType (parameters.map (·.2)) expanded)) =
      targetTypes? (parameters.map (·.2)) expanded slots.length := by
  have noLabels : ∀ label ∈ slots.map (·.label), label = none := by simpa using unlabelled
  cases expanded with
  | none =>
    rw [MethodDecl.assign?_none_of_unlabelled noLabels declares.required, List.length_map,
      declares.length_eq, targetTypes?, List.length_map]
    split
    · rename_i sameLength
      rw [Option.map_some, sameLength]
      refine congrArg some (List.ext_getElem (by simp) fun index inside _ => ?_)
      have inside : index < parameters.length := by simpa using inside
      simp [MethodDecl.targetType, inside]
    · rfl
  | some last =>
    rw [MethodDecl.assign?_some_of_unlabelled noLabels declares.required
      ((isForm last rfl).trans declares.length_eq.symm), List.length_map, targetTypes?]
    split
    · simp [MethodDecl.placeOf, Function.comp_def]
    · rfl

theorem isInstance_of_applicableIn? {expanded : Option Nat}
    (isForm : ∀ last, expanded = some last → last + 1 = parameters.length)
    (found : table.applicableIn? candidate slots [] expanded = some method) :
    ∃ targets inferred,
      targetTypes? (parameters.map (·.2)) expanded slots.length = some targets ∧
      table.AcceptsWith names slots targets inferred ∧
      IsInstance method names parameters result targets expanded.isSome inferred := by
  unfold applicableIn? at found
  simp only [bind, Option.bind_eq_some_iff, declares.signature, declares.names] at found
  rcases found with ⟨assigned, isAssigned, inferred, isInferred, found⟩
  split at found <;> cases found
  rename_i converts
  refine ⟨_, inferred, ?_, ⟨isInferred, List.all_eq_true.mp converts⟩, rfl, ?_, rfl, rfl, rfl, ?_⟩
  · rw [← map_targetType_assign? declares unlabelled isForm, isAssigned]
    rfl
  · refine List.ext_getElem (by simp [declares.length_eq]) fun index inside _ => ?_
    simp
  · simp [(MethodDecl.unassigned_of_assign? declares.required isAssigned).2]

theorem isSome_applicableIn?_of_accepts {expanded : Option Nat} {targets : List TypeSymbol}
    (isForm : ∀ last, expanded = some last → last + 1 = parameters.length)
    (areTargets : targetTypes? (parameters.map (·.2)) expanded slots.length = some targets)
    (accepts : table.Accepts names slots targets) :
    (table.applicableIn? candidate slots [] expanded).isSome = true := by
  rw [← map_targetType_assign? declares unlabelled isForm] at areTargets
  rcases Option.map_eq_some_iff.mp areTargets with ⟨assigned, isAssigned, rfl⟩
  rcases accepts with ⟨inferred, isInferred, converts⟩
  rw [isSome_applicableIn?_iff, declares.signature, declares.names]
  exact ⟨assigned, inferred, isAssigned, isInferred, converts⟩

variable (isForm : ∀ last, some last ∈ formsOf parameters → last + 1 = parameters.length)

include isForm

/-- An applicable method is an instance of what is declared, in one of its forms. -/
theorem isInstance_of_applicable? (found : table.applicable? slots [] candidate = some method) :
    ∃ expanded ∈ formsOf parameters, ∃ targets inferred,
      targetTypes? (parameters.map (·.2)) expanded slots.length = some targets ∧
      table.AcceptsWith names slots targets inferred ∧
      IsInstance method names parameters result targets expanded.isSome inferred := by
  unfold applicable? at found
  simp only [List.isEmpty_nil, Bool.not_true, Bool.false_and, Bool.false_eq_true, if_false,
    Option.orElse_eq_orElse, Option.orElse_eq_or, Option.or_eq_some_iff,
    declares.paramsIndex?_eq] at found
  rcases found with normal | ⟨-, found⟩
  · exact ⟨none, List.mem_cons_self,
      isInstance_of_applicableIn? declares unlabelled (by simp) normal⟩
  · split at found
    · rename_i last isRest
      have isForm' : some last ∈ formsOf parameters := by simp [formsOf, isRest]
      refine ⟨some last, isForm', isInstance_of_applicableIn? declares unlabelled ?_ found⟩
      rintro _ ⟨⟩
      exact isForm last isForm'
    · cases found

/-- Arguments without labels fit a method in one of its forms. -/
theorem isSome_applicable?_iff_accepts :
    (table.applicable? slots [] candidate).isSome = true ↔
      ∃ expanded ∈ formsOf parameters, ∃ targets,
        targetTypes? (parameters.map (·.2)) expanded slots.length = some targets ∧
        table.Accepts names slots targets := by
  constructor
  · intro isSome
    rcases Option.isSome_iff_exists.mp isSome with ⟨method, found⟩
    rcases isInstance_of_applicable? declares unlabelled isForm found with
      ⟨expanded, isForm, targets, inferred, areTargets, accepts, -⟩
    exact ⟨expanded, isForm, targets, areTargets, inferred, accepts⟩
  · rintro ⟨expanded, isForm', targets, areTargets, accepts⟩
    have isSome := isSome_applicableIn?_of_accepts declares unlabelled
      (fun last isLast => isForm last (isLast ▸ isForm')) areTargets accepts
    rw [isSome_applicable?_iff, declares.paramsIndex?_eq]
    cases expanded with
    | none => exact .inl isSome
    | some last => exact .inr ⟨last, by simpa [formsOf] using isForm', isSome⟩

end

variable {targets : List TypeSymbol}

section

variable (closed : ∀ target ∈ targets, target.isClosed = true)

include closed

theorem map_substitute_of_closed (substitution : Substitution) :
    targets.map (·.substitute substitution) = targets := by
  conv_rhs => rw [← List.map_id targets]
  exact List.map_congr_left fun target isTarget =>
    TypeSymbol.substitute_of_isClosed substitution target (closed target isTarget)

/-- Without type parameters nothing is inferred. -/
theorem accepts_nil_iff : table.Accepts [] slots targets ↔
    ∀ entry ∈ slots.zip targets, table.slotConverts entry.1 entry.2 = true := by
  have isInferred : table.callSubstitution? [] [] slots targets =
      some (table.inferArguments [] .empty ((slots.map (·.type)).zip targets)) := by
    simp [callSubstitution?]
  simp [Accepts, AcceptsWith, isInferred, map_substitute_of_closed closed]

theorem inferArguments_of_closed (names : List String) (inferred : Substitution)
    (types : List (Option TypeSymbol)) :
    table.inferArguments names inferred (types.zip targets) = inferred := by
  induction targets generalizing types with
  | nil => simp [inferArguments]
  | cons target rest ih =>
    rw [List.forall_mem_cons] at closed
    rcases types with _ | ⟨_ | argument, types⟩
    · simp [inferArguments]
    · simpa [inferArguments] using ih closed.2 types
    · simpa [inferArguments, infer_of_isClosed table names inferred argument target closed.1] using
        ih closed.2 types

end

theorem slotConverts_self {slot : ArgumentSlot} {type : TypeSymbol}
    (isTyped : slot.type = some type) : table.slotConverts slot type = true := by
  rcases slot with ⟨label, expr, _⟩
  cases isTyped
  by_cases unknown : type.isUnknown = true
  · simp [slotConverts, unknown]
  · have isIdentity : table.standardConversion type type = .identity := by
      simp [standardConversion, valueConversion?, unknown]
    cases expr with
    | none => simp [slotConverts, isIdentity]
    | some expr => simp [slotConverts, exprConversion, isIdentity, Conversion.exists]

theorem infer_typeParameter (name : String) (argument : TypeSymbol) :
    table.infer [name] .empty argument (.typeParameter name) =
      if argument.isUnknown = true ∨ argument.kind = .null then .empty
      else Substitution.empty.insert name argument := by
  unfold TypeSymbol.typeParameter
  rw [infer.eq_def]
  simp [Substitution.insertNew, Substitution.empty, Substitution.find?]

/-- Something stands for the type of the first argument: it has a type of its own, which `null` has
not, or the type of some argument is not known at all. -/
def InfersFirst (slots : List ArgumentSlot) : Prop :=
  (∃ slot ∈ slots, slot.type = none) ∨
    ∃ first type, slots.head? = some first ∧ first.type = some type ∧ type.isUnknown = false ∧
      type.kind ≠ .null

instance (slots : List ArgumentSlot) : Decidable (InfersFirst slots) :=
  decidable_of_iff
    ((∃ slot ∈ slots, slot.type = none) ∨ ∃ first ∈ slots.head?, ∃ type ∈ first.type,
      type.isUnknown = false ∧ type.kind ≠ .null)
    (by simp [InfersFirst])

/-- What can be inferred from one argument for a type parameter in its place. -/
theorem callSubstitution?_typeParameter (name : String) (value : ArgumentSlot)
    (rest : List ArgumentSlot) (closed : ∀ target ∈ targets, target.isClosed = true) :
    table.callSubstitution? [name] [] (value :: rest) (.typeParameter name :: targets) =
      match value.type.filter fun type => !type.isUnknown && type.kind ≠ .null with
      | some type => some (Substitution.empty.insert name type)
      | none =>
        if (value :: rest).any (·.type.isNone) then
          some (Substitution.empty.insert name .unknown)
        else none := by
  have inferred : table.inferArguments [name] .empty
      (((value :: rest).map (·.type)).zip (.typeParameter name :: targets)) =
        match value.type.filter fun type => !type.isUnknown && type.kind ≠ .null with
        | some type => Substitution.empty.insert name type
        | none => .empty := by
    rw [List.map_cons, List.zip_cons_cons]
    cases value.type with
    | none => rw [inferArguments, inferArguments_of_closed closed]; rfl
    | some type =>
      rw [inferArguments, inferArguments_of_closed closed, infer_typeParameter]
      by_cases untyped : type.isUnknown = true ∨ type.kind = .null
      · rw [if_pos untyped, Option.filter_some_neg]
        grind
      · rw [if_neg untyped, Option.filter_some_pos]
        simpa using untyped
  unfold callSubstitution?
  rw [inferred]
  cases value.type.filter fun type => !type.isUnknown && type.kind ≠ .null with
  | some type => simp [Substitution.insertNew, Substitution.insert, Substitution.find?]
  | none => simp [Substitution.insertNew, Substitution.empty, Substitution.find?]

theorem substitute_typeParameter (name : String) (type : TypeSymbol) :
    (TypeSymbol.typeParameter name).substitute (Substitution.empty.insert name type) = type := by
  unfold TypeSymbol.typeParameter
  rw [TypeSymbol.substitute.eq_def]
  simp [Substitution.insert, Substitution.find?]

/-- A type parameter in the place of the first argument stands for the type of this argument, if it
has one of its own. -/
theorem substitute_eq_of_acceptsWith {name : String} {value : ArgumentSlot}
    {rest : List ArgumentSlot} (closed : ∀ target ∈ targets, target.isClosed = true)
    {inferred : Substitution} (accepts : table.AcceptsWith [name] (value :: rest)
      (.typeParameter name :: targets) inferred) {type : TypeSymbol}
    (isTyped : value.type = some type) (known : type.isUnknown = false)
    (notNull : type.kind ≠ .null) :
    (TypeSymbol.typeParameter name).substitute inferred = type := by
  have isInferred := accepts.1
  rw [callSubstitution?_typeParameter name value rest closed, isTyped,
    Option.filter_some_pos (by simp [known, notNull])] at isInferred
  cases isInferred
  exact substitute_typeParameter name type

/-- A type parameter in the place of the first argument takes it if something can be inferred. -/
theorem accepts_typeParameter_iff {name : String} {value : ArgumentSlot}
    {rest : List ArgumentSlot} (closed : ∀ target ∈ targets, target.isClosed = true) :
    table.Accepts [name] (value :: rest) (.typeParameter name :: targets) ↔
      InfersFirst (value :: rest) ∧
        ∀ entry ∈ rest.zip targets, table.slotConverts entry.1 entry.2 = true := by
  have substituted := substitute_typeParameter name
  have isInferred := table.callSubstitution?_typeParameter name value rest closed
  cases isTyped : value.type.filter fun type => !type.isUnknown && type.kind ≠ .null with
  | some type =>
    rw [isTyped] at isInferred
    rcases Option.filter_eq_some_iff.mp isTyped with ⟨isTyped, typed⟩
    have infers : InfersFirst (value :: rest) :=
      .inr ⟨value, type, rfl, isTyped, by simpa using typed⟩
    simp [Accepts, AcceptsWith, isInferred, infers, substituted, map_substitute_of_closed closed,
      slotConverts_self isTyped]
  | none =>
    rw [isTyped] at isInferred
    have noType : ∀ type, value.type = some type → type.isUnknown = true ∨ type.kind = .null := by
      intro type isType
      by_contra typed
      rw [isType, Option.filter_some_pos (by simpa using typed)] at isTyped
      cases isTyped
    have infersFirst_iff : InfersFirst (value :: rest) ↔
        (value :: rest).any (·.type.isNone) = true := by
      constructor
      · rintro (⟨slot, isSlot, untyped⟩ | ⟨_, type, isFirst, isType, known, notNull⟩)
        · exact List.any_eq_true.mpr ⟨slot, isSlot, by simp [untyped]⟩
        · cases isFirst
          rcases noType type isType with unknown | isNull
          · cases unknown.symm.trans known
          · exact absurd isNull notNull
      · intro untyped
        rcases List.any_eq_true.mp untyped with ⟨slot, isSlot, untyped⟩
        exact .inl ⟨slot, isSlot, Option.isNone_iff_eq_none.mp untyped⟩
    have converts : table.slotConverts value .unknown = true := by
      cases isType : value.type <;>
        simp [slotConverts, isType, TypeSymbol.unknown, TypeSymbol.isUnknown]
    by_cases untyped : (value :: rest).any (·.type.isNone) = true
    · rw [if_pos untyped] at isInferred
      simp [Accepts, AcceptsWith, isInferred, infersFirst_iff, untyped, substituted,
        map_substitute_of_closed closed, converts]
    · rw [if_neg untyped] at isInferred
      simp [Accepts, AcceptsWith, isInferred, infersFirst_iff, untyped]

end TypeTable

end AssertionLint
