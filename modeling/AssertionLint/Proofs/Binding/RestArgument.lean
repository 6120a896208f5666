import AssertionLint.Proofs.Analysis.ClassicArguments
import AssertionLint.Proofs.Binding.UnlabelledCall
import Mathlib.Data.List.Nodup

/-!
# The array of the remaining arguments

A call passes the values for a parameter that takes any number of arguments one by one, or as one
array. Overload resolution tries the array first and remembers which of the two it took.
-/

namespace AssertionLint

namespace MethodDecl

variable {declared : List ParameterDecl} {last : Nat}

theorem lt_of_assignFrom? {expanded : Option Nat} (form : IsForm declared expanded)
    {labels : List (Option String)} {position : Nat} {taken places : List Nat}
    (accepted : assignFrom? declared expanded position taken labels = some places) :
    ∀ place ∈ places, place < declared.length := by
  induction labels generalizing position taken places with
  | nil =>
    cases accepted
    simp
  | cons label rest ih =>
    simp only [assignFrom?, bind, Option.bind_eq_some_iff] at accepted
    rcases accepted with ⟨place, given, accepted⟩
    split at accepted
    · cases accepted
    · simp only [pure, Option.bind_eq_some_iff, Option.some.injEq] at accepted
      rcases accepted with ⟨others, restAccepted, rfl⟩
      exact List.forall_mem_cons.mpr ⟨lt_of_parameterIndex? form given, ih restAccepted⟩

/-- An argument at the place of a parameter goes to the same parameter in both forms. -/
theorem parameterIndex?_none (atEnd : last + 1 = declared.length) {position : Nat}
    (inside : position < declared.length) (label : Option String) :
    parameterIndex? declared none position label =
      parameterIndex? declared (some last) position label := by
  cases label with
  | some name => rfl
  | none =>
    by_cases reached : last ≤ position
    · have isLast : position = last := by omega
      have ends : last < declared.length := by omega
      simp [parameterIndex?, Option.filter, isLast, ends]
    · simp [parameterIndex?, Option.filter, reached]

/-- If no parameter takes two arguments, the arguments can be passed in normal form too. -/
theorem assignFrom?_none (atEnd : last + 1 = declared.length) {labels : List (Option String)}
    {position : Nat} {taken places : List Nat}
    (accepted : assignFrom? declared (some last) position taken labels = some places)
    (inside : position + labels.length ≤ declared.length) (distinct : places.Nodup)
    (free : ∀ place ∈ places, place ∉ taken) :
    assignFrom? declared none position taken labels = some places := by
  induction labels generalizing position taken places with
  | nil => exact accepted
  | cons label rest ih =>
    rw [List.length_cons] at inside
    simp only [assignFrom?, bind, Option.bind_eq_some_iff] at accepted ⊢
    rcases accepted with ⟨place, given, accepted⟩
    split at accepted
    · cases accepted
    · simp only [pure, Option.bind_eq_some_iff, Option.some.injEq] at accepted
      rcases accepted with ⟨others, restAccepted, rfl⟩
      rcases List.forall_mem_cons.mp free with ⟨isFree, areFree⟩
      rcases List.nodup_cons.mp distinct with ⟨notLater, distinct⟩
      have restFree : ∀ other ∈ others, other ∉ place :: taken := by
        intro other member isTaken
        rcases List.mem_cons.mp isTaken with rfl | earlier
        · exact notLater member
        · exact areFree other member earlier
      refine ⟨place, ?_, ?_⟩
      · rw [parameterIndex?_none atEnd (by omega), given]
      · rw [if_neg (by simp [isFree])]
        simp [ih restAccepted (by omega) distinct restFree]

theorem assign?_none (atEnd : last + 1 = declared.length)
    (form : IsForm declared (some last)) {labels : List (Option String)} {places : List Nat}
    (accepted : assign? declared (some last) labels = some places) (distinct : places.Nodup)
    (isGiven : last ∈ places) : assign? declared none labels = some places := by
  simp only [assign?, bind, Option.bind_eq_some_iff] at accepted ⊢
  rcases accepted with ⟨assigned, given, complete⟩
  split at complete <;> cases complete
  rename_i optional
  have sameLength := MethodDecl.length_of_assignFrom? given
  have inside := lt_of_assignFrom? form given
  have few : places.length ≤ declared.length := by
    have sub : places ⊆ List.range declared.length :=
      fun place member => List.mem_range.mpr (inside place member)
    simpa using (List.subperm_of_subset distinct sub).length_le
  refine ⟨places, assignFrom?_none atEnd given (by omega) distinct (by simp), ?_⟩
  rw [if_pos]
  refine List.all_eq_true.mpr fun parameter isUnassigned => ?_
  refine List.all_eq_true.mp optional parameter ?_
  simp only [unassigned, List.mem_map, List.mem_filter] at isUnassigned ⊢
  rcases isUnassigned with ⟨⟨found, place⟩, ⟨isAt, notGiven⟩, rfl⟩
  refine ⟨(found, place), ⟨isAt, ?_⟩, rfl⟩
  have notLast : last ≠ place := by
    rintro rfl
    simp [isGiven] at notGiven
  simpa [notLast] using notGiven

end MethodDecl

/-- The type is written as an array of objects. -/
def TypeExpr.isObjectArray : TypeExpr → Bool
  | .array (.predefined keyword _) _ _ => keyword = "object"
  | _ => false

theorem Reference.isObjectArray_of_isParams :
    ∀ type ∈ declarations.types, ∀ method ∈ type.methods, ∀ parameter ∈ method.parameters,
      parameter.isParams = true → parameter.type.any (·.isObjectArray) = true := by
  decide +kernel

namespace TypeTable

/-- The last parameter of a method takes any number of arguments, in an array of a type that is
known and does not depend on the call. -/
structure TakesArray (table : TypeTable) (candidate : MethodCandidate) (last : Nat)
    (array : TypeSymbol) : Prop where
  isLast : MethodDecl.CatchAllIsLast candidate.method.parameters
  isParams : candidate.method.paramsIndex? = some last
  type : (table.signature candidate).1[last]? = some array
  isClosed : array.isClosed = true
  isKnown : array.isUnknown = false

section

variable {table : TypeTable} {types : List TypeSymbol} {last : Nat} {array : TypeSymbol}
  {candidate : MethodCandidate}

instance : Decidable (table.TakesArray candidate last array) :=
  decidable_of_iff
    (MethodDecl.CatchAllIsLast candidate.method.parameters ∧
      candidate.method.paramsIndex? = some last ∧
      (table.signature candidate).1[last]? = some array ∧ array.isClosed = true ∧
      array.isUnknown = false)
    ⟨fun ⟨isLast, isParams, type, isClosed, isKnown⟩ =>
        ⟨isLast, isParams, type, isClosed, isKnown⟩,
      fun ⟨isLast, isParams, type, isClosed, isKnown⟩ =>
        ⟨isLast, isParams, type, isClosed, isKnown⟩⟩

theorem resolve_of_isObjectArray (scope : TypeScope) {written : TypeExpr}
    (isObjects : written.isObjectArray = true) :
    table.resolve scope written = .arrayOf table.object := by
  unfold TypeExpr.isObjectArray at isObjects
  split at isObjects
  · rename_i keyword _ _ _
    have isObject : keyword = "object" := by simpa using isObjects
    rw [isObject, resolve, resolve]
    rfl
  · cases isObjects

/-- Methods that a document is read against take the rest of their arguments in an array of
objects. -/
theorem takesArray_of_reference (closed : table.object.isClosed = true) {type : TypeDecl}
    (isType : type ∈ Reference.declarations.types) (isMethod : candidate.method ∈ type.methods)
    (isParams : candidate.method.paramsIndex? = some last) :
    table.TakesArray candidate last (.arrayOf table.object) := by
  have arrayClosed : (TypeSymbol.arrayOf table.object).isClosed = true :=
    TypeSymbol.isClosed_mk_iff.mpr ⟨by decide, rfl, by simpa using closed⟩
  refine ⟨Reference.catchAllIsLast type isType _ isMethod, isParams, ?_, arrayClosed, rfl⟩
  rcases List.findIdx?_eq_some_iff_getElem.mp isParams with ⟨inside, takesRest, -⟩
  have written := Reference.isObjectArray_of_isParams type isType _ isMethod _
    (List.getElem_mem inside) takesRest
  cases writtenIs : candidate.method.parameters[last].type with
  | none => simp [writtenIs] at written
  | some type =>
    rw [writtenIs, Option.any_some] at written
    simp only [signature, List.getElem?_map, List.getElem?_eq_getElem inside, Option.map_some,
      writtenIs, Option.getD_some, resolve_of_isObjectArray _ written]
    rw [TypeSymbol.substitute_of_isClosed _ _ arrayClosed]

theorem targetType_last (isAt : types[last]? = some array) :
    MethodDecl.targetType types none last = array := by
  simp [MethodDecl.targetType, isAt]

theorem targetType_of_ne {place : Nat} (isOther : place ≠ last) :
    MethodDecl.targetType types (some last) place = MethodDecl.targetType types none place := by
  unfold MethodDecl.targetType
  split
  · rfl
  · simp [Ne.symm isOther]

/-- In both forms the argument for the rest says nothing about type parameters. -/
theorem inferArguments_targetType (isAt : types[last]? = some array)
    (closed : array.isClosed = true) (names : List String) (slots : List ArgumentSlot)
    (places : List Nat) (inferred : Substitution) :
    table.inferArguments names inferred
        ((slots.map (·.type)).zip (places.map (MethodDecl.targetType types (some last)))) =
      table.inferArguments names inferred
        ((slots.map (·.type)).zip (places.map (MethodDecl.targetType types none))) := by
  have elementClosed : (MethodDecl.targetType types (some last) last).isClosed = true := by
    rcases array with ⟨name, container, kind, special, typeArguments, _ | element, isRefLike⟩
    · simp [MethodDecl.targetType, isAt]
      rfl
    · have := (TypeSymbol.isClosed_mk_iff.mp closed).2.2 element rfl
      simpa [MethodDecl.targetType, isAt] using this
  induction slots generalizing places inferred with
  | nil => simp [inferArguments]
  | cons slot slots ih =>
    rcases places with _ | ⟨place, places⟩
    · simp [inferArguments]
    · simp only [List.map_cons, List.zip_cons_cons]
      cases slot.type with
      | none => exact ih places inferred
      | some type =>
        rw [inferArguments, inferArguments, ih]
        by_cases isLast : place = last
        · rw [isLast, infer_of_isClosed _ _ _ _ _ elementClosed, targetType_last isAt,
            infer_of_isClosed _ _ _ _ _ closed]
        · rw [targetType_of_ne isLast]

theorem callSubstitution?_targetType (isAt : types[last]? = some array)
    (closed : array.isClosed = true) (names : List String) (explicit : List TypeSymbol)
    (slots : List ArgumentSlot) (places : List Nat) :
    table.callSubstitution? names explicit slots
        (places.map (MethodDecl.targetType types (some last))) =
      table.callSubstitution? names explicit slots
        (places.map (MethodDecl.targetType types none)) := by
  simp only [callSubstitution?, inferArguments_targetType isAt closed]

end

section

variable {table : TypeTable} {candidate : MethodCandidate} {last : Nat} {array : TypeSymbol}
  {slots : List ArgumentSlot} {explicit : List TypeSymbol} {expanded : Option Nat}
  {applicable : ApplicableMethod}

theorem exists_of_applicableIn?
    (found : table.applicableIn? candidate slots explicit expanded = some applicable) :
    applicable.isExpanded = expanded.isSome ∧
      ∃ inferred, applicable.parameters =
        (candidate.method.parameters.zip (table.signature candidate).1).map
          fun (parameter, type) =>
            ⟨parameter.name, type.substitute inferred, parameter.isParams,
              parameter.isOptional⟩ := by
  simp only [applicableIn?, bind, Option.bind_eq_some_iff] at found
  rcases found with ⟨assigned, -, inferred, -, found⟩
  split at found <;> cases found
  exact ⟨rfl, inferred, rfl⟩

theorem applicable?_eq_some_iff (isParams : candidate.method.paramsIndex? = some last)
    (found : table.applicable? slots explicit candidate = some applicable) :
    table.applicableIn? candidate slots explicit none = some applicable ∨
      table.applicableIn? candidate slots explicit none = none ∧
        table.applicableIn? candidate slots explicit (some last) = some applicable := by
  unfold applicable? at found
  split at found
  · cases found
  · rw [isParams] at found
    dsimp only at found
    cases normal : table.applicableIn? candidate slots explicit none with
    | some other =>
      rw [normal] at found
      exact .inl found
    | none =>
      rw [normal] at found
      exact .inr ⟨rfl, found⟩

/-- In both forms, one argument and no other goes to the last parameter. -/
def IsRest (candidate : MethodCandidate) (slots : List ArgumentSlot) (last : Nat)
    (slot : ArgumentSlot) : Prop :=
  ∀ expanded places, MethodDecl.IsForm candidate.method.parameters expanded →
    MethodDecl.assign? candidate.method.parameters expanded (slots.map (·.label)) = some places →
      (slots.zip places).filter (·.2 = last) = [(slot, last)]

theorem nodup_of_isRest {slot : ArgumentSlot} (isRest : IsRest candidate slots last slot)
    (form : MethodDecl.IsForm candidate.method.parameters (some last)) {places : List Nat}
    (accepted : MethodDecl.assign? candidate.method.parameters (some last)
      (slots.map (·.label)) = some places) : places.Nodup ∧ last ∈ places := by
  have single := isRest _ _ form accepted
  simp only [MethodDecl.assign?, bind, Option.bind_eq_some_iff] at accepted
  rcases accepted with ⟨assigned, given, complete⟩
  split at complete <;> cases complete
  have others := (MethodDecl.nodup_of_assignFrom? given).1
  have sameLength := MethodDecl.length_of_assignFrom? given
  have placesAre : (slots.zip places).map (·.2) = places :=
    List.map_snd_zip (by simp [sameLength])
  have once : places.filter (· = last) = [last] := by
    rw [← placesAre, List.filter_map]
    exact congrArg (List.map (·.2)) single
  refine ⟨List.nodup_iff_count_le_one.mpr fun place => ?_, ?_⟩
  · by_cases isLast : place = last
    · have counted := congrArg (List.count last) once
      rw [List.count_filter (by simp)] at counted
      rw [isLast, counted]
      simp
    · rw [← List.count_filter (p := fun place => decide (some last ≠ some place))
        (by simp [Ne.symm isLast])]
      exact List.nodup_iff_count_le_one.mp others place
  · have member : last ∈ places.filter (· = last) := by simp [once]
    exact (List.mem_filter.mp member).1

namespace TakesArray

variable (takes : table.TakesArray candidate last array)

include takes

theorem atEnd : last + 1 = candidate.method.parameters.length := by
  rcases List.findIdx?_eq_some_iff_getElem.mp takes.isParams with ⟨inside, isParams, -⟩
  exact (takes.isLast.eq_last (List.getElem?_eq_getElem inside) (.inl isParams)).2

theorem isForm : MethodDecl.IsForm candidate.method.parameters (some last) :=
  .inr takes.isParams.symm

theorem slotConverts_of_normal {slot : ArgumentSlot} (isRest : IsRest candidate slots last slot)
    (normal : (table.applicableIn? candidate slots explicit none).isSome = true) :
    table.slotConverts slot array = true := by
  rcases isSome_applicableIn?_iff.mp normal with ⟨places, inferred, accepted, -, converts⟩
  have member : (slot, last) ∈ slots.zip places := by
    have single := isRest _ _ (.inl rfl) accepted
    exact (List.mem_filter.mp (single ▸ List.mem_singleton_self _)).1
  have target := converts (slot, array) (by
    rw [List.map_map, List.zip_map_right]
    refine List.mem_map.mpr ⟨(slot, last), member, ?_⟩
    simp [targetType_last takes.type,
      TypeSymbol.substitute_of_isClosed inferred array takes.isClosed])
  exact target

/-- If the only argument for the rest converts to the array and the call is possible in expanded
form, it is possible in normal form. -/
theorem normal_of_slotConverts {slot : ArgumentSlot} (isRest : IsRest candidate slots last slot)
    (converts : table.slotConverts slot array = true)
    (isApplicable : (table.applicableIn? candidate slots explicit (some last)).isSome = true) :
    (table.applicableIn? candidate slots explicit none).isSome = true := by
  rcases isSome_applicableIn?_iff.mp isApplicable with
    ⟨places, inferred, accepted, isInferred, allConvert⟩
  rcases nodup_of_isRest isRest takes.isForm accepted with ⟨distinct, isGiven⟩
  have normal := MethodDecl.assign?_none takes.atEnd takes.isForm accepted distinct isGiven
  rw [callSubstitution?_targetType takes.type takes.isClosed] at isInferred
  refine isSome_applicableIn?_iff.mpr ⟨places, inferred, normal, isInferred, ?_⟩
  rw [List.map_map, List.zip_map_right] at allConvert ⊢
  intro entry member
  rcases List.mem_map.mp member with ⟨⟨other, place⟩, given, rfl⟩
  by_cases isLast : place = last
  · have isSlot : (other, place) ∈ (slots.zip places).filter (·.2 = last) :=
      List.mem_filter.mpr ⟨given, by simpa using isLast⟩
    rw [isRest _ _ takes.isForm accepted, List.mem_singleton] at isSlot
    cases isSlot
    simpa [targetType_last takes.type,
      TypeSymbol.substitute_of_isClosed inferred array takes.isClosed] using converts
  · have converted := allConvert _ (List.mem_map_of_mem given)
    simpa [targetType_of_ne isLast] using converted

/-- A call with one argument for the rest is resolved in normal form exactly if this argument
converts to the array. -/
theorem isExpanded_eq_false_iff {slot : ArgumentSlot} (isRest : IsRest candidate slots last slot)
    (found : table.applicable? slots explicit candidate = some applicable) :
    applicable.isExpanded = false ↔ table.slotConverts slot array = true := by
  rcases applicable?_eq_some_iff takes.isParams found with normal | ⟨notNormal, expanded⟩
  · rw [(exists_of_applicableIn? normal).1]
    exact iff_of_true rfl (takes.slotConverts_of_normal isRest
      (Option.isSome_iff_exists.mpr ⟨applicable, normal⟩))
  · rw [(exists_of_applicableIn? expanded).1]
    refine iff_of_false (by simp) fun converts => ?_
    have normal := takes.normal_of_slotConverts isRest converts
      (Option.isSome_iff_exists.mpr ⟨applicable, expanded⟩)
    simp [notNormal] at normal

theorem takesRest_iff (place : Nat) :
    MethodDecl.takesRest candidate.method.parameters place = true ↔ place = last := by
  rcases List.findIdx?_eq_some_iff_getElem.mp takes.isParams with ⟨inside, isParams, -⟩
  constructor
  · intro takesRest
    have isInside := MethodDecl.lt_of_takesRest takesRest
    rw [MethodDecl.takesRest, List.getElem?_eq_getElem isInside] at takesRest
    have isEnd := (takes.isLast.eq_last (List.getElem?_eq_getElem isInside) (.inl takesRest)).2
    have := takes.atEnd
    omega
  · rintro rfl
    rw [MethodDecl.takesRest, List.getElem?_eq_getElem inside]
    exact isParams

theorem exists_parameters (found : table.applicable? slots explicit candidate = some applicable) :
    MethodDecl.Describes candidate.method.parameters applicable.parameters ∧
      ∃ inferred, applicable.parameters =
        (candidate.method.parameters.zip (table.signature candidate).1).map
          fun (parameter, type) =>
            ⟨parameter.name, type.substitute inferred, parameter.isParams,
              parameter.isOptional⟩ := by
  rcases applicable?_eq_some_iff takes.isParams found with normal | ⟨-, expanded⟩
  · exact ⟨describes_of_applicableIn? normal, (exists_of_applicableIn? normal).2⟩
  · exact ⟨describes_of_applicableIn? expanded, (exists_of_applicableIn? expanded).2⟩

/-- Of the arguments that are read, the one in the overflow is at the last place. -/
theorem filter_eq_singleton {parameters : List ParameterSymbol}
    (describes : MethodDecl.Describes candidate.method.parameters parameters)
    {entries : List BoundArgument} {places : List Nat}
    (follow : List.Forall₂ (fun entry place => parameters[place]? = some entry.parameter) entries
      places) {argument : Argument}
    (single : (entries.filter fun entry => entry.parameter.isCatchAll).map (·.argument) =
      [argument]) (slotOf : Argument → ArgumentSlot) :
    ((entries.map fun entry => slotOf entry.argument).zip places).filter (·.2 = last) =
      [(slotOf argument, last)] := by
  have tests := fun {place : Nat} {symbol : ParameterSymbol}
    (isAt : parameters[place]? = some symbol) => takes.isLast.takesRest_eq describes isAt
  have overflow := (CallShape.map_filter_isCatchAll follow tests).symm.trans single
  rw [List.map_eq_singleton_iff] at overflow
  rcases overflow with ⟨⟨other, place⟩, alone, rfl⟩
  have isLast : place = last := by
    have member := alone ▸ List.mem_singleton_self (other, place)
    exact (takes.takesRest_iff place).mp (by simpa using (List.mem_filter.mp member).2)
  have test (given : Argument × Nat) :
      decide (given.2 = last) = MethodDecl.takesRest candidate.method.parameters given.2 :=
    Bool.eq_iff_iff.mpr (by simp [takes.takesRest_iff])
  rw [← Function.comp_def slotOf, ← List.map_map, List.zip_map_left, List.filter_map]
  simp only [Function.comp_def, Prod.map_snd, id_eq, test]
  rw [alone, isLast]
  rfl

theorem exists_getElem?_last
    (found : table.applicable? slots explicit candidate = some applicable) :
    ∃ parameter, applicable.parameters[last]? = some parameter ∧ parameter.type = array := by
  rcases takes.exists_parameters found with ⟨-, inferred, parameters⟩
  have inside : last < candidate.method.parameters.length := by
    have := takes.atEnd
    omega
  have pair : (candidate.method.parameters.zip (table.signature candidate).1)[last]? =
      some (candidate.method.parameters[last], array) :=
    List.getElem?_zip_eq_some.mpr ⟨List.getElem?_eq_getElem inside, takes.type⟩
  rw [parameters, List.getElem?_map, pair]
  exact ⟨_, rfl, TypeSymbol.substitute_of_isClosed inferred array takes.isClosed⟩

end TakesArray

/-- What a candidate has in front of the arguments of a call: a receiver, if it is an extension. -/
inductive Fronts (candidate : MethodCandidate) : List ArgumentSlot → Prop
  | member : candidate.isReduced = false → Fronts candidate []
  | extension (receiver : TypeSymbol) : candidate.isReduced = true →
      Fronts candidate [⟨none, none, some receiver⟩]

/-- A parameter that takes one argument may be left out together with its argument. -/
theorem parameterFor?_cons {method shorter : MethodSymbol} {first : ParameterSymbol}
    (parameters : method.parameters = first :: shorter.parameters)
    (takesOne : first.isCatchAll = false) {argument : Argument}
    (isOther : argument.name ≠ some first.name) (position : Nat) :
    CallShape.parameterFor? shorter position argument =
      CallShape.parameterFor? method (position + 1) argument := by
  unfold CallShape.parameterFor?
  rw [parameters]
  cases labelIs : argument.name with
  | some label =>
    have notFirst : (first.name == label) = false :=
      beq_eq_false_iff_ne.mpr fun same => isOther (by rw [labelIs, same])
    simp [MethodSymbol.parameter?, parameters, notFirst]
  | none =>
    rw [List.findIdx?_cons, takesOne]
    cases shorter.parameters.findIdx? (·.isCatchAll) <;> simp

theorem assign?_cons {method shorter : MethodSymbol} {first : ParameterSymbol}
    (parameters : method.parameters = first :: shorter.parameters)
    (takesOne : first.isCatchAll = false) {arguments : List Argument}
    (areOthers : ∀ argument ∈ arguments, argument.name ≠ some first.name) (position : Nat) :
    CallShape.assign? shorter position arguments =
      CallShape.assign? method (position + 1) arguments := by
  induction arguments generalizing position with
  | nil => rfl
  | cons argument rest ih =>
    rw [List.forall_mem_cons] at areOthers
    rw [CallShape.assign?, CallShape.assign?, ih areOthers.2,
      parameterFor?_cons parameters takesOne areOthers.1]

/-- No label names a parameter that is taken and is not the one for the rest. -/
theorem ne_of_assignFrom? {declared : List ParameterDecl} {first : ParameterDecl}
    (isFirst : declared[0]? = some first) (isOne : expanded ≠ some 0)
    {labels : List (Option String)} {position : Nat} {taken places : List Nat}
    (isTaken : 0 ∈ taken)
    (accepted : MethodDecl.assignFrom? declared expanded position taken labels = some places) :
    ∀ label ∈ labels, label ≠ some first.name := by
  induction labels generalizing position taken places with
  | nil => simp
  | cons label rest ih =>
    simp only [MethodDecl.assignFrom?, bind, Option.bind_eq_some_iff] at accepted
    rcases accepted with ⟨place, given, accepted⟩
    split at accepted
    · cases accepted
    · rename_i isFree
      simp only [pure, Option.bind_eq_some_iff] at accepted
      rcases accepted with ⟨others, restAccepted, -⟩
      refine List.forall_mem_cons.mpr ⟨?_, ih (List.mem_cons_of_mem _ isTaken) restAccepted⟩
      rintro rfl
      rcases declared with _ | ⟨head, declared⟩
      · cases isFirst
      · cases isFirst
        have isZero : place = 0 := by
          simpa [MethodDecl.parameterIndex?, List.findIdx?_cons, eq_comm] using given
        rw [isZero] at isFree
        simp [isOne, isTaken] at isFree

namespace TakesArray

variable (takes : table.TakesArray candidate last array)

include takes

/-- The receiver of an extension goes to the first parameter, and the arguments behind it are read
as if it were one of them. -/
theorem exists_places_of_extension (notFirst : last ≠ 0)
    (describes : MethodDecl.Describes candidate.method.parameters applicable.parameters)
    (isExtension : candidate.isReduced = true)
    (form : MethodDecl.IsForm candidate.method.parameters expanded) {arguments : List Argument}
    {places : List Nat}
    (given : MethodDecl.assignFrom? candidate.method.parameters expanded 0 []
      (none :: arguments.map (·.name)) = some places) {entries : List BoundArgument}
    (isRead : CallShape.assign? (methodSymbol candidate applicable) 0 arguments = some entries) :
    ∃ others, places = 0 :: others ∧
      List.Forall₂ (fun entry place => applicable.parameters[place]? = some entry.parameter)
        entries others := by
  have isOne : expanded ≠ some 0 := fun isZero =>
    notFirst ((takes.takesRest_iff 0).mp (MethodDecl.takesRest_of_isForm form isZero)).symm
  have inside : 0 < candidate.method.parameters.length := by
    have := takes.atEnd
    omega
  simp only [MethodDecl.assignFrom?, bind, Option.bind_eq_some_iff] at given
  rcases given with ⟨place, isPlace, given⟩
  have isZero : place = 0 := by
    have noRest : expanded.filter (· ≤ 0) = none := by
      cases expanded with
      | none => rfl
      | some index => simpa [Option.filter] using isOne
    simp only [MethodDecl.parameterIndex?, noRest, inside, if_true, Option.some.injEq] at isPlace
    exact isPlace.symm
  subst isZero
  split at given
  · cases given
  · simp only [pure, Option.bind_eq_some_iff, Option.some.injEq] at given
    rcases given with ⟨others, restGiven, rfl⟩
    refine ⟨others, rfl, ?_⟩
    -- the method with its first parameter, which reads the arguments from the second place on
    let whole : MethodSymbol :=
      { methodSymbol candidate applicable with parameters := applicable.parameters }
    rcases MethodDecl.exists_assign? takes.isLast form (show MethodDecl.Describes _ whole.parameters
      from describes) restGiven with ⟨entries', read, -, follow⟩
    rcases describes.exists_getElem? (List.getElem?_eq_getElem inside) with
      ⟨first, isFirst, sameName, -⟩
    have parameters :
        whole.parameters = first :: (methodSymbol candidate applicable).parameters := by
      simp only [whole, methodSymbol, isExtension, if_true]
      rw [List.drop_one, List.cons_head?_tail]
      rw [List.head?_eq_getElem?]
      exact isFirst
    have takesOne : first.isCatchAll = false := by
      rw [takes.isLast.takesRest_eq describes isFirst, Bool.eq_false_iff]
      exact fun takesRest => notFirst ((takes.takesRest_iff 0).mp takesRest).symm
    have areOthers := ne_of_assignFrom? (List.getElem?_eq_getElem inside) isOne
      (List.mem_singleton_self 0) restGiven
    rw [assign?_cons parameters takesOne (by simpa [sameName] using areOthers)] at isRead
    cases isRead.symm.trans read
    exact follow

/-- An extension that takes the rest of its arguments as its only parameter takes no argument. -/
theorem ne_zero_of_extension
    (describes : MethodDecl.Describes candidate.method.parameters applicable.parameters)
    (isExtension : candidate.isReduced = true) {arguments : List Argument}
    {entries : List BoundArgument}
    (isRead : CallShape.assign? (methodSymbol candidate applicable) 0 arguments = some entries)
    (nonempty : entries ≠ []) : last ≠ 0 := by
  rintro rfl
  rcases List.exists_mem_of_ne_nil entries nonempty with ⟨entry, member⟩
  have isParameter := CallShape.mem_parameters_of_assign? isRead entry member
  have few : applicable.parameters.length ≤ 1 :=
    Nat.le_of_eq (describes.length_eq.trans takes.atEnd.symm)
  simp only [methodSymbol, isExtension, if_true, List.drop_eq_nil_iff.mpr few] at isParameter
  cases isParameter

/-- The argument that a call has in the overflow is the one that resolution has for the rest. -/
theorem isRest_of_overflow {front : List ArgumentSlot} (fronts : Fronts candidate front)
    {arguments : List Argument} {slotOf : Argument → ArgumentSlot}
    (labels : ∀ argument, (slotOf argument).label = argument.name)
    (found : table.applicable? (front ++ arguments.map slotOf) explicit candidate =
      some applicable) {entries : List BoundArgument}
    (isRead : CallShape.assign? (methodSymbol candidate applicable) 0 arguments = some entries)
    {argument : Argument}
    (single : (entries.filter fun entry => entry.parameter.isCatchAll).map (·.argument) =
      [argument]) :
    IsRest candidate (front ++ arguments.map slotOf) last (slotOf argument) := by
  intro expanded places form accepted
  have describes := (takes.exists_parameters found).1
  have slotsAre : arguments.map slotOf = entries.map fun entry => slotOf entry.argument := by
    rw [← CallShape.map_argument_of_assign? isRead, List.map_map]
    rfl
  simp only [MethodDecl.assign?, bind, Option.bind_eq_some_iff] at accepted
  rcases accepted with ⟨assigned, given, complete⟩
  split at complete <;> cases complete
  rw [List.map_append, List.map_map, Function.comp_def] at given
  simp only [labels] at given
  cases fronts with
  | member isMember =>
    have parameters : (methodSymbol candidate applicable).parameters = applicable.parameters := by
      simp [methodSymbol, isMember]
    rcases MethodDecl.exists_assign? takes.isLast form (parameters ▸ describes) given with
      ⟨others, read, -, follow⟩
    cases isRead.symm.trans read
    rw [parameters] at follow
    rw [List.nil_append, slotsAre]
    exact takes.filter_eq_singleton describes follow single slotOf
  | extension receiver isExtension =>
    have nonempty : entries ≠ [] := by
      rintro rfl
      simp at single
    have notFirst := takes.ne_zero_of_extension describes isExtension isRead nonempty
    rcases takes.exists_places_of_extension notFirst describes isExtension form given isRead with
      ⟨others, rfl, follow⟩
    rw [List.singleton_append, List.zip_cons_cons, slotsAre,
      List.filter_cons_of_neg (by simpa using notFirst.symm)]
    exact takes.filter_eq_singleton describes follow single slotOf

theorem exists_find?_isCatchAll
    (found : table.applicable? slots explicit candidate = some applicable) :
    ∃ parameter, applicable.parameters.find? (·.isCatchAll) = some parameter ∧
      parameter.type = array := by
  have describes := (takes.exists_parameters found).1
  rw [List.find?_eq_bind_findIdx?_getElem?, takes.isLast.findIdx?_isCatchAll describes]
  rw [show candidate.method.parameters.findIdx? _ = some last from takes.isParams]
  exact takes.exists_getElem?_last found

/-- The parameter that a call takes for the rest has the type of the array. -/
theorem exists_catchAll? {front : List ArgumentSlot} (fronts : Fronts candidate front)
    (found : table.applicable? slots explicit candidate = some applicable)
    {arguments : List Argument} {entries : List BoundArgument}
    (isRead : CallShape.assign? (methodSymbol candidate applicable) 0 arguments = some entries)
    (nonempty : entries ≠ []) :
    ∃ parameter, (methodSymbol candidate applicable).parameters.find? (·.isCatchAll) =
      some parameter ∧ parameter.type = array := by
  have describes := (takes.exists_parameters found).1
  have found := takes.exists_find?_isCatchAll found
  cases fronts with
  | member isMember =>
    simpa only [methodSymbol, isMember, Bool.false_eq_true, if_false] using found
  | extension receiver isExtension =>
    have notFirst := takes.ne_zero_of_extension describes isExtension isRead nonempty
    simp only [methodSymbol, isExtension, if_true]
    rcases split : applicable.parameters with _ | ⟨first, others⟩
    · simp [split] at found
    · have isFirst : applicable.parameters[0]? = some first := by rw [split]; rfl
      have takesOne : first.isCatchAll = false := by
        rw [takes.isLast.takesRest_eq describes isFirst, Bool.eq_false_iff]
        exact fun takesRest => notFirst ((takes.takesRest_iff 0).mp takesRest).symm
      rw [split, List.find?_cons_of_neg (by simp [takesOne])] at found
      exact found

end TakesArray

end

end TypeTable

end AssertionLint
