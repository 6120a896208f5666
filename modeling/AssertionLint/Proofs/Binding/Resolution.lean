import AssertionLint.Proofs.Binding.MethodGroup
import AssertionLint.Proofs.Binding.RestArgument
import Mathlib.Data.List.Induction
import Mathlib.Data.List.Pairwise
import Mathlib.Data.List.Zip

/-!
# Soundness of overload resolution

A call resolves to a method only if the method is applicable: each argument goes to a parameter and
converts to its type, a parameter without an argument does not need one, and something stands for
each type parameter. Of the applicable methods the first one of each signature stays. The one that
is better than all others that stay is chosen, and there is at most one, since no method is better
than a method that is better than it (`TypeTable.resolveOverload?_isSound`).
-/

namespace AssertionLint

namespace MethodDecl

variable {parameters : List ParameterDecl} {expanded : Option Nat}

/-- The place of the parameter that an argument at a position goes to: a named argument to the first
parameter of its name, another one to the parameter at its own place, or to the expanded parameter
from the place of this one on. -/
inductive GoesTo (parameters : List ParameterDecl) (expanded : Option Nat) (position : Nat) :
    Option String → Nat → Prop
  | named {name : String} {place : Nat} (inside : place < parameters.length)
      (isNamed : parameters[place].name = name)
      (isFirst : ∀ earlier (before : earlier < place), parameters[earlier].name ≠ name) :
      GoesTo parameters expanded position (some name) place
  | own (inside : position < parameters.length)
      (before : ∀ place, expanded = some place → position < place) :
      GoesTo parameters expanded position none position
  | rest {place : Nat} (isExpanded : expanded = some place) (reached : place ≤ position) :
      GoesTo parameters expanded position none place

theorem goesTo_of_parameterIndex? {position place : Nat} {label : Option String}
    (given : parameterIndex? parameters expanded position label = some place) :
    GoesTo parameters expanded position label place := by
  cases label with
  | some name =>
    rcases List.findIdx?_eq_some_iff_getElem.mp given with ⟨inside, isNamed, isFirst⟩
    exact .named inside (by simpa using isNamed) fun earlier before => by
      simpa using isFirst earlier before
  | none =>
    simp only [parameterIndex?] at given
    split at given
    · rename_i index isReached
      cases given
      rcases Option.filter_eq_some_iff.mp isReached with ⟨isExpanded, reached⟩
      exact .rest isExpanded (by simpa using reached)
    · rename_i notReached
      split at given
      · rename_i inside
        cases given
        refine .own inside fun index isExpanded => ?_
        simpa [isExpanded, Option.filter] using notReached
      · cases given

theorem goesTo_of_assignFrom? {labels : List (Option String)} {position : Nat}
    {taken places : List Nat}
    (accepted : assignFrom? parameters expanded position taken labels = some places) :
    ∀ (argument place : Nat) (label : Option String), labels[argument]? = some label →
      places[argument]? = some place →
      GoesTo parameters expanded (position + argument) label place := by
  induction labels generalizing position taken places with
  | nil => simp
  | cons first labels ih =>
    simp only [assignFrom?, bind, Option.bind_eq_some_iff] at accepted
    rcases accepted with ⟨index, given, accepted⟩
    split at accepted
    · cases accepted
    · simp only [pure, Option.bind_eq_some_iff, Option.some.injEq] at accepted
      rcases accepted with ⟨others, restAccepted, rfl⟩
      intro argument place label labelIs placeIs
      cases argument with
      | zero =>
        cases labelIs
        cases placeIs
        exact goesTo_of_parameterIndex? given
      | succ argument =>
        have later := ih restAccepted argument place label labelIs placeIs
        rwa [Nat.add_right_comm] at later

theorem mem_unassigned_iff {assigned : List Nat} {parameter : ParameterDecl} :
    parameter ∈ unassigned parameters expanded assigned ↔
      ∃ place, parameters[place]? = some parameter ∧ place ∉ assigned ∧ expanded ≠ some place := by
  simp [unassigned, List.mem_zipIdx_iff_getElem?]

end MethodDecl

namespace Substitution

theorem find?_insert (substitution : Substitution) (name wanted : String) (type : TypeSymbol) :
    (substitution.insert name type).find? wanted =
      if name = wanted then some type else substitution.find? wanted := by
  by_cases same : name = wanted <;> simp [insert, find?, same]

theorem find?_insertNew (substitution : Substitution) (name wanted : String) (type : TypeSymbol) :
    (substitution.insertNew name type).find? wanted =
      if name = wanted then some ((substitution.find? wanted).getD type)
      else substitution.find? wanted := by
  unfold insertNew
  by_cases same : name = wanted
  · subst same
    cases known : substitution.find? name <;> simp [known, find?_insert]
  · split <;> simp [find?_insert, same]

theorem find?_foldl_insertNew (names : List String) (substitution : Substitution)
    (wanted : String) (type : TypeSymbol) :
    (names.foldl (fun known name => known.insertNew name type) substitution).find? wanted =
      if wanted ∈ names then some ((substitution.find? wanted).getD type)
      else substitution.find? wanted := by
  induction names generalizing substitution with
  | nil => simp
  | cons name names ih =>
    rw [List.foldl_cons, ih, find?_insertNew]
    by_cases same : name = wanted
    · simp [same]
    · simp [same, Ne.symm same]

theorem mem_of_find?_ofLists {names : List String} {types : List TypeSymbol} {name : String}
    {type : TypeSymbol} (found : (ofLists names types).find? name = some type) :
    (name, type) ∈ names.zip types := by
  refine List.foldlRecOn (motive := fun substitution : Substitution =>
    substitution.find? name = some type → (name, type) ∈ names.zip types) (names.zip types) _
    (by simp [empty, find?]) ?_ found
  rintro substitution unchanged ⟨inserted, given⟩ member known
  simp only [find?_insert] at known
  split at known
  · rename_i same
    cases known
    rwa [← same]
  · exact unchanged known

end Substitution

namespace TypeTable

variable {table : TypeTable} {names : List String} {name : String} {type : TypeSymbol}

/-- The comparison of an argument's type with a parameter's type lets a type stand for a type
parameter: the argument's own where the parameter's type is the type parameter, or one that stands
at the same place of both types, of the type without `null`, or of a supertype. -/
inductive Infers (table : TypeTable) (names : List String) (name : String) (type : TypeSymbol) :
    TypeSymbol → TypeSymbol → Prop
  | own {parameter : TypeSymbol} (known : type.isUnknown = false) (notNull : type.kind ≠ .null)
      (isParameter : parameter.kind = .typeParameter) (isNamed : parameter.name = name)
      (declared : name ∈ names) : Infers table names name type type parameter
  | element {argument parameter given element : TypeSymbol}
      (ofArgument : argument.elementType = some given)
      (ofParameter : parameter.elementType = some element)
      (inner : Infers table names name type given element) :
      Infers table names name type argument parameter
  | withoutNull {argument parameter inside : TypeSymbol}
      (isNullable : parameter.isNullableValueType = true)
      (notNullable : argument.isNullableValueType = false)
      (ofParameter : parameter.typeArguments.head? = some inside)
      (inner : Infers table names name type argument inside) :
      Infers table names name type argument parameter
  | supertype {argument parameter nearest given inside : TypeSymbol} {place : Nat}
      (isNearest : (table.supertypes argument).find? (·.sameDefinition parameter) = some nearest)
      (ofArgument : nearest.typeArguments[place]? = some given)
      (ofParameter : parameter.typeArguments[place]? = some inside)
      (inner : Infers table names name type given inside) :
      Infers table names name type argument parameter

mutual

theorem infers_of_find?_infer : ∀ (inferred : Substitution) (argument parameter : TypeSymbol),
    (table.infer names inferred argument parameter).find? name = some type →
      inferred.find? name = some type ∨ Infers table names name type argument parameter
  | inferred, argument,
    ⟨inside, container, kind, special, typeArguments, elementType, isRefLike⟩ => by
    intro found
    rw [infer.eq_def] at found
    dsimp only at found
    split at found
    · exact .inl found
    · rename_i isTyped
      simp only [Bool.or_eq_true, decide_eq_true_eq, not_or, Bool.not_eq_true] at isTyped
      split at found
      · rename_i isParameter
        split at found
        · rename_i declared
          rw [Substitution.find?_insertNew] at found
          split at found
          · rename_i same
            cases known : inferred.find? name with
            | some earlier =>
              rw [known, Option.getD_some] at found
              exact .inl found
            | none =>
              rw [known, Option.getD_none] at found
              cases found
              subst same
              exact .inr (.own isTyped.1 isTyped.2 isParameter rfl (by simpa using declared))
          · exact .inl found
        · exact .inl found
      · split at found
        · rename_i element given ofArgument
          exact (infers_of_find?_infer inferred given element found).imp_right
            (.element ofArgument rfl)
        · split at found
          · exact .inl found
          · rename_i first following
            split at found
            · rename_i nullable
              rw [Bool.and_eq_true, Bool.not_eq_true'] at nullable
              exact (infers_of_find?_infer inferred argument first found).imp_right
                (.withoutNull nullable.1 nullable.2 rfl)
            · split at found
              · rename_i nearest isNearest
                refine (infers_of_find?_inferAll inferred nearest.typeArguments
                  (first :: following) found).imp_right ?_
                rintro ⟨place, given, inner, ofArgument, ofParameter, infers⟩
                exact .supertype isNearest ofArgument ofParameter infers
              · exact .inl found

theorem infers_of_find?_inferAll : ∀ (inferred : Substitution)
    (arguments parameters : List TypeSymbol),
    (table.inferAll names inferred arguments parameters).find? name = some type →
      inferred.find? name = some type ∨
        ∃ (place : Nat) (argument parameter : TypeSymbol), arguments[place]? = some argument ∧
          parameters[place]? = some parameter ∧ Infers table names name type argument parameter
  | inferred, _, [] => by
    intro found
    rw [inferAll] at found
    exact .inl found
  | inferred, [], _ :: _ => by
    intro found
    rw [inferAll] at found
    exact .inl found
  | inferred, argument :: arguments, parameter :: parameters => by
    intro found
    rw [inferAll] at found
    rcases infers_of_find?_inferAll _ arguments parameters found with
      earlier | ⟨place, given, inner, ofArgument, ofParameter, infers⟩
    · exact (infers_of_find?_infer inferred argument parameter earlier).imp_right
        fun infers => ⟨0, argument, parameter, rfl, rfl, infers⟩
    · exact .inr ⟨place + 1, given, inner, ofArgument, ofParameter, infers⟩

end

theorem infers_of_find?_inferArguments (inferred : Substitution)
    (pairs : List (Option TypeSymbol × TypeSymbol))
    (found : (table.inferArguments names inferred pairs).find? name = some type) :
    inferred.find? name = some type ∨
      ∃ argument target, (some argument, target) ∈ pairs ∧
        Infers table names name type argument target := by
  induction pairs generalizing inferred with
  | nil =>
    rw [inferArguments] at found
    exact .inl found
  | cons pair pairs ih =>
    rcases pair with ⟨_ | argument, target⟩ <;> rw [inferArguments] at found
    · refine (ih inferred found).imp_right ?_
      rintro ⟨given, wanted, member, infers⟩
      exact ⟨given, wanted, List.mem_cons_of_mem _ member, infers⟩
    · rcases ih _ found with earlier | ⟨given, wanted, member, infers⟩
      · exact (infers_of_find?_infer inferred argument target earlier).imp_right
          fun infers => ⟨argument, target, List.mem_cons_self, infers⟩
      · exact .inr ⟨given, wanted, List.mem_cons_of_mem _ member, infers⟩

/-- The type that stands for a type parameter in a call: the written one, or one that an argument
lets stand for it, or an unknown one because the type of some argument is unknown. -/
inductive StandsFor (table : TypeTable) (names : List String) (explicit : List TypeSymbol)
    (slots : List ArgumentSlot) (targets : List TypeSymbol) (name : String) : TypeSymbol → Prop
  | written {type : TypeSymbol} (isWritten : explicit ≠ [])
      (given : (name, type) ∈ names.zip explicit) :
      StandsFor table names explicit slots targets name type
  | inferred {slot : ArgumentSlot} {target argument type : TypeSymbol} (notWritten : explicit = [])
      (given : (slot, target) ∈ slots.zip targets) (isTyped : slot.type = some argument)
      (infers : Infers table names name type argument target) :
      StandsFor table names explicit slots targets name type
  | unknown {slot : ArgumentSlot} (member : slot ∈ slots) (isUntyped : slot.type = none) :
      StandsFor table names explicit slots targets name .unknown

theorem standsFor_of_callSubstitution? {explicit targets : List TypeSymbol}
    {slots : List ArgumentSlot} {found : Substitution}
    (isFound : table.callSubstitution? names explicit slots targets = some found)
    (declared : name ∈ names) :
    ∃ type, found.find? name = some type ∧
      StandsFor table names explicit slots targets name type := by
  simp only [callSubstitution?] at isFound
  generalize startIs : (if explicit.isEmpty = true then table.inferArguments names .empty
    ((slots.map (·.type)).zip targets) else .ofLists names explicit) = start at isFound
  have ofStart (type : TypeSymbol) (known : start.find? name = some type) :
      StandsFor table names explicit slots targets name type := by
    subst startIs
    split at known
    · rename_i notWritten
      rcases infers_of_find?_inferArguments _ _ known with
        nothing | ⟨argument, target, given, infers⟩
      · cases nothing
      · rw [List.zip_map_left] at given
        rcases List.mem_map.mp given with ⟨⟨slot, wanted⟩, member, same⟩
        simp only [Prod.map_apply, id_eq, Prod.mk.injEq] at same
        rcases same with ⟨isTyped, rfl⟩
        exact .inferred (by simpa using notWritten) member isTyped infers
    · rename_i isWritten
      exact .written (by simpa using isWritten) (Substitution.mem_of_find?_ofLists known)
  -- an argument of unknown type leaves open type parameters unknown, else all must be known
  split at isFound
  · rename_i someUntyped
    cases isFound
    rw [Substitution.find?_foldl_insertNew, if_pos declared]
    refine ⟨_, rfl, ?_⟩
    cases known : start.find? name with
    | some type => exact ofStart type known
    | none =>
      rcases List.any_eq_true.mp someUntyped with ⟨slot, member, isUntyped⟩
      exact .unknown member (by simpa using isUntyped)
  · split at isFound
    · rename_i allKnown
      cases isFound
      rcases Option.isSome_iff_exists.mp (List.all_eq_true.mp allKnown name declared) with
        ⟨type, known⟩
      exact ⟨type, known, ofStart type known⟩
    · cases isFound

/-- An argument can be passed for a parameter of the given type: its type is unknown, or the
parameter's is, or it converts, a receiver in a way that does not change its value. -/
def CanPass (table : TypeTable) (slot : ArgumentSlot) (target : TypeSymbol) : Prop :=
  ∀ type, slot.type = some type → target.isUnknown = false →
    (∀ expr, slot.expr = some expr → (table.exprConversion expr type target).exists = true) ∧
      (slot.expr = none → table.standardConversion type target = .identity ∨
        table.standardConversion type target = .implicitReference ∨
        table.standardConversion type target = .boxing)

theorem canPass_of_slotConverts {slot : ArgumentSlot} {target : TypeSymbol}
    (converts : table.slotConverts slot target = true) : table.CanPass slot target := by
  intro type typeIs isKnown
  rw [slotConverts, typeIs] at converts
  simp only [isKnown, Bool.false_or] at converts
  cases exprIs : slot.expr with
  | some expr =>
    rw [exprIs] at converts
    constructor
    · intro other same
      cases same
      exact converts
    · intro none
      cases none
  | none =>
    rw [exprIs] at converts
    constructor
    · intro other same
      cases same
    · intro _
      dsimp only at converts
      split at converts
      · exact .inl ‹_›
      · exact .inr (.inl ‹_›)
      · exact .inr (.inr ‹_›)
      · cases converts

/-- How a method is applicable to a call: in which form, at which place the parameter for each
argument is, and what stands for the type parameters. -/
structure IsApplicable (table : TypeTable) (slots : List ArgumentSlot) (explicit : List TypeSymbol)
    (candidate : MethodCandidate) (applicable : ApplicableMethod) (expanded : Option Nat)
    (places : List Nat) (inferred : Substitution) : Prop where
  form : MethodDecl.IsForm candidate.method.parameters expanded
  written : explicit = [] ∨ explicit.length = candidate.method.typeParameters.length
  length : places.length = slots.length
  goesTo : ∀ (argument place : Nat) (slot : ArgumentSlot), slots[argument]? = some slot →
    places[argument]? = some place → place < candidate.method.parameters.length ∧
      MethodDecl.GoesTo candidate.method.parameters expanded argument slot.label place
  /-- Only the expanded parameter gets two arguments. -/
  once : (places.filter (expanded ≠ some ·)).Nodup
  filled : ∀ (place : Nat) (parameter : ParameterDecl),
    candidate.method.parameters[place]? = some parameter → place ∉ places →
      parameter.isOptional = true ∨ expanded = some place
  standsFor : ∀ name ∈ candidate.method.typeParameters, ∃ type, inferred.find? name = some type ∧
    table.StandsFor candidate.method.typeParameters explicit slots
      (places.map (MethodDecl.targetType (table.signature candidate).1 expanded)) name type
  targets : applicable.targets = places.map fun place =>
    (MethodDecl.targetType (table.signature candidate).1 expanded place).substitute inferred
  canPass : ∀ (argument : Nat) (slot : ArgumentSlot) (target : TypeSymbol),
    slots[argument]? = some slot → applicable.targets[argument]? = some target →
      table.CanPass slot target
  parameters : applicable.parameters =
    (candidate.method.parameters.zip (table.signature candidate).1).map fun (parameter, type) =>
      ⟨parameter.name, type.substitute inferred, parameter.isParams, parameter.isOptional⟩
  returnType : applicable.returnType = (table.signature candidate).2.substitute inferred
  typeArguments : applicable.typeArguments.map some =
    candidate.method.typeParameters.map inferred.find?
  isExpanded : applicable.isExpanded = expanded.isSome
  isGeneric : applicable.isGeneric = true ↔ candidate.method.typeParameters ≠ []
  usesDefaults : applicable.usesDefaults = true ↔
    ∃ place < candidate.method.parameters.length, place ∉ places ∧ expanded ≠ some place

section

variable {slots : List ArgumentSlot} {explicit : List TypeSymbol} {candidate : MethodCandidate}
  {candidates : List MethodCandidate} {applicable : ApplicableMethod}

theorem isApplicable_of_applicableIn? {expanded : Option Nat}
    (form : MethodDecl.IsForm candidate.method.parameters expanded)
    (written : explicit = [] ∨ explicit.length = candidate.method.typeParameters.length)
    (found : table.applicableIn? candidate slots explicit expanded = some applicable) :
    ∃ places inferred,
      table.IsApplicable slots explicit candidate applicable expanded places inferred := by
  simp only [applicableIn?, MethodDecl.assign?, bind, Option.bind_eq_some_iff] at found
  rcases found with ⟨places, ⟨assigned, given, complete⟩, inferred, isInferred, found⟩
  split at complete <;> cases complete
  rename_i optional
  split at found <;> cases found
  rename_i converts
  have sameLength : places.length = slots.length := by
    simpa using MethodDecl.length_of_assignFrom? given
  have standsFor (name : String) (declared : name ∈ candidate.method.typeParameters) :=
    standsFor_of_callSubstitution? isInferred declared
  refine ⟨places, inferred, {
    form, written, standsFor
    length := sameLength
    goesTo := ?_
    once := (MethodDecl.nodup_of_assignFrom? given).1
    filled := ?_
    targets := by rw [List.map_map]; rfl
    canPass := ?_
    parameters := rfl
    returnType := rfl
    typeArguments := ?_
    isExpanded := rfl
    isGeneric := by simp
    usesDefaults := ?_ }⟩
  · intro argument place slot isSlot isPlace
    refine ⟨MethodDecl.lt_of_assignFrom? form given place (List.mem_of_getElem? isPlace), ?_⟩
    have goesTo := MethodDecl.goesTo_of_assignFrom? given argument place slot.label
      (by simp [isSlot]) isPlace
    rwa [Nat.zero_add] at goesTo
  · intro place parameter isAt notGiven
    by_cases isExpanded : expanded = some place
    · exact .inr isExpanded
    · exact .inl (List.all_eq_true.mp optional parameter
        (MethodDecl.mem_unassigned_iff.mpr ⟨place, isAt, notGiven, isExpanded⟩))
  · intro argument slot target isSlot isTarget
    refine canPass_of_slotConverts (List.all_eq_true.mp converts (slot, target) ?_)
    refine List.mem_of_getElem? (i := argument) ?_
    rw [List.getElem?_zip_eq_some]
    exact ⟨isSlot, isTarget⟩
  · rw [List.map_map]
    refine List.map_congr_left fun name declared => ?_
    rcases standsFor name declared with ⟨type, known, -⟩
    simp [known]
  · rw [Bool.not_eq_true', List.isEmpty_eq_false_iff_exists_mem]
    constructor
    · rintro ⟨parameter, isUnassigned⟩
      rcases MethodDecl.mem_unassigned_iff.mp isUnassigned with ⟨place, isAt, notGiven, isOther⟩
      exact ⟨place, (List.getElem?_eq_some_iff.mp isAt).1, notGiven, isOther⟩
    · rintro ⟨place, inside, notGiven, isOther⟩
      exact ⟨_, MethodDecl.mem_unassigned_iff.mpr
        ⟨place, List.getElem?_eq_getElem inside, notGiven, isOther⟩⟩

/-- A method that resolution takes for applicable is so in normal form or in expanded form. -/
theorem isApplicable_of_applicable?
    (found : table.applicable? slots explicit candidate = some applicable) :
    ∃ expanded places inferred,
      table.IsApplicable slots explicit candidate applicable expanded places inferred := by
  unfold applicable? at found
  split at found
  · cases found
  · rename_i lengths
    have written : explicit = [] ∨ explicit.length = candidate.method.typeParameters.length := by
      simpa [Classical.or_iff_not_imp_left] using lengths
    rw [Option.orElse_eq_orElse, Option.orElse_eq_or, Option.or_eq_some_iff] at found
    rcases found with normal | ⟨-, found⟩
    · exact ⟨none, isApplicable_of_applicableIn? (.inl rfl) written normal⟩
    · split at found
      · rename_i index isParams
        exact ⟨some index, isApplicable_of_applicableIn? (.inr isParams.symm) written found⟩
      · cases found

end

end TypeTable

namespace ApplicableMethod

variable {left middle right : ApplicableMethod}

theorem sameSignature_iff : left.sameSignature right = true ↔
    left.parameters.map (fun parameter => (parameter.type, parameter.isParams)) =
      right.parameters.map fun parameter => (parameter.type, parameter.isParams) :=
  beq_iff_eq

theorem sameSignature_self (method : ApplicableMethod) : method.sameSignature method = true :=
  sameSignature_iff.mpr rfl

theorem sameSignature_comm : left.sameSignature right = right.sameSignature left := by
  rw [Bool.eq_iff_iff, sameSignature_iff, sameSignature_iff, eq_comm]

theorem sameSignature_trans (first : left.sameSignature middle = true)
    (second : middle.sameSignature right = true) : left.sameSignature right = true :=
  sameSignature_iff.mpr ((sameSignature_iff.mp first).trans (sameSignature_iff.mp second))

end ApplicableMethod

namespace TypeTable

section

variable {table : TypeTable} {slots : List ArgumentSlot} {explicit : List TypeSymbol}
  {candidate : MethodCandidate} {candidates : List MethodCandidate}
  {entry other : MethodCandidate × ApplicableMethod}

/-- A candidate with how it is applicable stays: no candidate in front of it is applicable with the
same signature. -/
def Stays (table : TypeTable) (slots : List ArgumentSlot) (explicit : List TypeSymbol)
    (candidates : List MethodCandidate) (entry : MethodCandidate × ApplicableMethod) : Prop :=
  ∃ before after, candidates = before ++ entry.1 :: after ∧
    table.applicable? slots explicit entry.1 = some entry.2 ∧
    ∀ candidate ∈ before, ∀ found, table.applicable? slots explicit candidate = some found →
      found.sameSignature entry.2 = false

theorem applicableMethods_concat :
    table.applicableMethods slots explicit (candidates ++ [candidate]) =
      match table.applicable? slots explicit candidate with
      | none => table.applicableMethods slots explicit candidates
      | some found =>
        if (table.applicableMethods slots explicit candidates).any
          fun entry => entry.2.sameSignature found then
          table.applicableMethods slots explicit candidates
        else table.applicableMethods slots explicit candidates ++ [(candidate, found)] := by
  rw [applicableMethods, List.foldl_append]
  rfl

/-- One candidate more stays if it is applicable with a signature that none has so far. -/
theorem mem_applicableMethods_concat_iff :
    entry ∈ table.applicableMethods slots explicit (candidates ++ [candidate]) ↔
      entry ∈ table.applicableMethods slots explicit candidates ∨
        entry.1 = candidate ∧ table.applicable? slots explicit candidate = some entry.2 ∧
          ∀ kept ∈ table.applicableMethods slots explicit candidates,
            kept.2.sameSignature entry.2 = false := by
  rw [applicableMethods_concat]
  rcases entry with ⟨last, applicable⟩
  split
  · rename_i notApplicable
    simp [notApplicable]
  · rename_i found isFound
    split
    · rename_i known
      rcases List.any_eq_true.mp known with ⟨kept, member, same⟩
      refine ⟨.inl, ?_⟩
      rintro (earlier | ⟨-, isApplicable, isNew⟩)
      · exact earlier
      · cases isFound.symm.trans isApplicable
        simp [isNew kept member] at same
    · rename_i isNew
      simp only [List.mem_append, List.mem_singleton, Prod.mk.injEq, isFound, Option.some.injEq]
      refine or_congr_right ⟨?_, fun ⟨isLast, isApplicable, _⟩ => ⟨isLast, isApplicable.symm⟩⟩
      rintro ⟨isLast, rfl⟩
      exact ⟨isLast, rfl, by simpa using isNew⟩

/-- Each applicable candidate has the signature of one that is kept. -/
theorem exists_mem_applicableMethods {applicable : ApplicableMethod}
    (member : candidate ∈ candidates)
    (isApplicable : table.applicable? slots explicit candidate = some applicable) :
    ∃ entry ∈ table.applicableMethods slots explicit candidates,
      entry.2.sameSignature applicable = true := by
  induction candidates using List.reverseRecOn with
  | nil => simp at member
  | append_singleton candidates last ih =>
    by_cases known : ∃ entry ∈ table.applicableMethods slots explicit candidates,
        entry.2.sameSignature applicable = true
    · rcases known with ⟨entry, kept, same⟩
      exact ⟨entry, mem_applicableMethods_concat_iff.mpr (.inl kept), same⟩
    · have isLast : candidate = last := by
        rcases List.mem_append.mp member with before | now
        · exact absurd (ih before) known
        · exact List.mem_singleton.mp now
      subst isLast
      refine ⟨(candidate, applicable), ?_, applicable.sameSignature_self⟩
      exact mem_applicableMethods_concat_iff.mpr (.inr ⟨rfl, isApplicable, by simpa using known⟩)

/-- What stays of two lists is what stays of the first one and, of what stays of the second one,
that which has a signature of its own. -/
theorem stays_append_iff {later : List MethodCandidate} :
    table.Stays slots explicit (candidates ++ later) entry ↔
      table.Stays slots explicit candidates entry ∨
        table.Stays slots explicit later entry ∧
          ∀ earlier ∈ candidates, ∀ found, table.applicable? slots explicit earlier = some found →
            found.sameSignature entry.2 = false := by
  constructor
  · rintro ⟨before, after, split, isApplicable, isFirst⟩
    rcases List.append_eq_append_iff.mp split with ⟨inner, rfl, rfl⟩ | ⟨inner, rfl, tail⟩
    · refine .inr ⟨⟨inner, after, rfl, isApplicable, fun earlier member => ?_⟩,
        fun earlier member => ?_⟩
      · exact isFirst earlier (List.mem_append_right _ member)
      · exact isFirst earlier (List.mem_append_left _ member)
    · rcases List.cons_eq_append_iff.mp tail with ⟨rfl, rfl⟩ | ⟨inner, rfl, -⟩
      · rw [List.append_nil]
        exact .inr ⟨⟨[], after, rfl, isApplicable, by simp⟩, isFirst⟩
      · exact .inl ⟨before, inner, rfl, isApplicable, isFirst⟩
  · rintro (⟨before, after, rfl, isApplicable, isFirst⟩ |
      ⟨⟨before, after, rfl, isApplicable, isFirst⟩, isOwn⟩)
    · exact ⟨before, after ++ later, by simp, isApplicable, isFirst⟩
    · refine ⟨candidates ++ before, after, by simp, isApplicable, fun earlier member => ?_⟩
      rcases List.mem_append.mp member with isBefore | isBefore
      · exact isOwn earlier isBefore
      · exact isFirst earlier isBefore

theorem stays_singleton_iff : table.Stays slots explicit [candidate] entry ↔
    entry.1 = candidate ∧ table.applicable? slots explicit candidate = some entry.2 := by
  constructor
  · rintro ⟨before, after, split, isApplicable, -⟩
    rcases List.cons_eq_append_iff.mp split with ⟨rfl, same⟩ | ⟨inner, rfl, nothing⟩
    · cases same
      exact ⟨rfl, isApplicable⟩
    · simp at nothing
  · rintro ⟨rfl, isApplicable⟩
    exact ⟨[], [], rfl, isApplicable, by simp⟩

/-- What resolution keeps is what stays. -/
theorem mem_applicableMethods_iff :
    entry ∈ table.applicableMethods slots explicit candidates ↔
      table.Stays slots explicit candidates entry := by
  induction candidates using List.reverseRecOn with
  | nil => simp [applicableMethods, Stays]
  | append_singleton candidates last ih =>
    rw [mem_applicableMethods_concat_iff, stays_append_iff, stays_singleton_iff, ih, and_assoc]
    refine or_congr_right (and_congr_right fun _ => and_congr_right fun _ => ?_)
    constructor
    · intro isNew earlier member found isFound
      rcases exists_mem_applicableMethods member isFound with ⟨kept, isKept, same⟩
      refine Bool.eq_false_iff.mpr fun again => ?_
      have known := ApplicableMethod.sameSignature_trans same again
      simp [isNew kept isKept] at known
    · intro isNew kept isKept
      rcases applicable_of_mem_applicableMethods isKept with ⟨member, isApplicable⟩
      exact isNew kept.1 member kept.2 isApplicable

/-- No two methods that resolution keeps have the same signature. -/
theorem pairwise_applicableMethods (table : TypeTable) (slots : List ArgumentSlot)
    (explicit : List TypeSymbol) (candidates : List MethodCandidate) :
    (table.applicableMethods slots explicit candidates).Pairwise
      fun earlier later => earlier.2.sameSignature later.2 = false := by
  induction candidates using List.reverseRecOn with
  | nil => exact .nil
  | append_singleton candidates last ih =>
    rw [applicableMethods_concat]
    split
    · exact ih
    · split
      · exact ih
      · rename_i isNew
        refine List.pairwise_append.mpr ⟨ih, List.pairwise_singleton _ _, ?_⟩
        intro kept isKept added isAdded
        rw [List.mem_singleton.mp isAdded]
        exact Bool.eq_false_iff.mpr fun same => isNew (List.any_eq_true.mpr ⟨kept, isKept, same⟩)

/-- Only one method of a signature stays. -/
theorem Stays.eq_of_sameSignature (stays : table.Stays slots explicit candidates entry)
    (otherStays : table.Stays slots explicit candidates other)
    (same : entry.2.sameSignature other.2 = true) : entry = other := by
  by_contra differ
  have : Std.Symm fun left right : MethodCandidate × ApplicableMethod =>
      left.2.sameSignature right.2 = false :=
    ⟨fun _ _ => ApplicableMethod.sameSignature_comm.trans⟩
  have isOwn := (table.pairwise_applicableMethods slots explicit candidates).forall
    (mem_applicableMethods_iff.mpr stays) (mem_applicableMethods_iff.mpr otherStays) differ
  rw [same] at isOwn
  cases isOwn

theorem any_zip_swap (slots : List ArgumentSlot) (first second : List TypeSymbol)
    (test : ArgumentSlot → TypeSymbol → TypeSymbol → Bool) :
    (slots.zip (second.zip first)).any (fun (slot, left, right) => test slot left right) =
      (slots.zip (first.zip second)).any fun (slot, left, right) => test slot right left := by
  rw [← List.zip_swap first second, List.zip_map_right, List.any_map]
  rfl

/-- No method is better than one that is better than it. -/
theorem isBetter_asymm {left right : ApplicableMethod}
    (isBetter : table.isBetter slots left right = true) :
    table.isBetter slots right left = false := by
  simp only [TypeTable.isBetter,
    any_zip_swap slots left.targets right.targets fun slot first second =>
      table.betterTarget slot.type first second,
    any_zip_swap slots left.targets right.targets fun slot first second =>
      table.betterTarget slot.type second first] at isBetter ⊢
  grind

/-- A candidate that stays and is better than all others that stay. -/
structure Wins (table : TypeTable) (slots : List ArgumentSlot) (explicit : List TypeSymbol)
    (candidates : List MethodCandidate) (entry : MethodCandidate × ApplicableMethod) : Prop where
  stays : table.Stays slots explicit candidates entry
  isBetter : ∀ other, table.Stays slots explicit candidates other → other ≠ entry →
    table.isBetter slots entry.2 other.2 = true

/-- At most one candidate wins. -/
theorem Wins.eq (wins : table.Wins slots explicit candidates entry)
    (alsoWins : table.Wins slots explicit candidates other) : other = entry := by
  by_contra differ
  have forth := wins.isBetter other alsoWins.stays differ
  have back := alsoWins.isBetter entry wins.stays (Ne.symm differ)
  rw [isBetter_asymm forth] at back
  cases back

/-- What resolution finds wins. -/
theorem wins_of_best?
    (isBest : table.best? slots (table.applicableMethods slots explicit candidates) = some entry) :
    table.Wins slots explicit candidates entry := by
  refine ⟨mem_applicableMethods_iff.mp (mem_of_best? isBest), fun other stays differs => ?_⟩
  rcases Option.map_eq_some_iff.mp isBest with ⟨⟨found, index⟩, isFound, rfl⟩
  rcases List.getElem?_of_mem (mem_applicableMethods_iff.mpr stays) with ⟨place, isAt⟩
  have foundAt := List.mem_zipIdx_iff_getElem?.mp (List.mem_of_find?_eq_some isFound)
  have passes := List.find?_some isFound
  have isBetter := List.all_eq_true.mp passes (other, place)
    (List.mem_zipIdx_iff_getElem?.mpr isAt)
  rcases Bool.or_eq_true_iff.mp isBetter with samePlace | isBetter
  · cases eq_of_beq samePlace
    cases isAt.symm.trans foundAt
    exact absurd rfl differs
  · exact isBetter

/-- Resolution finds the winner, if there is one. -/
theorem best?_eq_some_iff :
    table.best? slots (table.applicableMethods slots explicit candidates) = some entry ↔
      table.Wins slots explicit candidates entry := by
  refine ⟨wins_of_best?, fun wins => ?_⟩
  -- the search does not come back with nothing, since the winner passes its test
  rcases List.getElem?_of_mem (mem_applicableMethods_iff.mpr wins.stays) with ⟨index, isAt⟩
  have distinct : (table.applicableMethods slots explicit candidates).Nodup :=
    (table.pairwise_applicableMethods slots explicit candidates).imp fun differ same => by
      rw [same, ApplicableMethod.sameSignature_self] at differ
      cases differ
  have found : (table.best? slots
      (table.applicableMethods slots explicit candidates)).isSome = true := by
    rw [best?, Option.isSome_map, List.find?_isSome]
    refine ⟨(entry, index), List.mem_zipIdx_iff_getElem?.mpr isAt, List.all_eq_true.mpr ?_⟩
    rintro ⟨other, place⟩ member
    have otherAt := List.mem_zipIdx_iff_getElem?.mp member
    by_cases same : other = entry
    · subst same
      have samePlace := (List.getElem?_inj (List.getElem?_eq_some_iff.mp otherAt).1 distinct).mp
        (otherAt.trans isAt.symm)
      simp [show place = index from samePlace]
    · have stays := mem_applicableMethods_iff.mp (List.mem_of_getElem? otherAt)
      simp [wins.isBetter other stays same]
  rcases Option.isSome_iff_exists.mp found with ⟨best, isBest⟩
  rw [isBest, wins.eq (wins_of_best? isBest)]

/-- A call resolves to the winner among several candidates. -/
theorem resolveAmong?_eq_some_iff {method : MethodSymbol} :
    table.resolveAmong? candidates slots explicit = some method ↔
      ∃ entry, table.Wins slots explicit candidates entry ∧
        methodSymbol entry.1 entry.2 = method := by
  simp only [resolveAmong?, Option.map_eq_some_iff, best?_eq_some_iff]

/-- What wins is applicable. -/
theorem Wins.isApplicable (wins : table.Wins slots explicit candidates entry) :
    entry.1 ∈ candidates ∧ ∃ expanded places inferred,
      table.IsApplicable slots explicit entry.1 entry.2 expanded places inferred := by
  rcases wins.stays with ⟨before, after, rfl, isApplicable, -⟩
  exact ⟨by simp, isApplicable_of_applicable? isApplicable⟩

end

/-- Extensions are asked only if no candidate is chosen. -/
theorem resolveOverload?_eq_some_iff {table : TypeTable} {group : MethodGroup}
    {slots : List ArgumentSlot} {method : MethodSymbol} :
    table.resolveOverload? group slots = some method ↔
      table.resolveAmong? group.candidates slots group.typeArguments = some method ∨
        table.resolveAmong? group.candidates slots group.typeArguments = none ∧
          ∃ receiver, group.receiver = some receiver ∧
            table.resolveAmong? group.extensions (⟨none, none, some receiver⟩ :: slots)
              group.typeArguments = some method := by
  rw [resolveOverload?, Option.orElse_eq_orElse, Option.orElse_eq_or, Option.or_eq_some_iff]
  cases group.receiver <;> simp

/-- No two methods are each better than the other. So a call resolves to a method exactly if one
candidate that stays is better than all others that stay, which no other one is, and then this
candidate is applicable; it is an extension only if the call resolves to no member. -/
theorem resolveOverload?_isSound (table : TypeTable) :
    (∀ slots left right, table.isBetter slots left right = true →
      table.isBetter slots right left = false) ∧
    (∀ candidates slots explicit method,
      table.resolveAmong? candidates slots explicit = some method ↔
        ∃ entry, table.Wins slots explicit candidates entry ∧
          methodSymbol entry.1 entry.2 = method) ∧
    (∀ candidates slots explicit entry, table.Wins slots explicit candidates entry →
      (entry.1 ∈ candidates ∧ ∃ expanded places inferred,
        table.IsApplicable slots explicit entry.1 entry.2 expanded places inferred) ∧
      ∀ other, table.Wins slots explicit candidates other → other = entry) ∧
    ∀ group slots method, table.resolveOverload? group slots = some method ↔
      table.resolveAmong? group.candidates slots group.typeArguments = some method ∨
        table.resolveAmong? group.candidates slots group.typeArguments = none ∧
          ∃ receiver, group.receiver = some receiver ∧
            table.resolveAmong? group.extensions (⟨none, none, some receiver⟩ :: slots)
              group.typeArguments = some method :=
  ⟨fun _ _ _ => isBetter_asymm,
    fun _ _ _ _ => resolveAmong?_eq_some_iff,
    fun _ _ _ _ wins => ⟨wins.isApplicable, fun _ => wins.eq⟩,
    fun _ _ _ => resolveOverload?_eq_some_iff⟩

/-- Three methods of one name, to all of which an integer can be passed. -/
def takingNumbers : ParsedDocument :=
  .ofSource "class Host { void Take(long x) { } void Take(int x) { } void Take(object x) { } }"
where
  candidates : List MethodCandidate :=
    (takingNumbers.table.memberOwners (takingNumbers.table.selfType ⟨.document, 0⟩)).flatMap
      (memberMethods · "Take")
  slots : List ArgumentSlot :=
    [.ofTyped (.literal ⟨.integer, "1"⟩ none) (takingNumbers.table.special .int32)]

/-- The method for integers wins, and no other one does. -/
theorem resolveOverload?_isSound_takingNumbers :
    ∃ entry, takingNumbers.table.Wins takingNumbers.slots [] takingNumbers.candidates entry ∧
      takingNumbers.table.resolveOverload? ⟨none, [], takingNumbers.candidates, []⟩
        takingNumbers.slots = some (methodSymbol entry.1 entry.2) ∧
      entry.2.parameters.map (·.type) = [takingNumbers.table.special .int32] ∧
      (∃ expanded places inferred, takingNumbers.table.IsApplicable takingNumbers.slots [] entry.1
        entry.2 expanded places inferred) ∧
      ∀ other, takingNumbers.table.Wins takingNumbers.slots [] takingNumbers.candidates other →
        other = entry := by
  have resolved : (takingNumbers.table.resolveAmong? takingNumbers.candidates takingNumbers.slots
      []).map (fun method => (method.isReducedExtension, method.parameters.map (·.type))) =
        some (false, [takingNumbers.table.special .int32]) := by
    decide +kernel
  rcases Option.map_eq_some_iff.mp resolved with ⟨method, isMethod, shape⟩
  rcases resolveOverload?_isSound takingNumbers.table with ⟨-, found, unique, overload⟩
  rcases (found _ _ _ _).mp isMethod with ⟨entry, wins, rfl⟩
  rcases unique _ _ _ _ wins with ⟨⟨-, isApplicable⟩, isOnly⟩
  refine ⟨entry, wins, (overload _ _ _).mpr (.inl isMethod), ?_, isApplicable, isOnly⟩
  rcases Prod.mk.inj shape with ⟨notReduced, types⟩
  simpa [methodSymbol, show entry.1.isReduced = false from notReduced] using types

end TypeTable

end AssertionLint
