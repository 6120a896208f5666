import AssertionLint.Proofs.Model.Outcome
import AssertionLint.Proofs.TypeTable.Supertypes
import Mathlib.Order.Filter.AtTopBot.Basic
import Mathlib.Order.Filter.Finite

/-!
# The steps of a conversion

Whether a reference converts to another type is asked again for the elements of arrays and for the
type arguments of covariant interfaces. Here one activation of the classification is written for
any monad, with its calls as parameters (`Callees.standard`), so it can be run with calls that are
recorded (`TypeTable.calls`) and with calls that are limited (`TypeTable.calleesWithin`).

A call is about a part of the destination. The source of a call is a part of some supertype of the
source, which may be larger than the source itself, so only the destination tells that the calls
end (`TypeTable.conversion_ends`).
-/

namespace AssertionLint

/-- What an activation of the classification leaves to others: the supertypes of a type, and the
conversion between two types without regard to declared operators. -/
structure Callees (m : Type → Type) where
  supertypes : TypeSymbol → m (List TypeSymbol)
  conversion : TypeSymbol → TypeSymbol → m Conversion

/-- The implicit conversions that the declaration of a type has. -/
def TypeTable.operatorsOf (table : TypeTable) (owner : TypeSymbol) :
    List (TypeSymbol × TypeSymbol) :=
  match table.idOf? owner with
  | none => []
  | some id =>
    let declared := ((table.decl? id).map (·.conversions)).getD []
    let resolved (written : TypeExpr) : TypeSymbol :=
      (table.resolve (table.memberScope id) written).substitute (table.substitution id owner)
    (declared.filter (·.isImplicit)).map fun conversion =>
      (resolved conversion.source, resolved conversion.target)

namespace Callees

variable {m : Type → Type} [Monad m] (callees : Callees m)

/-- Two types are the same, or a call tells that references of the first one convert to the second
one. -/
def isAs (source target : TypeSymbol) : m Bool :=
  if source = target then pure true
  else if source.isReferenceType then do
    return (← callees.conversion source target) == .implicitReference
  else pure false

/-- A supertype of the source is the destination, or it is an instance of the same covariant
interface with type arguments that are as those of the destination. -/
def leadsTo (destination supertype : TypeSymbol) : m Bool :=
  if supertype = destination then pure true
  else if supertype.isCovariant && supertype.sameDefinition destination then
    (supertype.typeArguments.zip destination.typeArguments).allM fun (source, target) =>
      callees.isAs source target
  else pure false

/-- References of a type convert to another type. -/
def byReference (source destination : TypeSymbol) : m Bool :=
  match source.elementType, destination.elementType with
  | some element, some target => callees.isAs element target
  | _, _ => do (← callees.supertypes source).anyM (callees.leadsTo destination)

/-- The conversion between two types without regard to declared operators. -/
def standard (source destination : TypeSymbol) : m Conversion :=
  if source.isUnknown || destination.isUnknown then pure .none
  else if source = destination then pure .identity
  else if source.kind = .null then
    pure (if destination.isReferenceType || destination.isNullableValueType then .nullLiteral
      else .none)
  else if source.special.widensTo destination.special then pure .implicitNumeric
  else if source.convertsToNullable destination then pure .implicitNullable
  else if source.isValueType || source.kind = .typeParameter then do
    return if (← callees.supertypes source).contains destination then .boxing else .none
  else if source.isReferenceType then do
    return if ← callees.byReference source destination then .implicitReference else .none
  else pure .none

/-- The implicit conversions that a type or one of its supertypes declares. -/
def operators (table : TypeTable) (type : TypeSymbol) : m (List (TypeSymbol × TypeSymbol)) := do
  return (← callees.supertypes type.underlying).flatMap table.operatorsOf

/-- A declared conversion has standard conversions before and behind it. -/
def userDefined (table : TypeTable) (source destination : TypeSymbol) : m Bool :=
  if source.isUnknown || destination.isUnknown || source.kind = .null then pure false
  else do
    let ofSource ← callees.operators table source
    let ofDestination ← callees.operators table destination
    (ofSource ++ ofDestination).anyM fun (first, last) => do
      if (← callees.conversion source first).exists then
        return (← callees.conversion last destination).exists
      else return false

/-- The conversion between two types. -/
def overall (table : TypeTable) (source destination : TypeSymbol) : m Conversion := do
  let standard ← callees.conversion source destination
  if standard.exists then return standard
  else return if ← callees.userDefined table source destination then .userDefined else .none

end Callees

/-- A way to say that computations give a value. It holds of results and goes through sequences of
steps. -/
structure Giving (m : Type → Type) [Monad m] where
  Gives : {α : Type} → m α → α → Prop
  pure : ∀ {α : Type} (result : α), Gives (Pure.pure result) result
  bind : ∀ {α β : Type} {first : m α} {next : α → m β} {middle : α} {result : β},
    Gives first middle → Gives (next middle) result → Gives (first >>= next) result

namespace Giving

/-- In every state with the invariant a computation has a result, and it keeps the invariant. -/
def ofInvariant {σ : Type} (invariant : σ → Prop) : Giving (StateM σ) where
  Gives computation answer := Yields invariant computation answer
  pure result := @Yields.pure _ _ invariant result
  bind first rest := Ensures.bind first fun _ same => same ▸ rest

theorem pure_eq_some {α : Type} (result : α) : (Pure.pure result : Option α) = some result := rfl

theorem bind_eq_some {α β : Type} {first : Option α} {next : α → Option β} {middle : α}
    {result : β} (starts : first = some middle) (rest : next middle = some result) :
    (first >>= next) = some result :=
  Option.bind_eq_some_iff.mpr ⟨middle, starts, rest⟩

/-- A computation that may run out of a budget does not. -/
def ofBudget : Giving Option where
  Gives computation answer := computation = some answer
  pure := @pure_eq_some
  bind := @bind_eq_some

variable {m : Type → Type} [Monad m] (giving : Giving m) {α : Type}

theorem ite {condition : Prop} [Decidable condition] {yes no : m α} {yes' no' : α}
    (whenTrue : condition → giving.Gives yes yes') (whenFalse : ¬condition → giving.Gives no no') :
    giving.Gives (if condition then yes else no) (if condition then yes' else no') := by
  split
  · exact whenTrue ‹_›
  · exact whenFalse ‹_›

theorem anyM {items : List α} {test : α → m Bool} {plain : α → Bool}
    (each : ∀ item ∈ items, giving.Gives (test item) (plain item)) :
    giving.Gives (items.anyM test) (items.any plain) := by
  induction items with
  | nil => exact giving.pure false
  | cons item items ih =>
    rcases List.forall_mem_cons.mp each with ⟨first, rest⟩
    rw [List.anyM, List.any_cons]
    refine giving.bind first ?_
    cases plain item with
    | false => exact ih rest
    | true => exact giving.pure true

theorem allM {items : List α} {test : α → m Bool} {plain : α → Bool}
    (each : ∀ item ∈ items, giving.Gives (test item) (plain item)) :
    giving.Gives (items.allM test) (items.all plain) := by
  induction items with
  | nil => exact giving.pure true
  | cons item items ih =>
    rcases List.forall_mem_cons.mp each with ⟨first, rest⟩
    rw [List.allM, List.all_cons]
    refine giving.bind first ?_
    cases plain item with
    | false => exact giving.pure false
    | true => exact ih rest

end Giving

namespace TypeTable

variable {table : TypeTable} {source destination : TypeSymbol}

/-- Only references of a type that is known to have such convert by reference. -/
theorem isReferenceType_of_valueConversion?
    (later : table.valueConversion? source destination = none) : source.isReferenceType = true := by
  unfold valueConversion? at later
  grind

theorem isUnknown_of_valueConversion? (later : table.valueConversion? source destination = none) :
    destination.isUnknown = false := by
  unfold valueConversion? at later
  grind

theorem valueConversion?_ne_implicitReference :
    table.valueConversion? source destination ≠ some .implicitReference := by
  unfold valueConversion?
  grind

theorem convertsByReference_eq (table : TypeTable) (source destination : TypeSymbol) :
    table.convertsByReference source destination =
      ((table.valueConversion? source destination).isNone &&
        match source.elementType, destination.elementType with
        | some element, some target => element = target || table.convertsByReference element target
        | _, _ =>
          (table.supertypes source).any fun supertype =>
            supertype = destination ||
              (supertype.isCovariant && supertype.sameDefinition destination &&
                table.argumentsConvert supertype.typeArguments destination.typeArguments)) := by
  cases destination
  exact convertsByReference.eq_def ..

theorem standardConversion_eq_implicitReference_iff :
    table.standardConversion source destination = .implicitReference ↔
      table.convertsByReference source destination = true := by
  unfold standardConversion
  split
  · rename_i conversion isValue
    have other : conversion ≠ .implicitReference := by
      rintro rfl
      exact valueConversion?_ne_implicitReference isValue
    rw [convertsByReference_eq, isValue]
    simp [other]
  · simp

theorem isReferenceType_of_convertsByReference
    (converts : table.convertsByReference source destination = true) :
    source.isReferenceType = true := by
  rw [convertsByReference_eq, Bool.and_eq_true, Option.isNone_iff_eq_none] at converts
  exact isReferenceType_of_valueConversion? converts.1

theorem argumentsConvert_eq_all (table : TypeTable) (sources targets : List TypeSymbol) :
    table.argumentsConvert sources targets =
      (sources.zip targets).all fun (source, target) =>
        source = target || table.convertsByReference source target := by
  induction targets generalizing sources with
  | nil => simp [argumentsConvert]
  | cons target targets ih =>
    cases sources with
    | nil => simp [argumentsConvert]
    | cons source sources => simp [argumentsConvert, ih]

theorem standardConversion_eq (table : TypeTable) (source destination : TypeSymbol) :
    table.standardConversion source destination =
      if source.isUnknown || destination.isUnknown then .none
      else if source = destination then .identity
      else if source.kind = .null then
        (if destination.isReferenceType || destination.isNullableValueType then .nullLiteral
          else .none)
      else if source.special.widensTo destination.special then .implicitNumeric
      else if source.convertsToNullable destination then .implicitNullable
      else if source.isValueType || source.kind = .typeParameter then
        (if (table.supertypes source).contains destination then .boxing else .none)
      else if source.isReferenceType then
        (if table.convertsByReference source destination then .implicitReference else .none)
      else .none := by
  unfold standardConversion valueConversion?
  grind

/-- The pairs of types that a conversion may be traced back to: the elements of two arrays, and
the type arguments of a supertype with those of the destination. -/
def partPairs (table : TypeTable) (source destination : TypeSymbol) :
    List (TypeSymbol × TypeSymbol) :=
  (match source.elementType, destination.elementType with
    | some element, some target => [(element, target)]
    | _, _ => []) ++
    (table.supertypes source).flatMap fun supertype =>
      supertype.typeArguments.zip destination.typeArguments

end TypeTable

namespace Callees

variable {m : Type → Type} [Monad m] {callees : Callees m} (giving : Giving m) {table : TypeTable}
  {source destination : TypeSymbol}

/-- Calls that tell the conversions of the table between two types. -/
def Answers (callees : Callees m) (giving : Giving m) (table : TypeTable)
    (call : TypeSymbol × TypeSymbol) : Prop :=
  giving.Gives (callees.conversion call.1 call.2) (table.standardConversion call.1 call.2)

theorem gives_isAs (answers : callees.Answers giving table (source, destination)) :
    giving.Gives (callees.isAs source destination)
      (source = destination || table.convertsByReference source destination) := by
  unfold isAs
  split
  · rename_i same
    simpa [same] using giving.pure true
  · rename_i different
    have sameAnswer : (table.standardConversion source destination == .implicitReference) =
        (source = destination || table.convertsByReference source destination) := by
      rw [Bool.eq_iff_iff]
      simp [different, TypeTable.standardConversion_eq_implicitReference_iff]
    rw [← sameAnswer]
    split
    · exact giving.bind answers (giving.pure _)
    · rename_i notReference
      have noConversion : table.standardConversion source destination ≠ .implicitReference := by
        rw [Ne, TypeTable.standardConversion_eq_implicitReference_iff]
        exact fun converts =>
          notReference (TypeTable.isReferenceType_of_convertsByReference converts)
      rw [beq_eq_false_iff_ne.mpr noConversion]
      exact giving.pure false

theorem gives_leadsTo {supertype : TypeSymbol}
    (answers : ∀ call ∈ supertype.typeArguments.zip destination.typeArguments,
      callees.Answers giving table call) :
    giving.Gives (callees.leadsTo destination supertype)
      (supertype = destination || (supertype.isCovariant && supertype.sameDefinition destination &&
        table.argumentsConvert supertype.typeArguments destination.typeArguments)) := by
  unfold leadsTo
  split
  · rename_i same
    simpa [same] using giving.pure true
  · rename_i different
    rw [decide_eq_false different, Bool.false_or]
    split
    · rename_i covariant
      rw [covariant, Bool.true_and, TypeTable.argumentsConvert_eq_all]
      exact giving.allM fun call isCall => gives_isAs giving (answers call isCall)
    · rename_i other
      rw [Bool.eq_false_of_not_eq_true other, Bool.false_and]
      exact giving.pure false

theorem gives_byReference (later : table.valueConversion? source destination = none)
    (searched : giving.Gives (callees.supertypes source) (table.supertypes source))
    (answers : ∀ call ∈ table.partPairs source destination, callees.Answers giving table call) :
    giving.Gives (callees.byReference source destination)
      (table.convertsByReference source destination) := by
  rw [TypeTable.convertsByReference_eq, later, Option.isNone_none, Bool.true_and]
  unfold byReference
  split
  · rename_i element target isElement isTarget
    exact gives_isAs giving (answers (element, target) (by
      simp [TypeTable.partPairs, isElement, isTarget]))
  · refine giving.bind searched (giving.anyM fun supertype member => ?_)
    refine gives_leadsTo giving fun call isCall => answers call (List.mem_append_right _ ?_)
    exact List.mem_flatMap.mpr ⟨supertype, member, isCall⟩

/-- One activation gives the conversion of the table if its calls do. -/
theorem gives_standard
    (searched : giving.Gives (callees.supertypes source) (table.supertypes source))
    (answers : ∀ call ∈ table.partPairs source destination, callees.Answers giving table call) :
    giving.Gives (callees.standard source destination)
      (table.standardConversion source destination) := by
  rw [TypeTable.standardConversion_eq, standard]
  refine giving.ite (fun known => giving.pure _) fun known => ?_
  refine giving.ite (fun _ => giving.pure _) fun different => ?_
  refine giving.ite (fun _ => giving.pure _) fun notNull => ?_
  refine giving.ite (fun _ => giving.pure _) fun narrow => ?_
  refine giving.ite (fun _ => giving.pure _) fun notNullable => ?_
  refine giving.ite (fun _ => giving.bind searched (giving.pure _)) fun notValue => ?_
  refine giving.ite (fun isReference => giving.bind ?_ (giving.pure _)) fun _ => giving.pure _
  refine gives_byReference giving ?_ searched answers
  simp [TypeTable.valueConversion?, *]

theorem gives_operators {type : TypeSymbol}
    (searched : giving.Gives (callees.supertypes type.underlying)
      (table.supertypes type.underlying)) :
    giving.Gives (callees.operators table type) (table.implicitOperators type) :=
  giving.bind searched (giving.pure _)

theorem gives_userDefined
    (ofSource : giving.Gives (callees.operators table source) (table.implicitOperators source))
    (ofDestination : giving.Gives (callees.operators table destination)
      (table.implicitOperators destination))
    (answers : ∀ operator ∈ table.implicitOperators source ++ table.implicitOperators destination,
      callees.Answers giving table (source, operator.1) ∧
        callees.Answers giving table (operator.2, destination)) :
    giving.Gives (callees.userDefined table source destination)
      (table.hasUserDefinedConversion source destination) := by
  unfold userDefined TypeTable.hasUserDefinedConversion
  split
  · rename_i excluded
    have no (declared : Bool) : (!source.isUnknown && !destination.isUnknown &&
        source.kind != .null && declared) = false := by
      grind
    rw [no]
    exact giving.pure false
  · rename_i included
    have yes (declared : Bool) : (!source.isUnknown && !destination.isUnknown &&
        source.kind != .null && declared) = declared := by
      grind
    rw [yes]
    refine giving.bind ofSource (giving.bind ofDestination (giving.anyM ?_))
    rintro ⟨first, last⟩ isOperator
    rcases answers _ isOperator with ⟨before, behind⟩
    refine giving.bind before ?_
    dsimp only
    split
    · rename_i converts
      rw [converts, Bool.true_and]
      exact giving.bind behind (giving.pure _)
    · rename_i fails
      rw [Bool.eq_false_of_not_eq_true fails, Bool.false_and]
      exact giving.pure false

theorem gives_overall (answers : callees.Answers giving table (source, destination))
    (declared : giving.Gives (callees.userDefined table source destination)
      (table.hasUserDefinedConversion source destination)) :
    giving.Gives (callees.overall table source destination)
      (table.conversion source destination) := by
  unfold overall TypeTable.conversion
  refine giving.bind answers ?_
  dsimp only
  split
  · exact giving.pure _
  · exact giving.bind declared (giving.pure _)

end Callees

namespace TypeSymbol

/-- A type is the element type or a type argument of another one. -/
def IsPartOf (part type : TypeSymbol) : Prop :=
  part ∈ type.typeArguments ∨ type.elementType = some part

theorem IsPartOf.sizeOf_lt {part type : TypeSymbol} (isPart : part.IsPartOf type) :
    sizeOf part < sizeOf type := by
  rcases type with ⟨name, container, kind, special, typeArguments, elementType, isRefLike⟩
  rcases isPart with isArgument | isElement
  · have smaller := List.sizeOf_lt_of_mem isArgument
    simp only [TypeSymbol.mk.sizeOf_spec] at smaller ⊢
    omega
  · subst isElement
    simp only [TypeSymbol.mk.sizeOf_spec, Option.some.sizeOf_spec]
    omega

end TypeSymbol

namespace TypeTable

variable {table : TypeTable} {source destination : TypeSymbol}

theorem isPartOf_of_mem_partPairs {call : TypeSymbol × TypeSymbol}
    (isCall : call ∈ table.partPairs source destination) : call.2.IsPartOf destination := by
  rcases List.mem_append.mp isCall with ofElements | ofArguments
  · split at ofElements
    · rename_i element target _ isTarget
      rw [List.mem_singleton.mp ofElements]
      exact .inr isTarget
    · cases ofElements
  · rcases List.mem_flatMap.mp ofArguments with ⟨supertype, _, isPair⟩
    exact .inl (List.of_mem_zip isPair).2

/-- The answers of the table, with a list of the calls that asked for conversions. -/
def recording (table : TypeTable) : Callees (StateM (List (TypeSymbol × TypeSymbol))) where
  supertypes type := pure (table.supertypes type)
  conversion source destination calls :=
    (table.standardConversion source destination, calls ++ [(source, destination)])

/-- The calls for other conversions that one activation of the classification makes, in their
order. -/
def calls (table : TypeTable) (source destination : TypeSymbol) :
    List (TypeSymbol × TypeSymbol) :=
  ((table.recording.standard source destination).run []).2

/-- What an activation calls is among the pairs that the conversion may be traced back to. -/
theorem mem_partPairs_of_mem_calls {call : TypeSymbol × TypeSymbol}
    (isCall : call ∈ table.calls source destination) :
    call ∈ table.partPairs source destination := by
  let inside (calls : List (TypeSymbol × TypeSymbol)) : Prop :=
    ∀ call ∈ calls, call ∈ table.partPairs source destination
  have kept : (Giving.ofInvariant inside).Gives (table.recording.standard source destination)
      (table.standardConversion source destination) := by
    refine Callees.gives_standard _ (Giving.pure _ _) fun call isPair calls before => ⟨rfl, ?_⟩
    exact List.forall_mem_append.mpr ⟨before, List.forall_mem_singleton.mpr isPair⟩
  exact (kept [] (by simp [inside])).2 call isCall

/-- The supertypes of a type, unless the search does not end in a number of steps. -/
def supertypesWithin (table : TypeTable) (budget : Nat) (symbol : TypeSymbol) :
    Option (List TypeSymbol) :=
  match table.searchNext^[budget] ⟨[], [symbol]⟩ with
  | ⟨found, []⟩ =>
    some (if symbol.kind = .interface && !found.contains table.object then
      found ++ [table.object] else found)
  | ⟨_, _ :: _⟩ => none

/-- Calls that take at most `budget` steps in each search, and that make calls inside calls at most
`budget` times. -/
def calleesWithin (table : TypeTable) : Nat → Callees Option
  | 0 => ⟨table.supertypesWithin 0, fun _ _ => none⟩
  | budget + 1 =>
    ⟨table.supertypesWithin (budget + 1), (table.calleesWithin budget).standard⟩

theorem supertypesWithin_eq (table : TypeTable) (symbol : TypeSymbol) :
    ∀ᶠ budget in Filter.atTop, table.supertypesWithin budget symbol =
      some (table.supertypes symbol) := by
  rcases table.exists_iterate_searchNext symbol with ⟨steps, ended⟩
  rw [Filter.eventually_atTop]
  refine ⟨steps, fun budget enough => ?_⟩
  rcases Nat.exists_eq_add_of_le' enough with ⟨more, rfl⟩
  have stays (found : List TypeSymbol) : table.searchNext ⟨found, []⟩ = ⟨found, []⟩ := rfl
  rw [supertypesWithin, Function.iterate_add_apply, ended, Function.iterate_fixed (stays _)]
  rfl

theorem supertypes_calleesWithin (budget : Nat) (symbol : TypeSymbol) :
    (table.calleesWithin budget).supertypes symbol = table.supertypesWithin budget symbol := by
  cases budget <;> rfl

theorem answers_calleesWithin_of_standard {call : TypeSymbol × TypeSymbol}
    (ends : ∀ᶠ budget in Filter.atTop, (table.calleesWithin budget).standard call.1 call.2 =
      some (table.standardConversion call.1 call.2)) :
    ∀ᶠ budget in Filter.atTop, (table.calleesWithin budget).Answers .ofBudget table call := by
  rcases Filter.eventually_atTop.mp ends with ⟨enough, inner⟩
  refine Filter.eventually_atTop.mpr ⟨enough + 1, fun budget more => ?_⟩
  rcases Nat.exists_eq_add_of_le' more with ⟨others, rfl⟩
  exact inner (others + enough) (Nat.le_add_left _ _)

/-- With a large enough budget the classification ends. The calls of an activation are for smaller
destinations, and they are finitely many, so one budget is enough for all of them. -/
theorem standard_calleesWithin (table : TypeTable) (source destination : TypeSymbol) :
    ∀ᶠ budget in Filter.atTop, (table.calleesWithin budget).standard source destination =
      some (table.standardConversion source destination) := by
  have answered : ∀ᶠ budget in Filter.atTop,
      ∀ call ∈ table.partPairs source destination,
        (table.calleesWithin budget).Answers .ofBudget table call := by
    refine (Filter.eventually_all_finite (List.finite_toSet _)).mpr fun call isCall => ?_
    have smaller := (isPartOf_of_mem_partPairs isCall).sizeOf_lt
    exact answers_calleesWithin_of_standard (standard_calleesWithin table call.1 call.2)
  filter_upwards [answered, table.supertypesWithin_eq source] with budget answered searched
  exact Callees.gives_standard .ofBudget (by rwa [supertypes_calleesWithin]) answered
termination_by sizeOf destination

theorem answers_calleesWithin (table : TypeTable) (call : TypeSymbol × TypeSymbol) :
    ∀ᶠ budget in Filter.atTop, (table.calleesWithin budget).Answers .ofBudget table call :=
  answers_calleesWithin_of_standard (table.standard_calleesWithin call.1 call.2)

theorem userDefined_calleesWithin (table : TypeTable) (source destination : TypeSymbol) :
    ∀ᶠ budget in Filter.atTop, (table.calleesWithin budget).userDefined table source destination =
      some (table.hasUserDefinedConversion source destination) := by
  let operators := table.implicitOperators source ++ table.implicitOperators destination
  have answered : ∀ᶠ budget in Filter.atTop, ∀ operator ∈ operators,
      (table.calleesWithin budget).Answers .ofBudget table (source, operator.1) ∧
        (table.calleesWithin budget).Answers .ofBudget table (operator.2, destination) := by
    refine (Filter.eventually_all_finite (List.finite_toSet _)).mpr fun operator _ => ?_
    exact (table.answers_calleesWithin _).and (table.answers_calleesWithin _)
  filter_upwards [answered, table.supertypesWithin_eq source.underlying,
    table.supertypesWithin_eq destination.underlying] with budget answered ofSource ofDestination
  rw [← supertypes_calleesWithin] at ofSource ofDestination
  exact Callees.gives_userDefined .ofBudget (Callees.gives_operators .ofBudget ofSource)
    (Callees.gives_operators .ofBudget ofDestination) answered

theorem overall_calleesWithin (table : TypeTable) (source destination : TypeSymbol) :
    ∀ᶠ budget in Filter.atTop, (table.calleesWithin budget).overall table source destination =
      some (table.conversion source destination) := by
  filter_upwards [table.answers_calleesWithin (source, destination),
    table.userDefined_calleesWithin source destination] with budget answered declared
  exact Callees.gives_overall .ofBudget answered declared

/-- What has been found stays in front. -/
theorem prefix_closure (table : TypeTable) (rounds : Nat) (seen round : List TypeSymbol) :
    seen <+: table.closure rounds seen round := by
  induction rounds generalizing seen round with
  | zero => exact List.prefix_rfl
  | succ rounds ih =>
    rcases round with _ | ⟨type, rest⟩
    · exact List.prefix_rfl
    · rcases table.exists_visit seen (type :: rest) with ⟨fresh, -, visited⟩
      rw [closure, visited]
      exact (List.prefix_append _ _).trans (ih _ _)

/-- The class of `expandingClass` over a type argument. -/
def nest (inner : TypeSymbol) : TypeSymbol :=
  { TypeSymbol.named "" "Nest" .class with typeArguments := [inner] }

/-- A sequence of elements. -/
def sequence (element : TypeSymbol) : TypeSymbol :=
  { TypeSymbol.named "System.Collections.Generic" "IEnumerable" .interface with
    typeArguments := [element] }

/-- The first type of the document is a class `Nest` with one type parameter. It is a sequence, and
the elements of an instance are larger instances. -/
structure IsExpanding (table : TypeTable) : Prop where
  found : table.find? "Nest" 1 = some ⟨.document, 0⟩
  written : ((table.decl? ⟨.document, 0⟩).map fun type =>
    (type.kind, table.resolveAll (table.memberScope ⟨.document, 0⟩) type.bases)) =
      some (.class, [sequence (nest (nest (.typeParameter "T")))])
  parameters : (table.memberScope ⟨.document, 0⟩).typeParameters = ["T"]
  object : table.object = .named "System" "Object" .class

namespace IsExpanding

variable (isExpanding : table.IsExpanding) (inner target : TypeSymbol)

theorem special_nest : (nest inner).special = .none := by
  simp [nest, TypeSymbol.named, TypeSymbol.qualify, SpecialType.ofFullName, SpecialType.table]

theorem fullName_nest : (nest inner).fullName = "Nest" := by
  simp [nest, TypeSymbol.named, TypeSymbol.fullName, TypeSymbol.qualify]

theorem nest_ne_sequence : nest inner ≠ sequence target := by
  simp [nest, sequence, TypeSymbol.named]

include isExpanding

theorem nest_ne_object : nest inner ≠ table.object := by
  rw [isExpanding.object]
  simp [nest, TypeSymbol.named]

theorem object_ne_sequence : table.object ≠ sequence target := by
  rw [isExpanding.object]
  simp [sequence, TypeSymbol.named]

theorem directSupertypes_nest :
    table.directSupertypes (nest inner) = [table.object, sequence (nest (nest inner))] := by
  have isDeclared : table.idOf? (nest inner) = some ⟨.document, 0⟩ := by
    rw [← isExpanding.found, ← fullName_nest inner]
    rfl
  rcases Option.map_eq_some_iff.mp isExpanding.written with ⟨type, isDecl, same⟩
  rw [Prod.mk.injEq] at same
  rcases same with ⟨isClass, bases⟩
  have substituted : table.declaredBases ⟨.document, 0⟩ type (nest inner) =
      [sequence (nest (nest inner))] := by
    rw [declaredBases, bases, substitution, isExpanding.parameters]
    rfl
  have isInterface : (sequence (nest (nest inner))).kind = .interface := rfl
  have kind : (nest inner).kind = .class := rfl
  unfold directSupertypes
  simp [kind, isDeclared, isDecl, isClass, substituted, special_nest, isInterface]

/-- The class and the type of all objects are found in front of the sequence. -/
theorem supertypes_nest :
    ∃ behind, table.supertypes (nest inner) =
      nest inner :: table.object :: sequence (nest (nest inner)) :: behind := by
  have first : table.visit [] [nest inner] =
      ([nest inner], [table.object, sequence (nest (nest inner))]) := by
    simp [visit, maxSupertypes, isExpanding.directSupertypes_nest]
  have second : ∃ next, table.visit [nest inner] [table.object, sequence (nest (nest inner))] =
      ([nest inner, table.object, sequence (nest (nest inner))], next) := by
    simp [visit, maxSupertypes, (isExpanding.nest_ne_object _).symm, (nest_ne_sequence _ _).symm,
      (isExpanding.object_ne_sequence _).symm]
  rcases second with ⟨next, second⟩
  have rounds : maxSupertypes = 126 + 1 + 1 := rfl
  rw [supertypes, if_neg (by simp [nest, TypeSymbol.named]), rounds, closure, first]
  dsimp only
  rw [closure, second]
  rcases table.prefix_closure 126 _ next with ⟨behind, found⟩
  exact ⟨behind, found.symm⟩

/-- The types in front of the sequence do not lead to another sequence. -/
theorem leadsTo_eq_false {supertype : TypeSymbol}
    (inFront : supertype = nest inner ∨ supertype = table.object) :
    table.recording.leadsTo (sequence target) supertype = pure false := by
  have differs : supertype ≠ sequence target ∧ supertype.isCovariant = false := by
    rcases inFront with rfl | rfl
    · refine ⟨nest_ne_sequence inner target, ?_⟩
      simp [TypeSymbol.isCovariant, fullName_nest]
    · refine ⟨isExpanding.object_ne_sequence target, ?_⟩
      rw [isExpanding.object]
      decide
  rw [Callees.leadsTo, if_neg differs.1, differs.2]
  rfl

omit isExpanding in
theorem standard_nest :
    table.recording.standard (nest inner) (sequence target) = (do
      return if ← table.recording.byReference (nest inner) (sequence target) then
        .implicitReference else .none) := by
  have known : (nest inner).isUnknown = false ∧ (sequence target).isUnknown = false := ⟨rfl, rfl⟩
  have kind : (nest inner).kind = .class := rfl
  have isReference : (nest inner).isReferenceType = true := rfl
  have narrow : (nest inner).special.widensTo (sequence target).special = false := by
    rw [special_nest]
    rfl
  have special : (sequence target).special = .none := by
    simp [sequence, TypeSymbol.named, TypeSymbol.qualify, SpecialType.ofFullName,
      SpecialType.table]
  have notNullable : (nest inner).convertsToNullable (sequence target) = false := by
    simp [TypeSymbol.convertsToNullable, TypeSymbol.underlying?, TypeSymbol.isNullableValueType,
      special]
  simp [Callees.standard, known, kind, isReference, narrow, notNullable, nest_ne_sequence,
    TypeSymbol.isValueType]

omit isExpanding in
/-- The sequence makes a call for its elements. -/
theorem leadsTo_sequence {target : TypeSymbol} (different : nest (nest inner) ≠ target)
    (calls : List (TypeSymbol × TypeSymbol)) :
    ∃ leads, table.recording.leadsTo (sequence target) (sequence (nest (nest inner))) calls =
      (leads, calls ++ [(nest (nest inner), target)]) := by
  have differs : sequence (nest (nest inner)) ≠ sequence target := by
    simpa [sequence] using different
  have covariant : (sequence (nest (nest inner))).isCovariant = true := by
    simp [sequence, TypeSymbol.isCovariant, TypeSymbol.named, TypeSymbol.fullName,
      TypeSymbol.qualify]
  have same : (sequence (nest (nest inner))).sameDefinition (sequence target) = true := by
    simp [TypeSymbol.sameDefinition, sequence, TypeSymbol.arity]
  have arguments (element : TypeSymbol) : (sequence element).typeArguments = [element] := rfl
  have isReference : (nest (nest inner)).isReferenceType = true := rfl
  rw [Callees.leadsTo, if_neg differs, if_pos (by rw [covariant, same]; rfl)]
  simp only [arguments, List.zip_cons_cons, List.zip_nil_right, List.allM, Callees.isAs,
    if_neg different, isReference, if_true]
  refine ⟨table.standardConversion (nest (nest inner)) target == .implicitReference, ?_⟩
  simp only [recording, bind, StateT.bind]
  cases table.standardConversion (nest (nest inner)) target == .implicitReference <;> rfl

/-- The search comes to the sequence, and what is asked behind it is added to the calls. -/
theorem mem_calls_nest {target : TypeSymbol} (different : nest (nest inner) ≠ target) :
    (nest (nest inner), target) ∈ table.calls (nest inner) (sequence target) := by
  let called (calls : List (TypeSymbol × TypeSymbol)) : Prop := (nest (nest inner), target) ∈ calls
  rcases isExpanding.supertypes_nest inner with ⟨behind, found⟩
  rcases @leadsTo_sequence table inner target different [] with ⟨leads, asked⟩
  have searched : table.recording.byReference (nest inner) (sequence target) =
      (do
        match ← table.recording.leadsTo (sequence target) (sequence (nest (nest inner))) with
        | true => return true
        | false => behind.anyM (table.recording.leadsTo (sequence target))) := by
    have elements : (nest inner).elementType = none := rfl
    have plain : table.recording.supertypes (nest inner) = pure (table.supertypes (nest inner)) :=
      rfl
    rw [Callees.byReference, elements, plain, pure_bind, found, List.anyM,
      isExpanding.leadsTo_eq_false inner target (.inl rfl), pure_bind, List.anyM,
      isExpanding.leadsTo_eq_false inner target (.inr rfl), pure_bind, List.anyM]
    rfl
  have rest : (Giving.ofInvariant called).Gives
      (behind.anyM (table.recording.leadsTo (sequence target))) _ :=
    Giving.anyM _ fun supertype _ => Callees.gives_leadsTo _ fun call _ =>
      show Yields called (table.recording.conversion call.1 call.2)
          (table.standardConversion call.1 call.2) from
        fun calls before => ⟨rfl, List.mem_append_left _ before⟩
  have kept : called ((table.recording.byReference (nest inner) (sequence target)).run []).2 := by
    rw [searched, StateT.run]
    simp only [bind, StateT.bind, asked]
    cases leads with
    | true => exact List.mem_singleton_self _
    | false => exact (rest _ (List.mem_singleton_self _)).2
  rw [calls, standard_nest]
  exact kept

/-- Calls lead to calls, as many as the destination has sequences around each other, and with each
of them the source grows. -/
theorem exists_chain (count : Nat) :
    ∃ chain : List (TypeSymbol × TypeSymbol), chain.length = count + 1 ∧
      chain.head? = some (nest inner, sequence^[count] table.object) ∧
      chain.IsChain fun call further =>
        further ∈ table.calls call.1 call.2 ∧ sizeOf call.1 < sizeOf further.1 := by
  induction count generalizing inner with
  | zero => exact ⟨[(nest inner, table.object)], rfl, rfl, .singleton _⟩
  | succ count ih =>
    rcases ih (nest inner) with ⟨chain, long, starts, isChain⟩
    refine ⟨(nest inner, sequence^[count + 1] table.object) :: chain, by simp [long], rfl, ?_⟩
    refine isChain.cons fun further isHead => ?_
    rw [starts, Option.mem_some_iff] at isHead
    subst isHead
    rw [Function.iterate_succ_apply']
    refine ⟨isExpanding.mem_calls_nest inner ?_, ?_⟩
    · cases count with
      | zero => exact isExpanding.nest_ne_object _
      | succ count =>
        rw [Function.iterate_succ_apply']
        exact nest_ne_sequence _ _
    · exact TypeSymbol.IsPartOf.sizeOf_lt (.inl (List.mem_singleton_self _))

end IsExpanding

/-- A document with such a class. -/
def expandingClass : String :=
  "class Nest<T> : System.Collections.Generic.IEnumerable<Nest<Nest<T>>> \x7b \x7d"

theorem isExpanding_expandingClass :
    (ParsedDocument.ofSource expandingClass).table.IsExpanding := by
  generalize tableIs : (ParsedDocument.ofSource expandingClass).table = table
  have evaluated : table.find? "Nest" 1 = some ⟨.document, 0⟩ ∧
      ((table.decl? ⟨.document, 0⟩).map fun type =>
        (type.kind, table.resolveAll (table.memberScope ⟨.document, 0⟩) type.bases)) =
          some (.class, [sequence (nest (nest (.typeParameter "T")))]) ∧
      (table.memberScope ⟨.document, 0⟩).typeParameters = ["T"] ∧
      table.object = .named "System" "Object" .class := by
    subst tableIs
    decide +kernel
  exact ⟨evaluated.1, evaluated.2.1, evaluated.2.2.1, evaluated.2.2.2⟩

/-- Whatever a table declares, the classification of conversions ends. Each call for another
conversion is for a part of the destination, which is smaller, and with a large enough limit on the
steps of searches and on calls inside calls, the conversion between two types, the one by declared
operators and the one without regard to them come to an end with the values that the table gives.
The sources of calls inside calls are not limited: in some documents they grow with each call. -/
theorem conversion_ends :
    (∀ (table : TypeTable) (source destination : TypeSymbol),
      (∀ call ∈ table.calls source destination,
        call.2.IsPartOf destination ∧ sizeOf call.2 < sizeOf destination) ∧
      ∃ enough, ∀ budget ≥ enough,
        (table.calleesWithin budget).standard source destination =
          some (table.standardConversion source destination) ∧
        (table.calleesWithin budget).userDefined table source destination =
          some (table.hasUserDefinedConversion source destination) ∧
        (table.calleesWithin budget).overall table source destination =
          some (table.conversion source destination)) ∧
    ∃ (document : String) (source : TypeSymbol), ∀ count,
      ∃ chain : List (TypeSymbol × TypeSymbol), chain.length = count + 1 ∧
        chain.head?.map (·.1) = some source ∧
        chain.IsChain fun call further =>
          further ∈ (ParsedDocument.ofSource document).table.calls call.1 call.2 ∧
            sizeOf call.1 < sizeOf further.1 := by
  refine ⟨fun table source destination => ⟨fun call isCall => ?_, ?_⟩, ?_⟩
  · have isPart := isPartOf_of_mem_partPairs (mem_partPairs_of_mem_calls isCall)
    exact ⟨isPart, isPart.sizeOf_lt⟩
  · exact Filter.eventually_atTop.mp ((table.standard_calleesWithin source destination).and
      ((table.userDefined_calleesWithin source destination).and
        (table.overall_calleesWithin source destination)))
  · let inner := (ParsedDocument.ofSource expandingClass).table.object
    refine ⟨expandingClass, nest inner, fun count => ?_⟩
    rcases isExpanding_expandingClass.exists_chain inner count with ⟨chain, long, starts, isChain⟩
    exact ⟨chain, long, by rw [starts]; rfl, isChain⟩

end TypeTable

end AssertionLint
