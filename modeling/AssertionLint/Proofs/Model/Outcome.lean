import AssertionLint.SemanticModel

/-!
# Models that remember

A semantic model may remember what it has found out, so a question is a step that starts in one
state and ends in another. `Ensures` says what all answers of such a step have in common, and
`Yields` that a step answers like the same step over a model without memory. Both go through
sequences of steps, so they are proved of a program by following its text.

A model that remembers answers like a reference model without memory (`SemanticModel.Answers`) if
each question yields the answer of the reference in all states that it can get into.
-/

namespace AssertionLint

variable {σ α β : Type}

/-- From a state with the invariant, a computation gives a result with the property and ends in a
state with the invariant. -/
def Ensures (invariant : σ → Prop) (property : α → Prop) (computation : StateM σ α) : Prop :=
  ∀ state, invariant state →
    property (computation.run state).1 ∧ invariant (computation.run state).2

/-- A computation gives the result of another one that uses no state. -/
def Yields (invariant : σ → Prop) (computation : StateM σ α) (answer : Id α) : Prop :=
  Ensures invariant (· = Id.run answer) computation

namespace Ensures

variable {invariant : σ → Prop} {property : α → Prop} {other : β → Prop}

theorem pure {result : α} (holds : property result) :
    Ensures invariant property (Pure.pure result) :=
  fun _ inside => ⟨holds, inside⟩

theorem bind {first : StateM σ α} {next : α → StateM σ β} (start : Ensures invariant property first)
    (rest : ∀ result, property result → Ensures invariant other (next result)) :
    Ensures invariant other (first >>= next) := by
  intro state inside
  rcases start state inside with ⟨holds, kept⟩
  exact rest _ holds _ kept

theorem weaken {stronger : α → Prop} {computation : StateM σ α}
    (ensured : Ensures invariant stronger computation)
    (implies : ∀ result, stronger result → property result) :
    Ensures invariant property computation :=
  fun state inside => ⟨implies _ (ensured state inside).1, (ensured state inside).2⟩

/-- Of a question nothing needs to be known but that it can be asked. -/
theorem always (computation : StateM σ α) : Ensures (fun _ => True) (fun _ => True) computation :=
  fun _ _ => ⟨trivial, trivial⟩

end Ensures

namespace Yields

variable {invariant : σ → Prop}

theorem pure (result : α) : Yields invariant (Pure.pure result) (Pure.pure result) :=
  Ensures.pure rfl

theorem bind {first : StateM σ α} {answer : Id α} {next : α → StateM σ β} {rest : α → Id β}
    (start : Yields invariant first answer)
    (step : ∀ result, Yields invariant (next result) (rest result)) :
    Yields invariant (first >>= next) (answer >>= rest) :=
  Ensures.bind start fun result same => same ▸ step result

theorem ite {condition : Prop} [Decidable condition] {yes no : StateM σ α} {yes' no' : Id α}
    (whenTrue : Yields invariant yes yes') (whenFalse : Yields invariant no no') :
    Yields invariant (if condition then yes else no) (if condition then yes' else no') := by
  split
  · exact whenTrue
  · exact whenFalse

theorem eq_run {computation : StateM σ α} {answer : Id α}
    (yields : Yields invariant computation answer) {state : σ} (inside : invariant state) :
    (computation.run state).1 = Id.run answer :=
  (yields state inside).1

end Yields

/-- A model that remembers gives the answers of a model without memory in every state with the
invariant, and keeps the invariant. -/
structure SemanticModel.Answers (model : SemanticModel (StateM σ)) (reference : SemanticModel Id)
    (invariant : σ → Prop) : Prop where
  resolveMethod : ∀ expr, Yields invariant (model.resolveMethod expr) (reference.resolveMethod expr)
  symbolInfo : ∀ expr, Yields invariant (model.symbolInfo expr) (reference.symbolInfo expr)
  typeOf : ∀ expr, Yields invariant (model.typeOf expr) (reference.typeOf expr)
  classifyConversion : ∀ expr type, Yields invariant (model.classifyConversion expr type)
    (reference.classifyConversion expr type)
  isDerivedFrom : ∀ type fullName, Yields invariant (model.isDerivedFrom type fullName)
    (reference.isDerivedFrom type fullName)

/-- The answers of a model without memory, given by one that counts the questions. -/
def SemanticModel.counting (reference : SemanticModel Id) : SemanticModel (StateM Nat) where
  resolveMethod expr asked := (reference.resolveMethod expr, asked + 1)
  symbolInfo expr asked := (reference.symbolInfo expr, asked + 1)
  typeOf expr asked := (reference.typeOf expr, asked + 1)
  classifyConversion expr type asked := (reference.classifyConversion expr type, asked + 1)
  isDerivedFrom type fullName asked := (reference.isDerivedFrom type fullName, asked + 1)

theorem SemanticModel.answers_counting (reference : SemanticModel Id) :
    reference.counting.Answers reference fun _ => True where
  resolveMethod _ _ _ := ⟨rfl, trivial⟩
  symbolInfo _ _ _ := ⟨rfl, trivial⟩
  typeOf _ _ _ := ⟨rfl, trivial⟩
  classifyConversion _ _ _ _ := ⟨rfl, trivial⟩
  isDerivedFrom _ _ _ _ := ⟨rfl, trivial⟩

/-- A model that takes each call of a member for a call of the assertion method of the same name on
a condition, and knows nothing else. -/
def SemanticModel.ofMemberNames : SemanticModel Id where
  resolveMethod
    | .invocation (.memberAccess _ member _) _ _ =>
      some
        { name := member.identifier
          containingType :=
            { TypeSymbol.empty with name := "Assert", container := "NUnit.Framework" }
          parameters := [⟨"condition", .empty, false, false⟩]
          returnType := .empty
          typeArguments := []
          isStatic := true
          isExtension := false
          isReducedExtension := false }
    | _ => none
  symbolInfo _ := none
  typeOf _ := none
  classifyConversion _ _ := .identity
  isDerivedFrom _ _ := false

/-- The model takes a call for a method with the name that the call ends with. -/
def SemanticModel.ResolvesByName (model : SemanticModel Id) : Prop :=
  ∀ call method, call.isInvocation = true → Id.run (model.resolveMethod call) = some method →
    call.trailingName?.map (·.identifier) = some method.name

theorem SemanticModel.resolvesByName_ofMemberNames : ofMemberNames.ResolvesByName := by
  intro call method isCall resolved
  simp only [ofMemberNames, Id.run] at resolved
  split at resolved <;> cases resolved
  rfl

end AssertionLint
