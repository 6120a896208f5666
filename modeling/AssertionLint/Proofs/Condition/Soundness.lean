import AssertionLint.CSharp.Expr.Build
import AssertionLint.Proofs.Condition.Interpretation
import Mathlib.Data.Nat.Basic

/-!
# The constraint for a condition asserts the same

A call that asserts a truth value passes exactly when the relation named by the recognized
constraint holds between the recognized operands, under every interpretation. Negations come in
four ways: from the method, from `Is.False`, from `!` in front of the condition and from `!=`. The
first three are folded into the flag of the condition by `asserts_of_ofCall?` and `isMet_peel`. Each
recognizer then has one lemma that ties its constraint to this flag, and these lemmas are put
together in `standsFor_of_recognize?`.
-/

namespace AssertionLint

universe u

variable {Value : Type u} [LinearOrder Value]

namespace Relation

/-- The order relation between an actual and an expected value. -/
def Between (relation : Relation) (actual expected : Value) : Prop :=
  match relation with
  | greaterThan => actual > expected
  | greaterThanOrEqualTo => actual ≥ expected
  | lessThan => actual < expected
  | lessThanOrEqualTo => actual ≤ expected

theorem between_negated (relation : Relation) (actual expected : Value) :
    relation.negated.Between actual expected ↔ ¬relation.Between actual expected := by
  cases relation <;> simp [negated, Between]

theorem between_swapped (relation : Relation) (actual expected : Value) :
    relation.swapped.Between actual expected ↔ relation.Between expected actual := by
  cases relation <;> simp [swapped, Between]

theorem operator?_of_ofOperator? (interpretation : Interpretation Value)
    {operator : BinaryOperator} {relation : Relation}
    (found : ofOperator? operator = some relation) :
    interpretation.operator? operator = some relation.Between := by
  cases operator <;> simp only [ofOperator?, Option.some.injEq, reduceCtorEq] at found <;>
    subst found <;> rfl

end Relation

namespace Interpretation

/-- A relation or its negation. -/
def negatedIf (isNegated : Bool) (relation : Value → Value → Prop) : Value → Value → Prop :=
  if isNegated then fun actual expected => ¬relation actual expected else relation

omit [LinearOrder Value] in
theorem negatedIf_iff (isNegated : Bool) (relation : Value → Value → Prop)
    (actual expected : Value) :
    negatedIf isNegated relation actual expected ↔
      (relation actual expected ↔ isNegated = false) := by
  cases isNegated <;> simp [negatedIf]

/-- The relation that a constraint for a condition stands for. -/
def ofConstraint (interpretation : Interpretation Value) :
    ConditionConstraint → Value → Value → Prop
  | .equalTo isNegated => negatedIf isNegated interpretation.equal
  | .ordered relation => relation.Between
  | .contain isNegated => negatedIf isNegated interpretation.contains
  | .startWith isNegated => negatedIf isNegated interpretation.startsWith
  | .endWith isNegated => negatedIf isNegated interpretation.endsWith

/-- The dotted name of a constraint names the relation that it stands for. -/
theorem constraint?_chain (interpretation : Interpretation Value)
    (constraint : ConditionConstraint) :
    interpretation.constraint? constraint.chain =
      some (interpretation.ofConstraint constraint) := by
  cases constraint with
  | ordered relation => cases relation <;> rfl
  | equalTo isNegated | contain isNegated | startWith isNegated | endWith isNegated =>
    cases isNegated <;> rfl

theorem holds_of_binary {interpretation : Interpretation Value} (model : SemanticModel Id)
    {operator : BinaryOperator} {relation : Value → Value → Prop} (left right : Expr)
    (span : Option Span) (reading : interpretation.operator? operator = some relation) :
    interpretation.Holds model (.binary operator left right span) ↔
      relation (interpretation.value left) (interpretation.value right) := by
  simp only [Holds, reading]

theorem holds_of_call {interpretation : Interpretation Value} {model : SemanticModel Id}
    {target : Expr} {list : ArgumentList} {span : Option Span} {method : MethodSymbol}
    {predicate : Value → Value → Prop} {left right : Expr}
    (resolved : model.resolveMethod (.invocation target list span) = some method)
    (reading : interpretation.predicate? method = some predicate)
    (operands : method.operands? target list = some (left, right)) :
    interpretation.Holds model (.invocation target list span) ↔
      predicate (interpretation.value left) (interpretation.value right) := by
  simp only [Holds, Id.run, resolved, ofCall?, reading, operands, Option.getD_some]

end Interpretation

namespace MethodSymbol

/-- A label can only exchange the two arguments of a call. -/
theorem inParameterOrder_cases (method : MethodSymbol) (first second : Argument) :
    method.inParameterOrder first second = (first.expression, second.expression) ∨
      method.inParameterOrder first second = (second.expression, first.expression) := by
  unfold inParameterOrder
  split
  · split
    · exact Or.inr rfl
    · exact Or.inl rfl
  · exact Or.inl rfl

theorem inParameterOrder_of_unlabelled (method : MethodSymbol) {first : Argument}
    (second : Argument) (unlabelled : first.name = none) :
    method.inParameterOrder first second = (first.expression, second.expression) := by
  simp [inParameterOrder, unlabelled]

end MethodSymbol

namespace Condition

/-- The relation of a constraint holds between its operands exactly when the condition is met. -/
def StandsFor (interpretation : Interpretation Value) (model : SemanticModel Id)
    (condition : Condition) (found : RecognizedCondition) : Prop :=
  condition.IsMet interpretation model ↔
    interpretation.ofConstraint found.constraint (interpretation.value found.actual)
      (interpretation.value found.expected)

theorem holds_of_equalsCall? {interpretation : Interpretation Value} {model : SemanticModel Id}
    {target : Expr} {list : ArgumentList} {span : Option Span} {method : MethodSymbol}
    {actual expected : Expr}
    (resolved : model.resolveMethod (.invocation target list span) = some method)
    (found : equalsCall? method target list = some (actual, expected)) :
    interpretation.Holds model (.invocation target list span) ↔
      interpretation.equal (interpretation.value actual) (interpretation.value expected) := by
  unfold equalsCall? at found
  split at found
  case isFalse => cases found
  case isTrue named =>
    have isEquals : method.name = "Equals" := by simpa using named
    split at found
    case h_1 argument isInstance arguments =>
      split at found
      case isFalse => cases found
      case isTrue =>
        have reading : interpretation.predicate? method = some interpretation.equal := by
          simp [Interpretation.predicate?, isEquals, isInstance]
        have operands : method.operands? target list = some (actual, expected) := by
          simpa [MethodSymbol.operands?, arguments] using found
        exact Interpretation.holds_of_call resolved reading operands
    case h_2 first second isStatic arguments =>
      dsimp only at found
      split at found
      case isFalse => cases found
      case isTrue qualified =>
        simp only [Option.some.injEq, Prod.mk.injEq] at found
        rcases found with ⟨rfl, rfl⟩
        have reading : interpretation.predicate? method = some interpretation.equal := by
          simp only [Bool.and_eq_true, Bool.or_eq_true, beq_iff_eq] at qualified
          simp [Interpretation.predicate?, isEquals, isStatic, qualified.2]
        have operands : method.operands? target list =
            some (method.inParameterOrder first second) := by
          simp [MethodSymbol.operands?, arguments]
        -- labels may exchange the two operands, and equality does not mind
        rcases method.inParameterOrder_cases first second with same | exchanged
        · rw [same] at operands
          exact Interpretation.holds_of_call resolved reading operands
        · rw [exchanged] at operands
          exact (Interpretation.holds_of_call resolved reading operands).trans
            ⟨interpretation.equal_symm, interpretation.equal_symm⟩
    case h_3 => cases found

theorem holds_of_equalityOperands? {interpretation : Interpretation Value}
    {model : SemanticModel Id} {expr actual expected : Expr} {isInverted : Bool}
    (found : equalityOperands? model expr = some (actual, expected, isInverted)) :
    interpretation.Holds model expr ↔
      (interpretation.equal (interpretation.value actual) (interpretation.value expected) ↔
        isInverted = false) := by
  unfold equalityOperands? at found
  split at found
  case h_1 left right span =>
    cases found
    rw [Interpretation.holds_of_binary model actual expected span rfl]
    simp
  case h_2 left right span =>
    cases found
    rw [Interpretation.holds_of_binary model actual expected span rfl]
    simp
  case h_3 target list span =>
    simp only [bind, pure] at found
    split at found
    · cases found
    · rename_i method resolved
      rcases Option.map_eq_some_iff.mp found with ⟨⟨left, right⟩, operands, same⟩
      simp only [Prod.mk.injEq] at same
      rcases same with ⟨rfl, rfl, rfl⟩
      rw [holds_of_equalsCall? resolved operands]
      simp
  case h_4 => cases found

theorem standsFor_of_asEquality? (interpretation : Interpretation Value)
    {model : SemanticModel Id} {condition : Condition} {found : RecognizedCondition}
    (recognized : asEquality? model condition = some found) :
    condition.StandsFor interpretation model found := by
  simp only [asEquality?, bind, pure] at recognized
  split at recognized
  · cases recognized
  · rename_i actual expected isInverted operands
    split at recognized
    · cases recognized
    · cases recognized
      simp only [StandsFor, IsMet, Interpretation.ofConstraint, Interpretation.negatedIf_iff]
      rw [holds_of_equalityOperands? operands]
      cases condition.isNegated <;> cases isInverted <;> simp

/-- Exchanging the operands together with the relation changes nothing. -/
theorem between_oriented (swap : Bool) (relation : Relation) (left right : Value) :
    (if swap then relation.swapped else relation).Between (if swap then right else left)
      (if swap then left else right) ↔ relation.Between left right := by
  cases swap
  · rfl
  · exact relation.between_swapped right left

theorem between_asserted (isNegated : Bool) (relation : Relation) (actual expected : Value) :
    (if isNegated then relation.negated else relation).Between actual expected ↔
      (relation.Between actual expected ↔ isNegated = false) := by
  cases isNegated
  · simp
  · simp [relation.between_negated]

theorem run_hasConstantLeft (model : SemanticModel Id) (left right : Expr) :
    Id.run (hasConstantLeft model left right) =
      (Id.run (model.isConstant left) && !Id.run (model.isConstant right)) := by
  simp only [hasConstantLeft, bind, pure, Id.run]
  cases model.isConstant left <;> rfl

/-- What a recognized comparison was read from. -/
theorem eq_of_asComparison? {model : SemanticModel Id} {condition : Condition}
    {found : RecognizedCondition} (recognized : asComparison? model condition = some found) :
    ∃ operator left right span relation,
      condition.expr = .binary operator left right span ∧
        Relation.ofOperator? operator = some relation ∧
        found =
          let swap := Id.run (model.isConstant left) && !Id.run (model.isConstant right)
          let oriented := if swap then relation.swapped else relation
          { rule := .comparison
            actual := if swap then right else left
            expected := if swap then left else right
            constraint :=
              .ordered (if condition.isNegated then oriented.negated else oriented)
            swapOperands := swap } := by
  unfold asComparison? at recognized
  split at recognized
  · rename_i operator left right span shape
    split at recognized
    · cases recognized
    · rename_i relation ordered
      simp only [bind, pure] at recognized
      split at recognized
      · cases recognized
      · cases recognized
        refine ⟨operator, left, right, span, relation, shape, ordered, ?_⟩
        rw [← run_hasConstantLeft model left right]
        rfl
  · cases recognized

theorem standsFor_of_asComparison? (interpretation : Interpretation Value)
    {model : SemanticModel Id} {condition : Condition} {found : RecognizedCondition}
    (recognized : asComparison? model condition = some found) :
    condition.StandsFor interpretation model found := by
  rcases eq_of_asComparison? recognized with
    ⟨operator, left, right, span, relation, shape, ordered, rfl⟩
  have reading := Relation.operator?_of_ofOperator? interpretation ordered
  simp only [StandsFor, IsMet, Interpretation.ofConstraint, shape]
  rw [Interpretation.holds_of_binary model left right span reading, between_asserted,
    apply_ite interpretation.value, apply_ite interpretation.value, between_oriented]

/-- The constraint for a string predicate stands for the relation that the method stands for. -/
theorem predicate?_of_stringPredicate? (interpretation : Interpretation Value)
    {method : MethodSymbol} {isNegated : Bool} {rule : ConditionRule}
    {constraint : ConditionConstraint}
    (found : stringPredicate? method.name isNegated = some (rule, constraint)) :
    ∃ predicate, interpretation.predicate? method = some predicate ∧
      interpretation.ofConstraint constraint = Interpretation.negatedIf isNegated predicate := by
  unfold stringPredicate? at found
  split at found
  case h_1 named | h_2 named | h_3 named =>
    cases found
    exact ⟨_, by simp only [Interpretation.predicate?, named], rfl⟩
  case h_4 => cases found

/-- A call of a predicate is met when the relation, or its negation, holds between the operands. -/
theorem isMet_iff_of_call (interpretation : Interpretation Value) {model : SemanticModel Id}
    {condition : Condition} {target : Expr} {list : ArgumentList} {span : Option Span}
    {method : MethodSymbol} {predicate : Value → Value → Prop} {actual expected : Expr}
    (shape : condition.expr = .invocation target list span)
    (resolved : model.resolveMethod condition.expr = some method)
    (reading : interpretation.predicate? method = some predicate)
    (operands : method.operands? target list = some (actual, expected)) :
    condition.IsMet interpretation model ↔
      Interpretation.negatedIf condition.isNegated predicate (interpretation.value actual)
        (interpretation.value expected) := by
  rw [shape] at resolved
  rw [IsMet, shape, Interpretation.holds_of_call resolved reading operands,
    Interpretation.negatedIf_iff]

theorem standsFor_of_asStringPredicate? (interpretation : Interpretation Value)
    {model : SemanticModel Id} {condition : Condition} {found : RecognizedCondition}
    (recognized : asStringPredicate? model condition = some found) :
    condition.StandsFor interpretation model found := by
  unfold asStringPredicate? at recognized
  split at recognized
  case h_2 => cases recognized
  case h_1 receiver member memberSpan list span shape =>
    simp only [bind, pure] at recognized
    split at recognized
    · cases recognized
    · rename_i method resolved
      split at recognized
      · cases recognized
      · split at recognized
        case h_2 => cases recognized
        case h_1 rule constraint argument predicate arguments =>
          cases recognized
          rcases predicate?_of_stringPredicate? interpretation predicate with
            ⟨relation, reading, stands⟩
          have operands : method.operands? (.memberAccess receiver member memberSpan) list =
              some (receiver, argument.expression) := by
            simp [MethodSymbol.operands?, arguments, Expr.asMemberAccess?]
          rw [StandsFor, isMet_iff_of_call interpretation shape resolved reading operands, stands]

/-- Receiver and item, or collection and item, are the operands of the call. -/
theorem operands?_of_membershipOperands? {model : SemanticModel Id} {method : MethodSymbol}
    {target : Expr} {list : ArgumentList} {actual expected : Expr}
    (unlabelled : list.arguments.any (·.name.isSome) = false)
    (found : membershipOperands? model method target list.arguments = some (actual, expected)) :
    method.operands? target list = some (actual, expected) := by
  unfold membershipOperands? at found
  split at found
  case h_1 item arguments =>
    simp only [MethodSymbol.operands?, arguments]
    split at found
    · exact found
    · simp only [bind, pure] at found
      split at found
      · exact found
      · cases found
  case h_2 collection item arguments =>
    have collection_unlabelled : collection.name = none := by
      simp only [arguments, List.any_cons, Bool.or_eq_false_iff] at unlabelled
      simpa using unlabelled.1
    simp only [MethodSymbol.operands?, arguments]
    rw [method.inParameterOrder_of_unlabelled item collection_unlabelled]
    split at found
    · exact found
    · cases found
  case h_3 => cases found

theorem standsFor_of_asMembership? (interpretation : Interpretation Value)
    {model : SemanticModel Id} {condition : Condition} {found : RecognizedCondition}
    (recognized : asMembership? model condition = some found) :
    condition.StandsFor interpretation model found := by
  unfold asMembership? at recognized
  split at recognized
  case h_2 => cases recognized
  case h_1 target list span shape =>
    simp only [bind, pure] at recognized
    split at recognized
    · cases recognized
    · rename_i method resolved
      split at recognized
      · cases recognized
      · rename_i accepted
        split at recognized
        · cases recognized
        · rename_i actual expected operands
          cases recognized
          simp only [Bool.or_eq_true, bne_iff_ne, ne_eq, not_or, Decidable.not_not,
            Bool.not_eq_true] at accepted
          have reading : interpretation.predicate? method = some interpretation.contains := by
            simp [Interpretation.predicate?, accepted.1]
          rw [StandsFor, isMet_iff_of_call interpretation shape resolved reading
            (operands?_of_membershipOperands? accepted.2 operands)]
          rfl

/-- What a recognizer finds was found by one of the four. -/
theorem recognize?_cases {model : SemanticModel Id} {condition : Condition}
    {found : RecognizedCondition} (recognized : condition.recognize? model = some found) :
    asEquality? model condition = some found ∨ asComparison? model condition = some found ∨
      asStringPredicate? model condition = some found ∨
      asMembership? model condition = some found := by
  simp only [recognize?, bind, pure] at recognized
  split at recognized
  · rename_i equality
    cases recognized
    exact Or.inl equality
  · split at recognized
    · rename_i comparison
      cases recognized
      exact Or.inr (Or.inl comparison)
    · split at recognized
      · rename_i predicate
        cases recognized
        exact Or.inr (Or.inr (Or.inl predicate))
      · exact Or.inr (Or.inr (Or.inr recognized))

theorem standsFor_of_recognize? (interpretation : Interpretation Value)
    {model : SemanticModel Id} {condition : Condition} {found : RecognizedCondition}
    (recognized : condition.recognize? model = some found) :
    condition.StandsFor interpretation model found := by
  rcases recognize?_cases recognized with equality | comparison | predicate | membership
  · exact standsFor_of_asEquality? interpretation equality
  · exact standsFor_of_asComparison? interpretation comparison
  · exact standsFor_of_asStringPredicate? interpretation predicate
  · exact standsFor_of_asMembership? interpretation membership

theorem rule_of_asEquality? {model : SemanticModel Id} {condition : Condition}
    {found : RecognizedCondition} (recognized : asEquality? model condition = some found) :
    found.rule = .equalConstraint := by
  simp only [asEquality?, bind, pure] at recognized
  split at recognized
  · cases recognized
  · split at recognized <;> cases recognized
    rfl

theorem rule_of_asStringPredicate? {model : SemanticModel Id} {condition : Condition}
    {found : RecognizedCondition} (recognized : asStringPredicate? model condition = some found) :
    found.rule ∈ [.stringContains, .stringStartsWith, .stringEndsWith] := by
  simp only [asStringPredicate?, stringPredicate?, bind, pure] at recognized
  split at recognized
  · split at recognized
    · cases recognized
    · split at recognized
      · cases recognized
      · split at recognized
        · rename_i predicate _
          cases recognized
          split at predicate <;> cases predicate <;> simp
        · cases recognized
  · cases recognized

theorem rule_of_asMembership? {model : SemanticModel Id} {condition : Condition}
    {found : RecognizedCondition} (recognized : asMembership? model condition = some found) :
    found.rule = .collectionContains := by
  simp only [asMembership?, bind, pure] at recognized
  split at recognized
  · split at recognized
    · cases recognized
    · split at recognized
      · cases recognized
      · split at recognized <;> cases recognized
        rfl
  · cases recognized

/-- Only the second recognizer reports a comparison. -/
theorem asComparison?_of_rule {model : SemanticModel Id} {condition : Condition}
    {found : RecognizedCondition} (recognized : condition.recognize? model = some found)
    (compares : found.rule = .comparison) : asComparison? model condition = some found := by
  rcases recognize?_cases recognized with equality | comparison | predicate | membership
  · have rule := rule_of_asEquality? equality
    simp [compares] at rule
  · exact comparison
  · have rule := rule_of_asStringPredicate? predicate
    simp [compares] at rule
  · have rule := rule_of_asMembership? membership
    simp [compares] at rule

/-- A constant on the left of a comparison changes sides unless the right side is one, too. -/
theorem isConstant_expected_of_actual {model : SemanticModel Id} {condition : Condition}
    {found : RecognizedCondition} (recognized : asComparison? model condition = some found)
    (constant : model.isConstant found.actual = true) :
    model.isConstant found.expected = true := by
  rcases eq_of_asComparison? recognized with ⟨operator, left, right, span, relation, -, -, rfl⟩
  cases leftConstant : Id.run (model.isConstant left) <;>
    cases rightConstant : Id.run (model.isConstant right) <;>
    simp_all [Id.run]

theorem isTruthConstraint_of_unparenthesized {model : SemanticModel Id} {expr : Expr}
    {demanded : Bool} (constraint : IsTruthConstraint model expr.unparenthesized demanded) :
    IsTruthConstraint model expr demanded := by
  fun_induction Expr.unparenthesized expr with
  | case1 inner span ih => exact .parenthesized span (ih constraint)
  | case2 => exact constraint

theorem isTruthConstraint_of_booleanConstraint? {model : SemanticModel Id} {expr : Expr}
    {demanded : Bool} (found : booleanConstraint? model expr = some demanded) :
    IsTruthConstraint model expr demanded := by
  apply isTruthConstraint_of_unparenthesized
  simp only [booleanConstraint?, bind, pure] at found
  cases shape : expr.unparenthesized with
  | memberAccess target member span =>
    simp only [shape, Expr.asMemberAccess?] at found
    split at found
    · rename_i property resolved
      split at found
      · rename_i holder
        split at found <;> cases found
        · exact .property true resolved (beq_iff_eq.mp holder) ‹_›
        · exact .property false resolved (beq_iff_eq.mp holder) ‹_›
      · cases found
    · cases found
  | _ => simp [shape, Expr.asMemberAccess?] at found

end Condition

/-- A constraint stands for one truth value only. -/
theorem IsTruthConstraint.unique {model : SemanticModel Id} {expr : Expr} {first second : Bool}
    (one : IsTruthConstraint model expr first) (other : IsTruthConstraint model expr second) :
    first = second := by
  induction one with
  | parenthesized span _ ih =>
    cases other with
    | parenthesized _ inner => exact ih inner
  | property first _ _ named =>
    cases other with
    | property second _ _ renamed =>
      rw [named] at renamed
      cases first <;> cases second <;> simp_all

namespace CallShape

/-- A call asserts one truth value of one expression only. -/
theorem Asserts.unique {model : SemanticModel Id} {shape : CallShape} {one other : Expr}
    {first second : Bool} (left : shape.Asserts model one first)
    (right : shape.Asserts model other second) : one = other ∧ first = second := by
  cases left with
  | alone method condition unconstrained =>
    cases right with
    | alone sameMethod sameCondition _ =>
      simp_all
    | constrained _ _ passed _ =>
      simp [unconstrained] at passed
  | constrained method condition passed truth =>
    cases right with
    | alone _ _ unconstrained =>
      simp [unconstrained] at passed
    | constrained sameMethod sameCondition samePassed sameTruth =>
      rw [passed, Option.some.injEq] at samePassed
      subst samePassed
      have required := truth.unique sameTruth
      simp_all

theorem demandedTruth?_of_mem {name : String} (listed : name ∈ Names.conditionMethods) :
    demandedTruth? name = some (!Names.negativeConditionMethods.contains name) := by
  simp only [Names.conditionMethods, List.mem_cons, List.not_mem_nil, or_false] at listed
  rcases listed with rfl | rfl | rfl | rfl | rfl <;> rfl

/-- A condition is read from a call that asserts something, and its flag before any `!` is counted
says that the condition should not hold. -/
theorem asserts_of_ofCall? {model : SemanticModel Id} {shape : CallShape} {condition : Condition}
    (extracted : Condition.ofCall? shape model = some condition) :
    ∃ asserted demanded, shape.Asserts model asserted demanded ∧
      condition = Condition.peel (!demanded) asserted := by
  simp only [Condition.ofCall?, bind, pure] at extracted
  split at extracted
  · rename_i listed
    have method := demandedTruth?_of_mem (List.contains_iff_mem.mp listed)
    split at extracted
    · cases extracted
    · rename_i subject passed
      split at extracted
      · rename_i unconstrained
        cases extracted
        exact ⟨_, _, .alone method passed unconstrained, by rw [Bool.not_not]⟩
      · rename_i constraint constrained
        split at extracted
        · cases extracted
        · rename_i required truth
          cases extracted
          refine ⟨_, _, .constrained method passed constrained
            (Condition.isTruthConstraint_of_booleanConstraint? truth), ?_⟩
          cases required <;> simp
  · cases extracted

/-- The assertion passes exactly when the relation named by the constraint holds between the
operands. In a comparison a constant is left on the actual side only beside another one. -/
theorem passes_iff_recognized_relation (interpretation : Interpretation Value)
    {model : SemanticModel Id} {shape : CallShape} {condition : Condition}
    {found : RecognizedCondition} (extracted : Condition.ofCall? shape model = some condition)
    (recognized : condition.recognize? model = some found) :
    (∃ asserted demanded, shape.Asserts model asserted demanded) ∧
      (∃ relation, interpretation.constraint? found.constraint.chain = some relation ∧
        ∀ asserted demanded, shape.Asserts model asserted demanded →
          ((interpretation.Holds model asserted ↔ demanded = true) ↔
            relation (interpretation.value found.actual) (interpretation.value found.expected))) ∧
      (found.rule = .comparison →
        model.isConstant found.actual = true → model.isConstant found.expected = true) := by
  rcases asserts_of_ofCall? extracted with ⟨asserted, demanded, asserts, rfl⟩
  refine ⟨⟨asserted, demanded, asserts⟩, ⟨_, interpretation.constraint?_chain found.constraint,
    ?_⟩, ?_⟩
  · intro other required otherwise
    rcases asserts.unique otherwise with ⟨rfl, rfl⟩
    have stands := Condition.standsFor_of_recognize? interpretation recognized
    rw [Condition.StandsFor, Condition.isMet_peel, Bool.not_eq_false'] at stands
    exact stands
  · intro compares constant
    have comparison := Condition.asComparison?_of_rule recognized compares
    exact Condition.isConstant_expected_of_actual comparison constant

/-- `Assert.That(!(9 > x), Is.False)`. -/
def negatedComparison : CallShape where
  span := ⟨0, 33⟩
  target := Expr.dotted ["Assert", "That"]
  method :=
    { name := "That"
      containingType := .empty
      parameters := []
      returnType := .empty
      typeArguments := []
      isStatic := true
      isExtension := false
      isReducedExtension := false }
  assigned :=
    [⟨⟨"actual", .empty, false, false⟩,
        .ofExpr (.unary .logicalNot
          (.parenthesized
            (.binary .greaterThan (.literal ⟨.integer, "9"⟩ none) (.identifier "x") none) none)
          none)⟩,
      ⟨⟨"expression", .empty, false, false⟩, .ofExpr (Expr.dotted ["Is", "False"])⟩]

end CallShape

/-- A model that knows the properties of `Is` and nothing else. -/
def SemanticModel.ofTruthConstraints : SemanticModel Id where
  resolveMethod _ := none
  symbolInfo
    | .memberAccess (.name holder _) member _ =>
      if holder.identifier = "Is" then
        some (.property
          { name := member.identifier
            containingType := { TypeSymbol.empty with name := "Is", container := "NUnit.Framework" }
            type := .empty
            isStatic := true })
      else
        none
    | _ => none
  typeOf _ := none
  classifyConversion _ _ := .none
  isDerivedFrom _ _ := false

/-- Literals are nine and all other expressions are five. -/
def Interpretation.nineOrFive : Interpretation Nat where
  value
    | .literal .. => 9
    | _ => 5
  equal := (· = ·)
  equal_symm := Eq.symm
  contains _ _ := False
  startsWith _ _ := False
  endsWith _ _ := False
  other _ := False

/-- Two negations cancel out and the constant changes sides: `Assert.That(!(9 > x), Is.False)`
asserts that `x` is less than nine. -/
theorem passes_negatedComparison :
    ∃ condition found,
      Condition.ofCall? .negatedComparison .ofTruthConstraints = some condition ∧
      condition.recognize? .ofTruthConstraints = some found ∧
      found.constraint.chain = ["Is", "LessThan"] ∧
      (∃ asserted demanded,
        CallShape.negatedComparison.Asserts .ofTruthConstraints asserted demanded) ∧
      (∃ relation, Interpretation.nineOrFive.constraint? found.constraint.chain = some relation ∧
        ∀ asserted demanded,
          CallShape.negatedComparison.Asserts .ofTruthConstraints asserted demanded →
          ((Interpretation.nineOrFive.Holds .ofTruthConstraints asserted ↔ demanded = true) ↔
            relation (Interpretation.nineOrFive.value found.actual)
              (Interpretation.nineOrFive.value found.expected))) ∧
      (found.rule = .comparison →
        SemanticModel.ofTruthConstraints.isConstant found.actual = true →
          SemanticModel.ofTruthConstraints.isConstant found.expected = true) :=
  ⟨_, _, rfl, rfl, rfl,
    CallShape.passes_iff_recognized_relation .nineOrFive rfl rfl⟩

end AssertionLint
