import AssertionLint.Proofs.Analysis.Order
import Mathlib.Data.List.Nodup

/-!
# Configured analysis

The settings of a rule decide whether its diagnostics are reported and how severe they are, but
they take no part in finding them. So the diagnostics under a configuration follow from those under
the default one, diagnostic by diagnostic, and the diagnostics of one kind depend on no entry for
another kind (`Configuration.analyze_eq_map_analyze_default`).
-/

namespace AssertionLint

theorem Observation.enabledByDefault_descriptor (observation : Observation) :
    observation.descriptor.enabledByDefault = true := by
  cases observation with
  | classic rule | condition rule => cases rule <;> rfl
  | nullConstraint => rfl
  | sameAsOnValueType => rfl
  | formatString => rfl

namespace Configuration

/-- No two entries are for the same rule. -/
def HasDistinctRules (configuration : Configuration) : Prop :=
  (configuration.rules.map fun entry => Text.lowered entry.1).Nodup

/-- A kind of diagnostic is reported with a severity: its default severity, or the one that an entry
for its id sets. -/
inductive Reports (configuration : Configuration) (descriptor : Descriptor) : Severity → Prop
  | unset
      (absent : ∀ entry ∈ configuration.rules,
        Text.sameIgnoringCase entry.1 descriptor.id = false)
      (byDefault : descriptor.enabledByDefault = true) :
      Reports configuration descriptor descriptor.defaultSeverity
  | unchanged {key : String} {settings : RuleSettings}
      (entry : (key, settings) ∈ configuration.rules)
      (isForId : Text.sameIgnoringCase key descriptor.id = true)
      (enabled : settings.enabled = true) (unsaid : settings.severity = none)
      (byDefault : descriptor.enabledByDefault = true) :
      Reports configuration descriptor descriptor.defaultSeverity
  | changed {key : String} {settings : RuleSettings} {override : SeverityOverride}
      {severity : Severity} (entry : (key, settings) ∈ configuration.rules)
      (isForId : Text.sameIgnoringCase key descriptor.id = true)
      (enabled : settings.enabled = true) (said : settings.severity = some override)
      (sets : override.severity? = some severity) :
      Reports configuration descriptor severity

/-- The diagnostic with the severity that its kind is given, unless its kind is turned off. -/
def reconfigured? (configuration : Configuration) (diagnostic : Diagnostic) : Option Diagnostic :=
  (configuration.effectiveSeverity? diagnostic.observation.descriptor).map fun severity =>
    { diagnostic with severity }

variable {configuration : Configuration}

theorem rule?_eq_none_iff {id : String} : configuration.rule? id = none ↔
    ∀ entry ∈ configuration.rules, Text.sameIgnoringCase entry.1 id = false := by
  simp only [rule?, Option.map_eq_none_iff, List.find?_eq_none, Bool.not_eq_true]

theorem HasDistinctRules.rule?_eq_some_iff (distinct : configuration.HasDistinctRules)
    {id : String} {settings : RuleSettings} : configuration.rule? id = some settings ↔
      ∃ key, (key, settings) ∈ configuration.rules ∧ Text.sameIgnoringCase key id = true := by
  have ofFound {settings : RuleSettings} (found : configuration.rule? id = some settings) :
      ∃ key, (key, settings) ∈ configuration.rules ∧ Text.sameIgnoringCase key id = true := by
    rcases Option.map_eq_some_iff.mp found with ⟨entry, first, rfl⟩
    have isForId := List.find?_some first
    exact ⟨entry.1, List.mem_of_find?_eq_some first, isForId⟩
  refine ⟨ofFound, ?_⟩
  rintro ⟨key, entry, isForId⟩
  cases found : configuration.rule? id with
  | none => simp [rule?_eq_none_iff.mp found _ entry] at isForId
  | some other =>
    rcases ofFound found with ⟨otherKey, otherEntry, otherIsForId⟩
    have same := List.inj_on_of_nodup_map distinct otherEntry entry
      ((beq_iff_eq.mp otherIsForId).trans (beq_iff_eq.mp isForId).symm)
    cases same
    rfl

theorem HasDistinctRules.effectiveSeverity?_eq_some_iff (distinct : configuration.HasDistinctRules)
    {descriptor : Descriptor} {severity : Severity} :
    configuration.effectiveSeverity? descriptor = some severity ↔
      configuration.Reports descriptor severity := by
  constructor
  · intro effective
    unfold effectiveSeverity? at effective
    dsimp only at effective
    split at effective
    next none =>
      rcases Option.ite_none_right_eq_some.mp effective with ⟨byDefault, same⟩
      cases same
      exact .unset (rule?_eq_none_iff.mp none) byDefault
    next settings found =>
      rcases distinct.rule?_eq_some_iff.mp found with ⟨key, entry, isForId⟩
      rcases Option.ite_none_right_eq_some.mp effective with ⟨enabled, effective⟩
      split at effective
      next override said => exact .changed entry isForId enabled said effective
      next unsaid =>
        rcases Option.ite_none_right_eq_some.mp effective with ⟨byDefault, same⟩
        cases same
        exact .unchanged entry isForId enabled unsaid byDefault
  · rintro (⟨absent, byDefault⟩ | ⟨entry, isForId, enabled, unsaid, byDefault⟩ |
      ⟨entry, isForId, enabled, said, sets⟩)
    · simp only [effectiveSeverity?, rule?_eq_none_iff.mpr absent, byDefault, if_true]
    · simp only [effectiveSeverity?, distinct.rule?_eq_some_iff.mpr ⟨_, entry, isForId⟩, enabled,
        unsaid, byDefault, if_true]
    · simp only [effectiveSeverity?, distinct.rule?_eq_some_iff.mpr ⟨_, entry, isForId⟩, enabled,
        said, sets, if_true]

theorem effectiveSeverity?_default (observation : Observation) :
    ({} : Configuration).effectiveSeverity? observation.descriptor =
      some observation.descriptor.defaultSeverity := by
  simp [effectiveSeverity?, rule?, observation.enabledByDefault_descriptor]

theorem report?_eq_bind_report?_default (configuration : Configuration) (finding : Finding) :
    configuration.report? finding =
      (({} : Configuration).report? finding).bind configuration.reconfigured? := by
  rw [report?, report?, effectiveSeverity?_default]
  rfl

theorem keeps_of_reconfigured? {diagnostic changed : Diagnostic}
    (reconfigured : configuration.reconfigured? diagnostic = some changed) :
    changed.span = diagnostic.span ∧ changed.id = diagnostic.id := by
  rcases Option.map_eq_some_iff.mp reconfigured with ⟨severity, -, rfl⟩
  exact ⟨rfl, rfl⟩

theorem rule?_eq_of_same_entries {other : Configuration} {id : String}
    (distinct : configuration.HasDistinctRules) (otherDistinct : other.HasDistinctRules)
    (same : ∀ key settings, Text.sameIgnoringCase key id = true →
      ((key, settings) ∈ configuration.rules ↔ (key, settings) ∈ other.rules)) :
    configuration.rule? id = other.rule? id := by
  refine Option.ext fun settings => ?_
  rw [distinct.rule?_eq_some_iff, otherDistinct.rule?_eq_some_iff]
  exact exists_congr fun key => and_congr_left fun isForId => same key settings isForId

theorem filter_reconfigured_eq {other : Configuration} {id : String}
    (sameRule : configuration.rule? id = other.rule? id) (diagnostics : List Diagnostic) :
    (diagnostics.filterMap configuration.reconfigured?).filter (·.id = id) =
      (diagnostics.filterMap other.reconfigured?).filter (·.id = id) := by
  rw [List.filter_filterMap, List.filter_filterMap]
  congr 1
  funext diagnostic
  by_cases hasId : diagnostic.observation.descriptor.id = id
  · subst hasId
    simp only [reconfigured?, effectiveSeverity?, sameRule]
  · have dropped (configuration : Configuration) :
        (configuration.reconfigured? diagnostic).filter (·.id = id) = none := by
      rw [Option.filter_eq_none_iff]
      intro changed reconfigured
      rw [(keeps_of_reconfigured? reconfigured).2]
      exact mt of_decide_eq_true hasId
    rw [dropped configuration, dropped other]

variable {m : Type → Type} [Monad m] [LawfulMonad m] (configuration) (model : SemanticModel m)
  (token : CancellationToken)

theorem diagnoseCall_eq_map (call : Expr × RootExpression) :
    configuration.diagnoseCall model call =
      List.filterMap configuration.reconfigured? <$>
        ({} : Configuration).diagnoseCall model call := by
  simp only [diagnoseCall, map_bind]
  congr 1
  funext classified
  cases classified with
  | none => simp
  | some shape =>
    simp only [map_bind, map_pure, List.filterMap_filterMap]
    congr 1
    funext findings
    congr 2
    funext finding
    exact configuration.report?_eq_bind_report?_default finding

theorem diagnoseCalls_eq_map (calls : List (Expr × RootExpression)) :
    configuration.diagnoseCalls model token calls =
      (fun result => result.map (List.filterMap configuration.reconfigured?)) <$>
        ({} : Configuration).diagnoseCalls model token calls := by
  induction calls with
  | nil => simp [diagnoseCalls, Except.map]
  | cons call rest ih =>
    unfold diagnoseCalls
    cases token.check with
    | error error => simp [Except.map]
    | ok =>
      simp only [diagnoseCall_eq_map configuration, ih, bind_map_left, map_bind, map_pure]
      congr 1
      funext found
      congr 1
      funext others
      cases others <;> simp [Except.map, List.filterMap_append]

theorem analyze_eq_map (tree : SyntaxTree) :
    configuration.analyze tree model token =
      (fun result => result.map (List.filterMap configuration.reconfigured?)) <$>
        ({} : Configuration).analyze tree model token := by
  simp only [analyze, diagnoseCalls_eq_map configuration, bind_map_left, map_bind, map_pure]
  congr 1
  funext found
  cases found with
  | error error => rfl
  | ok diagnostics =>
    simp only [Except.map, Diagnostic.filterMap_mergeSort fun _ _ => keeps_of_reconfigured?]

/-- The diagnostics under a configuration are those under the default one, in the same order, but
each with the severity that the configuration gives to its kind, and without those whose kind is
turned off. Which diagnostics of one kind there are depends only on the entries for their id. -/
theorem analyze_eq_map_analyze_default (configuration : Configuration)
    (distinct : configuration.HasDistinctRules) (tree : SyntaxTree) (model : SemanticModel m)
    (token : CancellationToken) :
    configuration.analyze tree model token =
        (fun result => result.map (List.filterMap configuration.reconfigured?)) <$>
          ({} : Configuration).analyze tree model token ∧
      (∀ diagnostic changed, configuration.reconfigured? diagnostic = some changed ↔
        ∃ severity, configuration.Reports diagnostic.observation.descriptor severity ∧
          changed = { diagnostic with severity }) ∧
      ∀ (other : Configuration) (id : String), other.HasDistinctRules →
        (∀ key settings, Text.sameIgnoringCase key id = true →
          ((key, settings) ∈ configuration.rules ↔ (key, settings) ∈ other.rules)) →
        (fun result => result.map (List.filter (·.id = id))) <$>
            configuration.analyze tree model token =
          (fun result => result.map (List.filter (·.id = id))) <$>
            other.analyze tree model token := by
  refine ⟨analyze_eq_map configuration model token tree, ?_, ?_⟩
  · intro diagnostic changed
    simp only [reconfigured?, Option.map_eq_some_iff, distinct.effectiveSeverity?_eq_some_iff,
      eq_comm (b := changed)]
  · intro other id otherDistinct same
    rw [analyze_eq_map configuration, analyze_eq_map other, Functor.map_map, Functor.map_map]
    congr 1
    funext result
    cases result with
    | error error => rfl
    | ok diagnostics =>
      simp only [Except.map,
        filter_reconfigured_eq (rule?_eq_of_same_entries distinct otherDistinct same)]

/-- A configuration that turns off one rule and makes another one more severe. -/
def withRules : Configuration where
  rules := [("nunit2002", { enabled := false }), ("NUnit2003", { severity := some .error })]

/-- Of the two diagnostics of `SyntaxTree.nestedCalls` the outer one is left under `withRules`, as
an error, and it is the same one without the entry for the inner one. -/
theorem analyze_nestedCalls_withRules :
    withRules.HasDistinctRules ∧
    Id.run (withRules.analyze .nestedCalls .ofMemberNames {}) =
      .ok [⟨⟨0, 45⟩, .classic .isTrue false,
        "Consider using the constraint model, Assert.That(expr, Is.True), instead of the " ++
          "classic model, ClassicAssert.IsTrue(expr)", .error⟩] ∧
    (Id.run (withRules.analyze .nestedCalls .ofMemberNames {})).map
        (List.filter (·.id = "NUnit2003")) =
      (Id.run (({ rules := [("NUnit2003", { severity := some .error })] } : Configuration).analyze
        .nestedCalls .ofMemberNames {})).map (List.filter (·.id = "NUnit2003")) := by
  have distinct : withRules.HasDistinctRules := by unfold HasDistinctRules; decide
  have configured := analyze_eq_map_analyze_default (m := Id) withRules distinct .nestedCalls
    .ofMemberNames {}
  refine ⟨distinct, ?_, configured.2.2 _ "NUnit2003" (by unfold HasDistinctRules; decide) ?_⟩
  · refine (congrArg Id.run configured.1).trans ?_
    have analyzed := analyze_nestedCalls
    simp only [Id.run] at analyzed
    simp only [Functor.map, Id.run, analyzed]
    decide
  · intro key settings isForId
    have other : key ≠ "nunit2002" := by
      rintro rfl
      exact absurd isForId (by decide)
    simp [withRules, other]

end Configuration

end AssertionLint
