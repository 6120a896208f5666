import AssertionLint.Diagnostic.Descriptor
import AssertionLint.Error

/-!
# Configuration

Per-rule settings, keyed by diagnostic ids in any case, and which fixes are offered.
-/

namespace AssertionLint

/-- A severity as it is written in a configuration; `none` turns a rule off. -/
inductive SeverityOverride
  | none
  | hidden
  | info
  | warning
  | error
  deriving DecidableEq, Repr, Inhabited

namespace SeverityOverride

def all : List SeverityOverride := [none, hidden, info, warning, error]

def name : SeverityOverride → String
  | none => "none"
  | hidden => "hidden"
  | info => "info"
  | warning => "warning"
  | error => "error"

def ofName? (text : String) : Option SeverityOverride :=
  all.find? fun override => override.name == text

/-- The severity that an override sets. -/
def severity? : SeverityOverride → Option Severity
  | none => Option.none
  | hidden => some .hidden
  | info => some .info
  | warning => some .warning
  | error => some .error

end SeverityOverride

/-- The settings of one rule. -/
structure RuleSettings where
  severity : Option SeverityOverride := none
  enabled : Bool := true
  deriving DecidableEq, Repr, Inhabited

/-- The settings of the fixes. -/
structure FixSettings where
  /-- Offer `Assert.That(condition)` beside the full form. -/
  offerCondensed : Bool := true
  deriving DecidableEq, Repr, Inhabited

/-- The settings of an analysis. -/
structure Configuration where
  /-- The settings of single rules by diagnostic id, in the order in which they were written. -/
  rules : List (String × RuleSettings) := []
  fixes : FixSettings := {}
  deriving DecidableEq, Repr, Inhabited

namespace Configuration

/-- The settings for a diagnostic id in any case. -/
def rule? (configuration : Configuration) (id : String) : Option RuleSettings :=
  (configuration.rules.find? fun entry => Text.sameIgnoringCase entry.1 id).map (·.2)

/-- The severity that a diagnostic is reported with, unless it is turned off. -/
def effectiveSeverity? (configuration : Configuration) (descriptor : Descriptor) :
    Option Severity :=
  let default := if descriptor.enabledByDefault then some descriptor.defaultSeverity else none
  match configuration.rule? descriptor.id with
  | none => default
  | some settings =>
    if settings.enabled then
      match settings.severity with
      | some override => override.severity?
      | none => default
    else
      none

/-- The same settings in the order of their keys. -/
def sorted (configuration : Configuration) : Configuration :=
  { configuration with
    rules := configuration.rules.mergeSort fun left right => left.1 ≤ right.1 }

/-- The rule keys that name none of the given ids. -/
def unknownRules (configuration : Configuration) (knownIds : List String) : List String :=
  (configuration.rules.map (·.1)).filter fun key =>
    !knownIds.any fun id => Text.sameIgnoringCase id key

/-- Refuses rule keys that name none of the given ids. -/
def validate (configuration : Configuration) (knownIds : List String) : Except Error Unit :=
  match configuration.unknownRules knownIds with
  | [] => .ok ()
  | unknown => .error (.configuration ("Unknown rule ids: " ++ ", ".intercalate unknown))

end Configuration

end AssertionLint
