import AssertionLint.Configuration.Basic
import AssertionLint.Toml.Quoted

/-!
# Writing settings

The text of a configuration file with one table for each rule and one for the fixes.
-/

namespace AssertionLint

namespace Configuration

/-- The line that sets a flag. -/
def flagLine (name : String) (flag : Bool) : String :=
  name ++ " = " ++ (if flag then "true" else "false") ++ "\n"

/-- The settings of a rule; an override that is not set is left out. -/
def ruleText (id : String) (settings : RuleSettings) : String :=
  let severity :=
    match settings.severity with
    | some override => "severity = \"" ++ override.name ++ "\"\n"
    | none => ""
  "[rules." ++ Toml.nameText id ++ "]\n" ++ severity ++ flagLine "enabled" settings.enabled

/-- The text of a file with the given settings. -/
def toToml (configuration : Configuration) : String :=
  let rules :=
    match configuration.rules with
    | [] => ["[rules]\n"]
    | rules => rules.map fun (id, settings) => ruleText id settings
  let fixes :=
    "[fixes]\n" ++ flagLine "offer_condensed_fixes" configuration.fixes.offerCondensed
  "\n".intercalate (rules ++ [fixes])

end Configuration

end AssertionLint
