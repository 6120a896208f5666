import AssertionLint.Configuration.Basic
import AssertionLint.Toml.Statement

/-!
# Reading settings

Settings are read from the values of a configuration file. A file on its own is taken literally;
values that may come from the environment as well are understood more loosely. Settings may be
given by name in a table or by place in a list, and names that mean nothing are passed over.
-/

namespace AssertionLint

open Toml

/-- How values are understood. -/
structure SettingStyle where
  flag? : Value → Option Bool
  severity? : Value → Option SeverityOverride
  /-- A date or a time counts as a table without settings. -/
  emptyMoments : Bool

namespace SettingStyle

/-- A table whose only name is that of an override, or the name itself. -/
def severityName? : Value → Option (String × Option Value)
  | .text name => some (name, none)
  | .table _ [(name, value)] => some (name, some value)
  | _ => none

/-- The value holds nothing. -/
def isEmpty : Value → Bool
  | .table _ [] | .array [] | .rows [] => true
  | _ => false

/-- Flags are flags, and overrides are named in lower case. -/
def literal : SettingStyle where
  flag?
    | .boolean flag => some flag
    | _ => none
  severity? value := do
    let (name, inside) ← severityName? value
    if inside.all isEmpty then SeverityOverride.ofName? name else none
  emptyMoments := true

/-- The words for a flag, with its value. -/
def flagWords : List (String × Bool) :=
  [("1", true), ("true", true), ("on", true), ("yes", true),
    ("0", false), ("false", false), ("off", false), ("no", false)]

/-- Numbers and words stand for flags too, and overrides are named in any case. -/
def loose : SettingStyle where
  flag?
    | .boolean flag => some flag
    | .integer number => some (number != 0)
    | .float number => some (number != 0)
    | .text word => (flagWords.find? fun entry => Text.lowered word == entry.1).map (·.2)
    | _ => none
  severity? value := do
    let (name, _) ← severityName? value
    SeverityOverride.ofName? (Text.lowered name)
  emptyMoments := false

/-- The values of the settings with the given names, which stand in this order in a list. -/
def settings? (style : SettingStyle) (names : List String) : Value → Option (List (Option Value))
  | .table _ entries => some (names.map fun name => entries.lookup name)
  | .array items | .rows items => some (names.zipIdx.map fun (_, place) => items[place]?)
  | .moment _ => if style.emptyMoments then some (names.map fun _ => none) else none
  | _ => none

def rule? (style : SettingStyle) (value : Value) : Option RuleSettings := do
  match ← style.settings? ["severity", "enabled"] value with
  | [severity, enabled] =>
    return {
      severity := ← severity.mapM style.severity?
      enabled := (← enabled.mapM style.flag?).getD true }
  | _ => none

def rules? (style : SettingStyle) : Value → Option (List (String × RuleSettings))
  | .table _ entries => entries.mapM fun (id, value) => do return (id, ← style.rule? value)
  | _ => none

def fixes? (style : SettingStyle) (value : Value) : Option FixSettings := do
  match ← style.settings? ["offer_condensed_fixes"] value with
  | [offered] => return { offerCondensed := (← offered.mapM style.flag?).getD true }
  | _ => none

def configuration? (style : SettingStyle) (entries : Entries) : Option Configuration := do
  return {
    rules := (← (entries.lookup "rules").mapM style.rules?).getD []
    fixes := (← (entries.lookup "fixes").mapM style.fixes?).getD {} }

end SettingStyle

namespace Configuration

/-- The settings in the text of a file. -/
def ofToml (text : String) : Except Error Configuration :=
  match (document? text).bind SettingStyle.literal.configuration? with
  | some configuration => .ok configuration
  | none => .error (.configuration "Failed to parse TOML")

end Configuration

end AssertionLint
