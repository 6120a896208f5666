import AssertionLint.Configuration.Decode

/-!
# Layers of settings

Settings are collected from three layers: the defaults, a file and the environment, where a later
layer overrides an earlier one setting by setting. All names are compared in lower case. A variable
of the environment names a place by the words between double underscores.
-/

namespace AssertionLint

namespace Toml

namespace Value

/-- The entries of a table; any other value is given up for an empty table. -/
def entries : Value → Entries
  | table _ entries => entries
  | _ => []

/-- Replaces or adds the value with a given name in a table. -/
def withEntry (name : String) (change : Value → Value) (value : Value) : Value :=
  table .header (go value.entries)
where
  go : Entries → Entries
    | [] => [(name, change (table .header []))]
    | (other, inner) :: rest =>
      if other = name then (other, change inner) :: rest else (other, inner) :: go rest

mutual

/-- Lays a value over another one. Tables are merged entry by entry. -/
def overlay : Value → Value → Value
  | table _ entries, below => overlayAll entries below
  | value, _ => value

/-- Lays entries over the entries of a table. -/
def overlayAll : List (String × Value) → Value → Value
  | [], below => below
  | (name, value) :: rest, below =>
    overlayAll rest (below.withEntry (Text.lowered name) (overlay value))

end

/-- Lays a value over the one at a place in nested tables. -/
def overlayAt (value : Value) : List String → Value → Value
  | [], below => overlay value below
  | name :: names, below => below.withEntry (Text.lowered name) (overlayAt value names)

end Value

/-- The character may stand in a name on a path. -/
def isPathChar (c : Char) : Bool := isNameChar c || c == ' '

/-- The names on a path with points between them; any other text is one name. -/
def namesOnPath (text : String) : List String :=
  let names := text.toList.splitOn '.'
  if names.all fun name => !name.isEmpty && name.all isPathChar then
    names.map String.ofList
  else
    [text]

end Toml

open Toml

namespace Configuration

/-- The settings that hold where nothing else is said. -/
def defaults : Value :=
  Value.overlayAt (.boolean ({} : FixSettings).offerCondensed) ["fixes", "offer_condensed_fixes"]
    (.table .header [])

/-- How the variables of the environment that hold settings begin, in lower case. -/
def variableStart : String := "nunit_analyzers__"

/-- The value of a variable: a flag, a number or a text. -/
def variableValue (text : String) : Value :=
  let chars := text.toList
  if Text.lowered text == "true" then .boolean true
  else if Text.lowered text == "false" then .boolean false
  else
    match Text.integer? 10 0x8000000000000000 chars, Text.float? chars with
    | some number, _ => .integer number
    | none, some number => .float number
    | none, none => .text text

/-- The names on the path that a variable stands for. -/
def variablePath? (name : String) : Option (List String) :=
  let lowered := Text.lowered name
  if variableStart.toList.isPrefixOf lowered.toList then
    let path := String.ofList (lowered.toList.drop variableStart.length)
    some (namesOnPath (Text.replaceAll "__" "." path))
  else
    none

/-- Lays the entries of a file over other settings. -/
def overlayFile (below : Value) (entries : Entries) : Value :=
  entries.foldl (fun below (name, value) => value.overlayAt (namesOnPath name) below) below

/-- Lays the variables of the environment over other settings. -/
def overlayEnvironment (below : Value) (environment : List (String × String)) : Value :=
  environment.foldl (fun below (name, text) =>
    match variablePath? name with
    | some path => (variableValue text).overlayAt path below
    | none => below) below

/-- The settings from the text of a file, if there is one, and the environment. -/
def load (file : Option String) (environment : List (String × String)) :
    Except Error Configuration := do
  let entries ←
    match file.map document? with
    | some (some entries) => pure entries
    | some none => throw (.configuration "Failed to build config")
    | none => pure []
  let collected := overlayEnvironment (overlayFile defaults entries) environment
  match SettingStyle.loose.configuration? collected.entries with
  | some configuration => return configuration
  | none => throw (.configuration "Failed to deserialize config")

end Configuration

end AssertionLint
