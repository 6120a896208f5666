/-!
# Values of a configuration file

What a file in TOML holds: named values, grouped in tables. A table remembers how it was defined,
because that decides what a later part of the file may still add to it.
-/

namespace AssertionLint

namespace Toml

/-- How a table was defined. -/
inductive Definition
  /-- By a header of its own, or as the whole file. -/
  | header
  /-- By a longer header that leads through it. -/
  | implied
  /-- By a key that leads through it. -/
  | dotted
  /-- In braces, which makes it complete. -/
  | braces
  deriving DecidableEq, Repr, Inhabited

/-- A value in a configuration file. -/
inductive Value
  | text (content : String)
  | integer (number : Int)
  | float (number : Float)
  | boolean (flag : Bool)
  /-- A date, a time or both. -/
  | moment (written : String)
  /-- A list of values in brackets. -/
  | array (items : List Value)
  /-- The tables under one header that may be repeated. -/
  | rows (tables : List Value)
  | table (definition : Definition) (entries : List (String × Value))
  deriving Repr, Inhabited

/-- Named values in the order in which they were written. -/
abbrev Entries := List (String × Value)

/-- A place in nested tables: the names that lead to a table, and a name in it. -/
structure Path where
  tables : List String
  name : String
  deriving DecidableEq, Repr, Inhabited

/-- The place that a list of names leads to. -/
def Path.ofNames? (names : List String) : Option Path :=
  names.getLast?.map fun name => ⟨names.dropLast, name⟩

end Toml

end AssertionLint
