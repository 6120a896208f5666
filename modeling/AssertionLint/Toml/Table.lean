import AssertionLint.Toml.Value

/-!
# Tables

Finding, changing and adding values in nested tables. What may be added to a table depends on how it
was defined: a table in braces is complete, one header defines a table only once, and keys with
points in them and headers do not add to each other's tables.
-/

namespace AssertionLint

namespace Toml

namespace Entries

/-- Changes the value with a given name, or adds one behind the others; fails if the change does. -/
def alter (name : String) (change : Option Value → Option Value) : Entries → Option Entries
  | [] => (change none).map fun value => [(name, value)]
  | (other, value) :: rest =>
    if other = name then
      (change (some value)).map fun value => (other, value) :: rest
    else
      (alter name change rest).map ((other, value) :: ·)

/-- Changes the table that a list of names leads to. Keys lead through tables of their own only,
headers through all but those in braces, and both to the last row of a list of tables. -/
def change (byKey : Bool) (action : Definition → Entries → Option Entries) :
    List String → Definition → Entries → Option Entries
  | [], definition, entries => action definition entries
  | name :: names, _, entries => alter name (fun
    | none =>
      let made := if byKey then .dotted else .implied
      (change byKey action names made []).map (.table made)
    | some (.table definition inner) =>
      if definition = .braces ∨ (byKey ∧ definition = .header) then none
      else (change byKey action names definition inner).map (.table definition)
    | some (.rows tables) =>
      match tables.getLast? with
      | some (.table definition inner) =>
        (change byKey action names definition inner).map fun changed =>
          .rows (tables.dropLast ++ [.table definition changed])
      | _ => none
    | some _ => none) entries

/-- Sets a value that has not been set. A key with points in it adds only to tables that such keys
made, and a plain one only to others. -/
def set (path : Path) (value : Value) : Definition → Entries → Option Entries :=
  change true (fun definition entries =>
    if (definition == .dotted) == path.tables.isEmpty then none
    else alter path.name (fun
      | none => some value
      | some _ => none) entries) path.tables

/-- Defines a table by its header; a longer header may have led through it before. -/
def define (path : Path) : Entries → Option Entries :=
  change false (fun _ entries => alter path.name (fun
    | none => some (.table .header [])
    | some (.table .implied inner) => some (.table .header inner)
    | some _ => none) entries) path.tables .header

/-- Adds an empty row to the list of tables under a header. -/
def addRow (path : Path) : Entries → Option Entries :=
  change false (fun _ entries => alter path.name (fun
    | none => some (.rows [.table .header []])
    | some (.rows tables) => some (.rows (tables ++ [.table .header []]))
    | some _ => none) entries) path.tables .header

/-- Sets a value in the table that a list of names from a header leads to. -/
def setWithin (header : List String) (path : Path) (value : Value) : Entries → Option Entries :=
  change false (set path value) header .header

end Entries

end Toml

end AssertionLint
