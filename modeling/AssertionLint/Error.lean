/-!
# Errors

The failures that an entry point of the library can answer with, and their wording.
-/

namespace AssertionLint

/-- A failure of an entry point. -/
inductive Error
  /-- Reading or writing failed outside the library. -/
  | inputOutput (cause : String)
  /-- A configuration could not be read or names unknown rules. -/
  | configuration (reason : String)
  /-- A source file could not be parsed. -/
  | parse (file reason : String)
  /-- The host asked to stop before the work was done. -/
  | cancelled
  /-- An entry point was called with values that do not fit together. -/
  | invalidInput (reason : String)
  /-- A failure together with what was being done when it happened. -/
  | withContext (context cause : String)
  deriving DecidableEq, Repr, Inhabited

namespace Error

/-- The text shown for a failure. -/
def message : Error → String
  | inputOutput cause => "I/O error: " ++ cause
  | configuration reason => "Configuration error: " ++ reason
  | parse file reason => "Parse error in " ++ file ++ ": " ++ reason
  | cancelled => "Operation was cancelled"
  | invalidInput reason => "Invalid input: " ++ reason
  | withContext context cause => context ++ ": " ++ cause

/-- The failure is the answer to a request to stop. -/
def isCancelled : Error → Bool
  | cancelled => true
  | _ => false

/-- Wraps a failure with what was being done when it happened. -/
def within (context : String) (error : Error) : Error :=
  withContext context error.message

end Error

end AssertionLint
