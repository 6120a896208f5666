import AssertionLint.Text.Basic

/-!
# Descriptors

What is known about a diagnostic before it is reported: its id, its texts and how severe it is
unless configured otherwise.
-/

namespace AssertionLint

/-- How much a diagnostic matters. -/
inductive Severity
  | hidden
  | info
  | warning
  | error
  deriving DecidableEq, Repr, Inhabited

namespace Severity

def all : List Severity := [hidden, info, warning, error]

def name : Severity → String
  | hidden => "hidden"
  | info => "info"
  | warning => "warning"
  | error => "error"

def ofName? (text : String) : Option Severity := all.find? fun severity => severity.name == text

end Severity

/-- The groups of diagnostics. -/
inductive Category
  | assertion
  deriving DecidableEq, Repr, Inhabited

def Category.name : Category → String
  | .assertion => "Assertion"

/-- The fixed facts about one kind of diagnostic. -/
structure Descriptor where
  id : String
  title : String
  /-- The message, with a numbered placeholder in braces for each argument. -/
  messageFormat : String
  description : String
  category : Category
  defaultSeverity : Severity
  enabledByDefault : Bool
  deriving DecidableEq, Repr, Inhabited

namespace Descriptor

/-- Puts arguments into a format, the first one from the given number on. Each argument is put in
before the next placeholder is looked for, so a placeholder inside an argument is filled too. -/
def substitute (format : String) (number : Nat) : List String → String
  | [] => format
  | argument :: rest =>
    substitute (Text.replaceAll ("\x7b" ++ toString number ++ "\x7d") argument format)
      (number + 1) rest

/-- The message for the given arguments; a placeholder without an argument stays as it is. -/
def formatMessage (descriptor : Descriptor) (arguments : List String) : String :=
  substitute descriptor.messageFormat 0 arguments

/-- Where the diagnostic is documented. -/
def helpLink (descriptor : Descriptor) : String :=
  "https://github.com/nunit/nunit.analyzers/tree/master/documentation/" ++ descriptor.id ++ ".md"

end Descriptor

end AssertionLint
