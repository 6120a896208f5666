import AssertionLint.Assertions.ClassicRule

/-!
# The catalog of diagnostics

Every diagnostic that analysis can report, in the order of the ids.
-/

namespace AssertionLint

namespace Descriptor

/-- A condition that compares for equality. -/
def equalConstraintUsage : Descriptor where
  id := "NUnit2010"
  title := "Use EqualConstraint for better assertion messages in case of failure"
  messageFormat := "Use \x7b0\x7d constraint instead of direct comparison"
  description :=
    "Using constraints instead of boolean methods will lead to better assertion messages in " ++
      "case of failure."
  category := .assertion
  defaultSeverity := .info
  enabledByDefault := true

/-- A condition that looks for a part of a string. -/
def stringContainsConstraintUsage : Descriptor where
  id := "NUnit2011"
  title := "Use ContainsConstraint for better assertion messages in case of failure"
  messageFormat := "Use \x7b0\x7d constraint instead of direct method"
  description :=
    "Using constraints instead of boolean methods will lead to better assertion messages in " ++
      "case of failure."
  category := .assertion
  defaultSeverity := .info
  enabledByDefault := true

/-- A condition on the start of a string. -/
def stringStartsWithConstraintUsage : Descriptor where
  id := "NUnit2012"
  title := "Use StartsWithConstraint for better assertion messages in case of failure"
  messageFormat := "Use \x7b0\x7d constraint instead of direct method"
  description :=
    "Using constraints instead of boolean methods will lead to better assertion messages in " ++
      "case of failure."
  category := .assertion
  defaultSeverity := .info
  enabledByDefault := true

/-- A condition on the end of a string. -/
def stringEndsWithConstraintUsage : Descriptor where
  id := "NUnit2013"
  title := "Use EndsWithConstraint for better assertion messages in case of failure"
  messageFormat := "Use \x7b0\x7d constraint instead of direct method"
  description :=
    "Using constraints instead of boolean methods will lead to better assertion messages in " ++
      "case of failure."
  category := .assertion
  defaultSeverity := .info
  enabledByDefault := true

/-- A condition that looks for a member of a collection. -/
def collectionContainsConstraintUsage : Descriptor where
  id := "NUnit2014"
  title := "Use SomeItemsConstraint for better assertion messages in case of failure"
  messageFormat := "Use \x7b0\x7d constraint instead of direct method"
  description :=
    "Using constraints instead of boolean methods will lead to better assertion messages in " ++
      "case of failure."
  category := .assertion
  defaultSeverity := .info
  enabledByDefault := true

/-- A comparison of a value type with `null`. -/
def nullConstraintUsage : Descriptor where
  id := "NUnit2023"
  title := "Invalid NullConstraint usage"
  messageFormat := "NullConstraint is allowed only for reference types or nullable value types"
  description :=
    "The actual value of a NullConstraint must be a reference type or a nullable value type."
  category := .assertion
  defaultSeverity := .error
  enabledByDefault := true

/-- A comparison of references of value types. -/
def sameAsOnValueTypes : Descriptor where
  id := "NUnit2040"
  title := "Non-reference types for SameAs constraint"
  messageFormat :=
    "The SameAs constraint always fails on value types as the actual and the expected value " ++
      "cannot be the same reference"
  description :=
    "Value types are boxed separately, so the actual and the expected value are never the " ++
      "same reference."
  category := .assertion
  defaultSeverity := .error
  enabledByDefault := true

/-- A condition that compares two values by their order. -/
def comparisonConstraintUsage : Descriptor where
  id := "NUnit2043"
  title := "Use ComparisonConstraint for better assertion messages in case of failure"
  messageFormat := "Use \x7b0\x7d constraint instead of direct comparison"
  description :=
    "Using constraints instead of boolean methods will lead to better assertion messages in " ++
      "case of failure."
  category := .assertion
  defaultSeverity := .info
  enabledByDefault := true

/-- A message with a format and its arguments. -/
def formatStringUsage : Descriptor where
  id := "NUnit2050"
  title := "NUnit 4 no longer supports string.Format specification"
  messageFormat := "Replace format specification and params with interpolatable string"
  description :=
    "The message and params arguments are replaced by a single interpolated string message."
  category := .assertion
  defaultSeverity := .info
  enabledByDefault := true

/-- Every diagnostic, in the order of the ids. -/
def all : List Descriptor :=
  [ClassicRule.falseCondition.descriptor, ClassicRule.isFalse.descriptor,
    ClassicRule.isTrue.descriptor, ClassicRule.trueCondition.descriptor,
    ClassicRule.areEqual.descriptor, ClassicRule.areNotEqual.descriptor, equalConstraintUsage,
    stringContainsConstraintUsage, stringStartsWithConstraintUsage, stringEndsWithConstraintUsage,
    collectionContainsConstraintUsage, ClassicRule.areSame.descriptor,
    ClassicRule.null.descriptor, ClassicRule.isNull.descriptor, ClassicRule.notNull.descriptor,
    ClassicRule.isNotNull.descriptor, nullConstraintUsage, ClassicRule.greater.descriptor,
    ClassicRule.greaterOrEqual.descriptor, ClassicRule.less.descriptor,
    ClassicRule.lessOrEqual.descriptor, ClassicRule.areNotSame.descriptor,
    ClassicRule.zero.descriptor, ClassicRule.notZero.descriptor, ClassicRule.isNaN.descriptor,
    ClassicRule.isEmpty.descriptor, ClassicRule.isNotEmpty.descriptor,
    ClassicRule.contains.descriptor, ClassicRule.isInstanceOf.descriptor,
    ClassicRule.isNotInstanceOf.descriptor, sameAsOnValueTypes, comparisonConstraintUsage,
    formatStringUsage, ClassicRule.positive.descriptor, ClassicRule.negative.descriptor,
    ClassicRule.isAssignableFrom.descriptor, ClassicRule.isNotAssignableFrom.descriptor]

/-- The diagnostic with a given id, in any case. -/
def byId? (id : String) : Option Descriptor :=
  all.find? fun descriptor => Text.sameIgnoringCase descriptor.id id

end Descriptor

end AssertionLint
