import AssertionLint.Diagnostic.Descriptor

/-!
# Classic assertions

The assertion methods of the classic model that have a direct form in the constraint model, with
that form and the diagnostic that suggests it.
-/

namespace AssertionLint

/-- The methods of the classic model that have a form in the constraint model. -/
inductive ClassicRule
  | falseCondition
  | isFalse
  | isTrue
  | trueCondition
  | areEqual
  | areNotEqual
  | areSame
  | null
  | isNull
  | notNull
  | isNotNull
  | greater
  | greaterOrEqual
  | less
  | lessOrEqual
  | areNotSame
  | zero
  | notZero
  | isNaN
  | isEmpty
  | isNotEmpty
  | contains
  | isInstanceOf
  | isNotInstanceOf
  | positive
  | negative
  | isAssignableFrom
  | isNotAssignableFrom
  deriving DecidableEq, Repr, Inhabited

/-- How a classic call maps to `Assert.That(actual, constraint)`. -/
inductive Replacement
  /-- A constraint property such as `Is.Not.Null`; overloads name the actual value differently. -/
  | property (actual : List String) (chain : List String)
  /-- A constraint method that takes the expected value, such as `Is.EqualTo(expected)`. -/
  | call (actual expected : String) (chain : List String)
  /-- A constraint method that takes the expected type, as an argument or as a type argument. -/
  | typeCheck (chain : List String)
  deriving DecidableEq, Repr, Inhabited

namespace Replacement

/-- The names that the parameter for the actual value may have. -/
def actualParameters : Replacement → List String
  | property actual _ => actual
  | call actual _ _ => [actual]
  | typeCheck _ => ["actual"]

/-- The name of the parameter for the expected value. -/
def expectedParameter? : Replacement → Option String
  | call _ expected _ => some expected
  | property .. | typeCheck _ => none

def name : Replacement → String
  | property .. => "Property"
  | call .. => "Call"
  | typeCheck _ => "TypeCheck"

/-- The dotted constraint name. -/
def chain : Replacement → List String
  | property _ chain | call _ _ chain | typeCheck chain => chain

end Replacement

namespace ClassicRule

def all : List ClassicRule :=
  [falseCondition, isFalse, isTrue, trueCondition, areEqual, areNotEqual, areSame, null, isNull,
    notNull, isNotNull, greater, greaterOrEqual, less, lessOrEqual, areNotSame, zero, notZero,
    isNaN, isEmpty, isNotEmpty, contains, isInstanceOf, isNotInstanceOf, positive, negative,
    isAssignableFrom, isNotAssignableFrom]

def methodName : ClassicRule → String
  | falseCondition => "False"
  | isFalse => "IsFalse"
  | isTrue => "IsTrue"
  | trueCondition => "True"
  | areEqual => "AreEqual"
  | areNotEqual => "AreNotEqual"
  | areSame => "AreSame"
  | null => "Null"
  | isNull => "IsNull"
  | notNull => "NotNull"
  | isNotNull => "IsNotNull"
  | greater => "Greater"
  | greaterOrEqual => "GreaterOrEqual"
  | less => "Less"
  | lessOrEqual => "LessOrEqual"
  | areNotSame => "AreNotSame"
  | zero => "Zero"
  | notZero => "NotZero"
  | isNaN => "IsNaN"
  | isEmpty => "IsEmpty"
  | isNotEmpty => "IsNotEmpty"
  | contains => "Contains"
  | isInstanceOf => "IsInstanceOf"
  | isNotInstanceOf => "IsNotInstanceOf"
  | positive => "Positive"
  | negative => "Negative"
  | isAssignableFrom => "IsAssignableFrom"
  | isNotAssignableFrom => "IsNotAssignableFrom"

def ofMethodName? (name : String) : Option ClassicRule :=
  all.find? fun rule => rule.methodName == name

/-- The classic methods that can also be written as `Assert.That(condition)`. -/
def isCondensable : ClassicRule → Bool
  | isTrue | trueCondition => true
  | _ => false

/-- The form of a classic method in the constraint model. -/
def replacement : ClassicRule → Replacement
  | falseCondition | isFalse => .property ["condition"] ["Is", "False"]
  | isTrue | trueCondition => .property ["condition"] ["Is", "True"]
  | areEqual => .call "actual" "expected" ["Is", "EqualTo"]
  | areNotEqual => .call "actual" "expected" ["Is", "Not", "EqualTo"]
  | areSame => .call "actual" "expected" ["Is", "SameAs"]
  | areNotSame => .call "actual" "expected" ["Is", "Not", "SameAs"]
  | null | isNull => .property ["anObject"] ["Is", "Null"]
  | notNull | isNotNull => .property ["anObject"] ["Is", "Not", "Null"]
  | greater => .call "arg1" "arg2" ["Is", "GreaterThan"]
  | greaterOrEqual => .call "arg1" "arg2" ["Is", "GreaterThanOrEqualTo"]
  | less => .call "arg1" "arg2" ["Is", "LessThan"]
  | lessOrEqual => .call "arg1" "arg2" ["Is", "LessThanOrEqualTo"]
  | zero => .property ["actual"] ["Is", "Zero"]
  | notZero => .property ["actual"] ["Is", "Not", "Zero"]
  | isNaN => .property ["aDouble"] ["Is", "NaN"]
  | positive => .property ["actual"] ["Is", "Positive"]
  | negative => .property ["actual"] ["Is", "Negative"]
  | isEmpty => .property ["aString", "collection"] ["Is", "Empty"]
  | isNotEmpty => .property ["aString", "collection"] ["Is", "Not", "Empty"]
  | contains => .call "actual" "expected" ["Has", "Member"]
  | isInstanceOf => .typeCheck ["Is", "InstanceOf"]
  | isNotInstanceOf => .typeCheck ["Is", "Not", "InstanceOf"]
  | isAssignableFrom => .typeCheck ["Is", "AssignableFrom"]
  | isNotAssignableFrom => .typeCheck ["Is", "Not", "AssignableFrom"]

/-- A descriptor that suggests a form of the constraint model for a classic call. -/
def suggestion (id constraint classic : String) : Descriptor where
  id := id
  title := "Consider using " ++ constraint ++ " instead of " ++ classic
  messageFormat :=
    "Consider using the constraint model, " ++ constraint ++ ", instead of the classic model, " ++
      classic
  description :=
    "Consider using the constraint model, " ++ constraint ++ ", instead of the classic model, " ++
      classic ++ "."
  category := .assertion
  defaultSeverity := .info
  enabledByDefault := true

/-- The diagnostic that suggests the form of a classic method in the constraint model. -/
def descriptor : ClassicRule → Descriptor
  | falseCondition =>
    suggestion "NUnit2001" "Assert.That(expr, Is.False)"
      "ClassicAssert.False(expr)"
  | isFalse => suggestion "NUnit2002" "Assert.That(expr, Is.False)" "ClassicAssert.IsFalse(expr)"
  | isTrue => suggestion "NUnit2003" "Assert.That(expr, Is.True)" "ClassicAssert.IsTrue(expr)"
  | trueCondition => suggestion "NUnit2004" "Assert.That(expr, Is.True)" "ClassicAssert.True(expr)"
  | areEqual =>
    suggestion "NUnit2005" "Assert.That(actual, Is.EqualTo(expected))"
      "ClassicAssert.AreEqual(expected, actual)"
  | areNotEqual =>
    suggestion "NUnit2006" "Assert.That(actual, Is.Not.EqualTo(expected))"
      "ClassicAssert.AreNotEqual(expected, actual)"
  | areSame =>
    suggestion "NUnit2015" "Assert.That(actual, Is.SameAs(expected))"
      "ClassicAssert.AreSame(expected, actual)"
  | null => suggestion "NUnit2016" "Assert.That(expr, Is.Null)" "ClassicAssert.Null(expr)"
  | isNull => suggestion "NUnit2017" "Assert.That(expr, Is.Null)" "ClassicAssert.IsNull(expr)"
  | notNull => suggestion "NUnit2018" "Assert.That(expr, Is.Not.Null)" "ClassicAssert.NotNull(expr)"
  | isNotNull =>
    suggestion "NUnit2019" "Assert.That(expr, Is.Not.Null)"
      "ClassicAssert.IsNotNull(expr)"
  | greater =>
    suggestion "NUnit2027" "Assert.That(actual, Is.GreaterThan(expected))"
      "ClassicAssert.Greater(actual, expected)"
  | greaterOrEqual =>
    suggestion "NUnit2028" "Assert.That(actual, Is.GreaterThanOrEqualTo(expected))"
      "ClassicAssert.GreaterOrEqual(actual, expected)"
  | less =>
    suggestion "NUnit2029" "Assert.That(actual, Is.LessThan(expected))"
      "ClassicAssert.Less(actual, expected)"
  | lessOrEqual =>
    suggestion "NUnit2030" "Assert.That(actual, Is.LessThanOrEqualTo(expected))"
      "ClassicAssert.LessOrEqual(actual, expected)"
  | areNotSame =>
    suggestion "NUnit2031" "Assert.That(actual, Is.Not.SameAs(expected))"
      "ClassicAssert.AreNotSame(expected, actual)"
  | zero => suggestion "NUnit2032" "Assert.That(expr, Is.Zero)" "ClassicAssert.Zero(expr)"
  | notZero => suggestion "NUnit2033" "Assert.That(expr, Is.Not.Zero)" "ClassicAssert.NotZero(expr)"
  | isNaN => suggestion "NUnit2034" "Assert.That(expr, Is.NaN)" "ClassicAssert.IsNaN(expr)"
  | isEmpty =>
    suggestion "NUnit2035" "Assert.That(collection, Is.Empty)"
      "ClassicAssert.IsEmpty(collection)"
  | isNotEmpty =>
    suggestion "NUnit2036" "Assert.That(collection, Is.Not.Empty)"
      "ClassicAssert.IsNotEmpty(collection)"
  | contains =>
    suggestion "NUnit2037" "Assert.That(collection, Has.Member(instance))"
      "ClassicAssert.Contains(instance, collection)"
  | isInstanceOf =>
    suggestion "NUnit2038" "Assert.That(actual, Is.InstanceOf(expected))"
      "ClassicAssert.IsInstanceOf(expected, actual)"
  | isNotInstanceOf =>
    suggestion "NUnit2039" "Assert.That(actual, Is.Not.InstanceOf(expected))"
      "ClassicAssert.IsNotInstanceOf(expected, actual)"
  | positive =>
    suggestion "NUnit2051" "Assert.That(expr, Is.Positive)"
      "ClassicAssert.Positive(expr)"
  | negative =>
    suggestion "NUnit2052" "Assert.That(expr, Is.Negative)"
      "ClassicAssert.Negative(expr)"
  | isAssignableFrom =>
    suggestion "NUnit2053" "Assert.That(actual, Is.AssignableFrom(expected))"
      "ClassicAssert.IsAssignableFrom(expected, actual)"
  | isNotAssignableFrom =>
    suggestion "NUnit2054" "Assert.That(actual, Is.Not.AssignableFrom(expected))"
      "ClassicAssert.IsNotAssignableFrom(expected, actual)"

end ClassicRule

end AssertionLint
