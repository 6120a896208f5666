import AssertionLint.Reference.Vocabulary

/-!
# Constraints

What the constraint library declares: the constraints themselves and the expressions that put
several of them together.
-/

namespace AssertionLint.Reference

/-- The constraints that can be named directly, as members with the given modifiers. -/
def testMembers (modifiers : List String) : List StubMember := [
  .property modifiers (named "NullConstraint") "Null",
  .property modifiers (named "TrueConstraint") "True",
  .property modifiers (named "FalseConstraint") "False",
  .property modifiers (named "EmptyConstraint") "Empty",
  .property modifiers (named "NaNConstraint") "NaN",
  .property modifiers (named "EqualConstraint") "Zero",
  .property modifiers (named "GreaterThanConstraint") "Positive",
  .property modifiers (named "LessThanConstraint") "Negative",
  .property modifiers (named "DefaultConstraint") "Default",
  .property modifiers (named "UniqueItemsConstraint") "Unique",
  .property modifiers (named "CollectionOrderedConstraint") "Ordered",
  .method modifiers (named "EqualConstraint") "EqualTo" [] [param object "expected"],
  .method modifiers (named "SameAsConstraint") "SameAs" [] [param object "expected"],
  .method modifiers (named "GreaterThanConstraint") "GreaterThan" [] [param object "expected"],
  .method modifiers (named "GreaterThanOrEqualConstraint") "GreaterThanOrEqualTo" []
    [param object "expected"],
  .method modifiers (named "GreaterThanOrEqualConstraint") "AtLeast" [] [param object "expected"],
  .method modifiers (named "LessThanConstraint") "LessThan" [] [param object "expected"],
  .method modifiers (named "LessThanOrEqualConstraint") "LessThanOrEqualTo" []
    [param object "expected"],
  .method modifiers (named "LessThanOrEqualConstraint") "AtMost" [] [param object "expected"],
  .method modifiers (named "RangeConstraint") "InRange" [] [param object "from", param object "to"],
  .method modifiers (named "ExactTypeConstraint") "TypeOf" [] [param (named "Type") "expectedType"],
  .method modifiers (named "ExactTypeConstraint") "TypeOf" ["TExpected"] [],
  .method modifiers (named "InstanceOfTypeConstraint") "InstanceOf" []
    [param (named "Type") "expectedType"],
  .method modifiers (named "InstanceOfTypeConstraint") "InstanceOf" ["TExpected"] [],
  .method modifiers (named "AssignableFromConstraint") "AssignableFrom" []
    [param (named "Type") "expectedType"],
  .method modifiers (named "AssignableFromConstraint") "AssignableFrom" ["TExpected"] [],
  .method modifiers (named "AssignableToConstraint") "AssignableTo" []
    [param (named "Type") "expectedType"],
  .method modifiers (named "AssignableToConstraint") "AssignableTo" ["TExpected"] [],
  .method modifiers (named "CollectionEquivalentConstraint") "EquivalentTo" []
    [param (named "IEnumerable") "expected"]]

/-- The constraints and the expressions that build them. -/
def constraints : NamespaceStub where
  name := "NUnit.Framework.Constraints"
  usings := ["System", "System.Collections"]
  groups := [
    [{ kind := .interface, name := "IResolveConstraint"
       body := .block [
         .method [] (named "IConstraint") "Resolve" [] []] }],
    [{ kind := .interface, name := "IConstraint", bases := [named "IResolveConstraint"] }],
    [{ kind := .class, name := "Constraint", modifiers := ["abstract"]
       bases := [named "IConstraint"]
       body := .block [
         .property [] (named "ConstraintExpression") "And",
         .property [] (named "ConstraintExpression") "Or",
         .property [] (named "ConstraintExpression") "With",
         .method [] (named "IConstraint") "Resolve" [] [],
         .operator (named "Constraint") "&" [param (named "Constraint") "left",
           param (named "Constraint") "right"],
         .operator (named "Constraint") "|" [param (named "Constraint") "left",
           param (named "Constraint") "right"],
         .operator (named "Constraint") "!" [param (named "Constraint") "constraint"]] }],
    [{ kind := .class, name := "ConstraintExpression"
       body := .block ([
         .property [] (named "ConstraintExpression") "Not",
         .property [] (named "ConstraintExpression") "No",
         .property [] (named "ConstraintExpression") "All",
         .property [] (named "ConstraintExpression") "Some",
         .property [] (named "ConstraintExpression") "None",
         .property [] (named "ConstraintExpression") "With",
         .property [] (named "ResolvableConstraintExpression") "Count",
         .property [] (named "ResolvableConstraintExpression") "Length",
         .property [] (named "ResolvableConstraintExpression") "Message",
         .method [] (named "ResolvableConstraintExpression") "Property" [] [param string "name"],
         .method [] (named "ItemsConstraintExpression") "Exactly" []
           [param int "expectedCount"]] ++ testMembers [] ++ [
         .method [] (named "SomeItemsConstraint") "Member" [] [param object "expected"],
         .method [] (named "SomeItemsConstraint") "Contains" [] [param object "expected"],
         .method [] (named "ContainsConstraint") "Contains" [] [param string "expected"],
         .method [] (named "ContainsConstraint") "Contain" [] [param object "expected"],
         .method [] (named "ContainsConstraint") "Contain" [] [param string "expected"],
         .method [] (named "StartsWithConstraint") "StartWith" [] [param string "expected"],
         .method [] (named "EndsWithConstraint") "EndWith" [] [param string "expected"],
         .method [] (named "RegexConstraint") "Match" [] [param string "pattern"]]) }],
    [{ kind := .class, name := "ResolvableConstraintExpression", modifiers := ["sealed"]
       bases := [named "ConstraintExpression", named "IResolveConstraint"]
       body := .block [
         .method [] (named "IConstraint") "Resolve" [] []] }],
    [{ kind := .class, name := "ItemsConstraintExpression", modifiers := ["sealed"]
       bases := [named "ConstraintExpression"] }],
    [{ kind := .class, name := "EqualConstraint", bases := [named "Constraint"]
       body := .block [
         .constructor [param object "expected"],
         .method [] (named "EqualConstraint") "Within" [] [param object "amount"],
         .property [] (named "EqualConstraint") "IgnoreCase",
         .property [] (named "EqualConstraint") "AsCollection",
         .property [] (named "EqualConstraint") "Percent",
         .property [] (named "EqualConstraint") "Ulps"] }],
    [{ kind := .class, name := "NullConstraint", bases := [named "Constraint"] },
     { kind := .class, name := "TrueConstraint", bases := [named "Constraint"] },
     { kind := .class, name := "FalseConstraint", bases := [named "Constraint"] },
     { kind := .class, name := "NaNConstraint", bases := [named "Constraint"] },
     { kind := .class, name := "EmptyConstraint", bases := [named "Constraint"] },
     { kind := .class, name := "DefaultConstraint", bases := [named "Constraint"] },
     { kind := .class, name := "UniqueItemsConstraint", bases := [named "Constraint"] },
     { kind := .class, name := "CollectionOrderedConstraint", bases := [named "Constraint"]
       body := .block [
         .property [] (named "CollectionOrderedConstraint") "Ascending",
         .property [] (named "CollectionOrderedConstraint") "Descending"] },
     { kind := .class, name := "CollectionEquivalentConstraint", bases := [named "Constraint"] },
     { kind := .class, name := "ThrowsNothingConstraint", bases := [named "Constraint"] }],
    [{ kind := .class, name := "SameAsConstraint", bases := [named "Constraint"]
       body := .block [
         .constructor [param object "expected"]] }],
    [{ kind := .class, name := "ComparisonConstraint", modifiers := ["abstract"]
       bases := [named "Constraint"]
       body := .block [
         .method [] (named "ComparisonConstraint") "Within" [] [param object "amount"],
         .property [] (named "ComparisonConstraint") "Percent"] },
     { kind := .class, name := "GreaterThanConstraint", bases := [named "ComparisonConstraint"] },
     { kind := .class, name := "GreaterThanOrEqualConstraint"
       bases := [named "ComparisonConstraint"] },
     { kind := .class, name := "LessThanConstraint", bases := [named "ComparisonConstraint"] },
     { kind := .class, name := "LessThanOrEqualConstraint"
       bases := [named "ComparisonConstraint"] }],
    [{ kind := .class, name := "RangeConstraint", bases := [named "Constraint"] }],
    [{ kind := .class, name := "TypeConstraint", modifiers := ["abstract"]
       bases := [named "Constraint"] },
     { kind := .class, name := "ExactTypeConstraint", bases := [named "TypeConstraint"] },
     { kind := .class, name := "InstanceOfTypeConstraint", bases := [named "TypeConstraint"] },
     { kind := .class, name := "AssignableFromConstraint", bases := [named "TypeConstraint"] },
     { kind := .class, name := "AssignableToConstraint", bases := [named "TypeConstraint"] }],
    [{ kind := .class, name := "SomeItemsConstraint", bases := [named "Constraint"]
       body := .block [
         .property [] (named "SomeItemsConstraint") "IgnoreCase"] },
     { kind := .class, name := "ContainsConstraint", bases := [named "Constraint"]
       body := .block [
         .property [] (named "ContainsConstraint") "IgnoreCase"] }],
    [{ kind := .class, name := "StringConstraint", modifiers := ["abstract"]
       bases := [named "Constraint"]
       body := .block [
         .property [] (named "StringConstraint") "IgnoreCase"] },
     { kind := .class, name := "SubstringConstraint", bases := [named "StringConstraint"] },
     { kind := .class, name := "StartsWithConstraint", bases := [named "StringConstraint"] },
     { kind := .class, name := "EndsWithConstraint", bases := [named "StringConstraint"] },
     { kind := .class, name := "RegexConstraint", bases := [named "StringConstraint"] }]]

end AssertionLint.Reference
