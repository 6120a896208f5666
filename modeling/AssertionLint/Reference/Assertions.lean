import AssertionLint.Reference.Classic
import AssertionLint.Reference.Constraints

/-!
# Assertions

What the assertion library declares: the holders of assertions, and the classes that constraints
start from. Both holders have the same classic assertions, each one with and without a failure
message.
-/

namespace AssertionLint.Reference

/-- The assertions and the starting points of constraints. -/
def framework : NamespaceStub where
  name := "NUnit.Framework"
  usings := ["System", "System.Collections", "NUnit.Framework.Constraints"]
  groups := [
    [{ kind := .delegate, name := "TestDelegate", body := .delegate void }],
    [{ kind := .class, name := "TestAttribute", bases := [named "Attribute"] },
     { kind := .class, name := "TestFixtureAttribute", bases := [named "Attribute"] },
     { kind := .class, name := "TestCaseAttribute", bases := [named "Attribute"]
       body := .block [
         .constructor [rest (arrayOf object) "arguments"]] }],
    [{ kind := .class, name := "Is", modifiers := ["abstract"]
       body := .block ([
         .property ["static"] (named "ConstraintExpression") "Not",
         .property ["static"] (named "ConstraintExpression") "All"] ++ testMembers ["static"]) }],
    [{ kind := .class, name := "Has", modifiers := ["static"]
       body := .block [
         .property ["static"] (named "ConstraintExpression") "No",
         .property ["static"] (named "ConstraintExpression") "All",
         .property ["static"] (named "ConstraintExpression") "Some",
         .property ["static"] (named "ConstraintExpression") "None",
         .property ["static"] (named "ResolvableConstraintExpression") "Count",
         .property ["static"] (named "ResolvableConstraintExpression") "Length",
         .property ["static"] (named "ResolvableConstraintExpression") "Message",
         .method ["static"] (named "ResolvableConstraintExpression") "Property" []
           [param string "name"],
         .method ["static"] (named "ItemsConstraintExpression") "Exactly" []
           [param int "expectedCount"],
         .method ["static"] (named "SomeItemsConstraint") "Member" [] [param object "expected"]] }],
    [{ kind := .class, name := "Does", modifiers := ["static"]
       body := .block [
         .property ["static"] (named "ConstraintExpression") "Not",
         .method ["static"] (named "SomeItemsConstraint") "Contain" [] [param object "expected"],
         .method ["static"] (named "ContainsConstraint") "Contain" [] [param string "expected"],
         .method ["static"] (named "StartsWithConstraint") "StartWith" [] [param string "expected"],
         .method ["static"] (named "EndsWithConstraint") "EndWith" [] [param string "expected"],
         .method ["static"] (named "RegexConstraint") "Match" [] [param string "pattern"]] }],
    [{ kind := .class, name := "Contains", modifiers := ["static"]
       body := .block [
         .method ["static"] (named "SomeItemsConstraint") "Item" [] [param object "expected"],
         .method ["static"] (named "SubstringConstraint") "Substring" []
           [param string "expected"]] }],
    [{ kind := .class, name := "Throws", modifiers := ["abstract"]
       body := .block [
         .property ["static"] (named "ResolvableConstraintExpression") "Exception",
         .property ["static"] (named "ThrowsNothingConstraint") "Nothing",
         .method ["static"] (named "ExactTypeConstraint") "TypeOf" []
           [param (named "Type") "expectedType"],
         .method ["static"] (named "ExactTypeConstraint") "TypeOf" ["TExpected"] [],
         .method ["static"] (named "InstanceOfTypeConstraint") "InstanceOf" []
           [param (named "Type") "expectedType"],
         .method ["static"] (named "InstanceOfTypeConstraint") "InstanceOf" ["TExpected"] []] }],
    [{ kind := .class, name := "Assert"
       body := .block ([
         .method ["static"] void "That" [] [param bool "condition"],
         .method ["static"] void "That" [] [param bool "condition", param string "message",
           rest (arrayOf object) "args"],
         .method ["static"] void "That" ["TActual"] [param (named "TActual") "actual",
           param (named "IResolveConstraint") "expression"],
         .method ["static"] void "That" ["TActual"] [param (named "TActual") "actual",
           param (named "IResolveConstraint") "expression", param string "message",
           rest (arrayOf object) "args"],
         .method ["static"] void "Pass" [] [],
         .method ["static"] void "Fail" [] [param string "message"],
         .method ["static"] void "Ignore" [] [param string "message"],
         .method ["static"] void "Inconclusive" [] [param string "message"],
         .method ["static"] void "Multiple" [] [param (named "TestDelegate") "testDelegate"]] ++
         classicMembers ++ [.gap]) }]]

/-- The holder of the classic assertions alone. -/
def legacy : NamespaceStub where
  name := "NUnit.Framework.Legacy"
  usings := ["System", "System.Collections"]
  groups := [
    [{ kind := .class, name := "ClassicAssert"
       body := .block (classicMembers ++ [.gap]) }]]

end AssertionLint.Reference
