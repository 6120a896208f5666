import AssertionLint.Reference.Vocabulary

/-!
# Classic assertions

The classic assertions with their parameters. Every overload exists a second time with a failure
message and the values for it.
-/

namespace AssertionLint.Reference

/-- An overload of a classic assertion without a failure message. -/
structure ClassicOverload where
  method : String
  typeParameters : List String
  parameters : List ParameterDecl
  deriving Inhabited

/-- The overload itself and the one with a failure message. -/
def ClassicOverload.members (overload : ClassicOverload) : List StubMember :=
  [.method ["static"] void overload.method overload.typeParameters overload.parameters,
    .method ["static"] void overload.method overload.typeParameters
      (overload.parameters ++ [param string "message", rest (arrayOf object) "args"])]

/-- One overload of each method for each list of parameters. -/
def overloads (methods : List String) (parameters : List (List ParameterDecl)) :
    List ClassicOverload :=
  methods.flatMap fun method => parameters.map fun list => ⟨method, [], list⟩

/-- The types whose values classic assertions compare as numbers. -/
def numberTypes : List TypeExpr := [int, uint, long, ulong, decimal, double, float]

/-- Every overload of a classic assertion without a failure message. -/
def classicOverloads : List ClassicOverload :=
  overloads ["True", "IsTrue", "False", "IsFalse"]
    [[param (nullable bool) "condition"], [param bool "condition"]] ++
  overloads ["Null", "IsNull", "NotNull", "IsNotNull"] [[param object "anObject"]] ++
  overloads ["IsNaN"] [[param double "aDouble"], [param (nullable double) "aDouble"]] ++
  overloads ["IsEmpty", "IsNotEmpty"]
    [[param string "aString"], [param (named "IEnumerable") "collection"]] ++
  overloads ["AreEqual"]
    [[param double "expected", param double "actual", param double "delta"],
      [param double "expected", param (nullable double) "actual", param double "delta"]] ++
  overloads ["AreEqual", "AreNotEqual", "AreSame", "AreNotSame"]
    [[param object "expected", param object "actual"]] ++
  overloads ["Contains"] [[param object "expected", param (named "ICollection") "actual"]] ++
  overloads ["Zero", "NotZero", "Positive", "Negative"]
    (numberTypes.map fun type => [param type "actual"]) ++
  overloads ["Greater", "GreaterOrEqual", "Less", "LessOrEqual"]
    ((numberTypes ++ [named "IComparable"]).map fun type =>
      [param type "arg1", param type "arg2"]) ++
  ["IsInstanceOf", "IsNotInstanceOf", "IsAssignableFrom", "IsNotAssignableFrom"].flatMap
    fun method => [⟨method, [], [param (named "Type") "expected", param object "actual"]⟩,
      ⟨method, ["TExpected"], [param object "actual"]⟩]

/-- The members of a holder of classic assertions. -/
def classicMembers : List StubMember := classicOverloads.flatMap (·.members)

end AssertionLint.Reference
