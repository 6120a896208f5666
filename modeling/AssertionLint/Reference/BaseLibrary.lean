import AssertionLint.Reference.Vocabulary

/-!
# The base library

The types of the base library that conversions, collections and strings are looked up in.
-/

namespace AssertionLint.Reference

/-- A number type, which compares with itself. -/
def numeric (name : String) (self : TypeExpr) (body : StubBody := .inline []) : TypeStub :=
  { kind := .struct, name, body
    bases := [named "IComparable", generic "IComparable" [self], named "IFormattable",
      generic "IEquatable" [self]] }

/-- The base types. -/
def system : NamespaceStub where
  name := "System"
  usings := ["System.Collections", "System.Collections.Generic"]
  groups := [
    [{ kind := .class, name := "Object"
       body := .block [
         .method ["virtual"] bool "Equals" [] [param object "obj"],
         .method ["static"] bool "Equals" [] [param object "objA", param object "objB"],
         .method ["static"] bool "ReferenceEquals" [] [param object "objA", param object "objB"],
         .method ["virtual"] int "GetHashCode" [] [],
         .method ["virtual"] string "ToString" [] [],
         .method [] (named "Type") "GetType" [] []] }],
    [{ kind := .class, name := "ValueType", modifiers := ["abstract"] },
     { kind := .class, name := "Enum", modifiers := ["abstract"], bases := [named "ValueType"] },
     { kind := .class, name := "Delegate", modifiers := ["abstract"] },
     { kind := .class, name := "Attribute" }],
    [{ kind := .interface, name := "IComparable"
       body := .inline [.method [] int "CompareTo" [] [param object "obj"]] },
     { kind := .interface, name := "IComparable", typeParameters := [⟨"T", "in"⟩]
       body := .inline [.method [] int "CompareTo" [] [param (named "T") "other"]] },
     { kind := .interface, name := "IEquatable", typeParameters := [⟨"T", ""⟩]
       body := .inline [.method [] bool "Equals" [] [param (named "T") "other"]] },
     { kind := .interface, name := "IFormattable" },
     { kind := .interface, name := "IDisposable"
       body := .inline [.method [] void "Dispose" [] []] }],
    [{ kind := .struct, name := "Void" },
     { kind := .struct, name := "Boolean"
       bases := [named "IComparable", generic "IEquatable" [bool]] },
     { kind := .struct, name := "Char"
       bases := [named "IComparable", generic "IComparable" [char], generic "IEquatable" [char]] },
     numeric "SByte" sbyte,
     numeric "Byte" byte,
     numeric "Int16" short,
     numeric "UInt16" ushort,
     numeric "Int32" int,
     numeric "UInt32" uint,
     numeric "Int64" long,
     numeric "UInt64" ulong,
     numeric "Single" float (.block [.method ["static"] bool "IsNaN" [] [param float "f"]]),
     numeric "Double" double (.block [.method ["static"] bool "IsNaN" [] [param double "d"]]),
     numeric "Decimal" decimal],
    [{ kind := .struct, name := "Nullable", typeParameters := [⟨"T", ""⟩]
       clause := " where T : struct"
       body := .block [
         .property [] bool "HasValue",
         .property [] (named "T") "Value"] }],
    [{ kind := .class, name := "String", modifiers := ["sealed"]
       bases := [named "IComparable", generic "IComparable" [string], generic "IEnumerable" [char],
         generic "IEquatable" [string]]
       body := .block [
         .field ["static", "readonly"] string "Empty",
         .property [] int "Length",
         .method [] bool "Contains" [] [param string "value"],
         .method [] bool "Contains" [] [param char "value"],
         .method [] bool "Contains" [] [param string "value",
           param (named "StringComparison") "comparisonType"],
         .method [] bool "StartsWith" [] [param string "value"],
         .method [] bool "StartsWith" [] [param char "value"],
         .method [] bool "StartsWith" [] [param string "value",
           param (named "StringComparison") "comparisonType"],
         .method [] bool "EndsWith" [] [param string "value"],
         .method [] bool "EndsWith" [] [param char "value"],
         .method [] bool "EndsWith" [] [param string "value",
           param (named "StringComparison") "comparisonType"],
         .method [] bool "Equals" [] [param string "value"],
         .method ["static"] bool "Equals" [] [param string "a", param string "b"],
         .method ["static"] string "Format" [] [param string "format",
           rest (arrayOf object) "args"],
         .method ["static"] bool "IsNullOrEmpty" [] [param string "value"],
         .method ["static"] string "Concat" [] [param string "str0", param string "str1"],
         .method [] string "Substring" [] [param int "startIndex"],
         .method [] string "ToUpper" [] [],
         .method [] string "ToLower" [] [],
         .method [] string "Trim" [] [],
         .operator bool "==" [param string "a", param string "b"],
         .operator bool "!=" [param string "a", param string "b"]] }],
    [{ kind := .enum, name := "StringComparison"
       body := .constants ["CurrentCulture", "CurrentCultureIgnoreCase", "InvariantCulture",
         "InvariantCultureIgnoreCase", "Ordinal", "OrdinalIgnoreCase"] }],
    [{ kind := .class, name := "Type", modifiers := ["abstract"]
       body := .block [
         .property [] string "Name",
         .property [] string "FullName"] }],
    [{ kind := .class, name := "Array", modifiers := ["abstract"]
       bases := [named "ICollection", named "IEnumerable"]
       body := .block [
         .property [] int "Length"] }],
    [{ kind := .class, name := "Exception"
       body := .block [
         .constructor [],
         .constructor [param string "message"],
         .property ["virtual"] string "Message"] },
     { kind := .class, name := "ArgumentException", bases := [named "Exception"] },
     { kind := .class, name := "InvalidOperationException", bases := [named "Exception"] }],
    [{ kind := .struct, name := "Span", modifiers := ["ref"], typeParameters := [⟨"T", ""⟩]
       body := .block [
         .property [] int "Length",
         .property [] bool "IsEmpty",
         .operator bool "==" [param (generic "Span" [named "T"]) "left",
           param (generic "Span" [named "T"]) "right"],
         .operator bool "!=" [param (generic "Span" [named "T"]) "left",
           param (generic "Span" [named "T"]) "right"]] }],
    [{ kind := .struct, name := "ReadOnlySpan", modifiers := ["readonly", "ref"]
       typeParameters := [⟨"T", ""⟩]
       body := .block [
         .property [] int "Length",
         .property [] bool "IsEmpty",
         .operator bool "==" [param (generic "ReadOnlySpan" [named "T"]) "left",
           param (generic "ReadOnlySpan" [named "T"]) "right"],
         .operator bool "!=" [param (generic "ReadOnlySpan" [named "T"]) "left",
           param (generic "ReadOnlySpan" [named "T"]) "right"]] }],
    [{ kind := .struct, name := "DateTime"
       bases := [named "IComparable", generic "IComparable" [named "DateTime"],
         generic "IEquatable" [named "DateTime"]]
       body := .block [
         .property ["static"] (named "DateTime") "Now"] },
     { kind := .struct, name := "TimeSpan"
       bases := [named "IComparable", generic "IComparable" [named "TimeSpan"],
         generic "IEquatable" [named "TimeSpan"]] },
     { kind := .struct, name := "Guid"
       bases := [named "IComparable", generic "IEquatable" [named "Guid"]]
       body := .block [
         .method ["static"] (named "Guid") "NewGuid" [] []] }],
    [{ kind := .delegate, name := "Action", body := .delegate void },
     { kind := .delegate, name := "Func", typeParameters := [⟨"TResult", "out"⟩]
       body := .delegate (named "TResult") }]]

/-- The untyped collection interfaces. -/
def collections : NamespaceStub where
  name := "System.Collections"
  groups := [
    [{ kind := .interface, name := "IEnumerable" },
     { kind := .interface, name := "ICollection", bases := [named "IEnumerable"]
       body := .block [
         .property [] int "Count"] },
     { kind := .interface, name := "IList", bases := [named "ICollection"] }]]

/-- The typed collections. -/
def genericCollections : NamespaceStub where
  name := "System.Collections.Generic"
  groups := [
    [{ kind := .interface, name := "IEnumerable", typeParameters := [⟨"T", "out"⟩]
       bases := [named "IEnumerable"] },
     { kind := .interface, name := "IReadOnlyCollection", typeParameters := [⟨"T", "out"⟩]
       bases := [generic "IEnumerable" [named "T"]]
       body := .block [
         .property [] int "Count"] },
     { kind := .interface, name := "ICollection", typeParameters := [⟨"T", ""⟩]
       bases := [generic "IEnumerable" [named "T"]]
       body := .block [
         .property [] int "Count",
         .method [] bool "Contains" [] [param (named "T") "item"],
         .method [] void "Add" [] [param (named "T") "item"]] },
     { kind := .interface, name := "IList", typeParameters := [⟨"T", ""⟩]
       bases := [generic "ICollection" [named "T"]] },
     { kind := .interface, name := "ISet", typeParameters := [⟨"T", ""⟩]
       bases := [generic "ICollection" [named "T"]] },
     { kind := .struct, name := "KeyValuePair", typeParameters := [⟨"TKey", ""⟩, ⟨"TValue", ""⟩]
       body := .block [
         .property [] (named "TKey") "Key",
         .property [] (named "TValue") "Value"] },
     { kind := .interface, name := "IDictionary"
       typeParameters := [⟨"TKey", ""⟩, ⟨"TValue", ""⟩]
       bases := [generic "ICollection" [generic "KeyValuePair" [named "TKey", named "TValue"]]]
       body := .block [
         .method [] bool "ContainsKey" [] [param (named "TKey") "key"]] }],
    [{ kind := .class, name := "List", typeParameters := [⟨"T", ""⟩]
       bases := [generic "IList" [named "T"], generic "IReadOnlyCollection" [named "T"],
         named "IList"]
       body := .block [
         .constructor [],
         .property [] int "Count",
         .method [] bool "Contains" [] [param (named "T") "item"],
         .method [] void "Add" [] [param (named "T") "item"]] }],
    [{ kind := .class, name := "HashSet", typeParameters := [⟨"T", ""⟩]
       bases := [generic "ISet" [named "T"], generic "IReadOnlyCollection" [named "T"]]
       body := .block [
         .constructor [],
         .property [] int "Count",
         .method [] bool "Contains" [] [param (named "T") "item"],
         .method [] bool "Add" [] [param (named "T") "item"]] }],
    [{ kind := .class, name := "Dictionary", typeParameters := [⟨"TKey", ""⟩, ⟨"TValue", ""⟩]
       bases := [generic "IDictionary" [named "TKey", named "TValue"],
         generic "IReadOnlyCollection" [generic "KeyValuePair" [named "TKey", named "TValue"]]]
       body := .block [
         .constructor [],
         .property [] int "Count",
         .method [] bool "ContainsKey" [] [param (named "TKey") "key"],
         .method [] bool "ContainsValue" [] [param (named "TValue") "value"],
         .method [] void "Add" [] [param (named "TKey") "key", param (named "TValue") "value"]] }]]

/-- The extension methods of typed sequences. -/
def linq : NamespaceStub where
  name := "System.Linq"
  usings := ["System.Collections.Generic"]
  groups := [
    [{ kind := .class, name := "Enumerable", modifiers := ["static"]
       body := .block [
         .method ["static"] bool "Contains" ["TSource"]
           [receiver (generic "IEnumerable" [named "TSource"]) "source",
           param (named "TSource") "value"],
         .method ["static"] bool "Any" ["TSource"]
           [receiver (generic "IEnumerable" [named "TSource"]) "source"],
         .method ["static"] int "Count" ["TSource"]
           [receiver (generic "IEnumerable" [named "TSource"]) "source"],
         .method ["static"] (named "TSource") "First" ["TSource"]
           [receiver (generic "IEnumerable" [named "TSource"]) "source"],
         .method ["static"] (generic "List" [named "TSource"]) "ToList" ["TSource"]
           [receiver (generic "IEnumerable" [named "TSource"]) "source"],
         .method ["static"] (arrayOf (named "TSource")) "ToArray" ["TSource"]
           [receiver (generic "IEnumerable" [named "TSource"]) "source"]] }]]

end AssertionLint.Reference
