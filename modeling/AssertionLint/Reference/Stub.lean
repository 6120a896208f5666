import AssertionLint.CSharp.Node.Declared

/-!
# Stubs

A stub says what a library type declares, without bodies. From one stub come both its declaration,
which names are looked up in, and its text in C#, in which every member ends with a semicolon.
-/

namespace AssertionLint

/-- A member of a stub. -/
inductive StubMember
  | method (modifiers : List String) (returns : TypeExpr) (name : String)
      (typeParameters : List String) (parameters : List ParameterDecl)
  | constructor (parameters : List ParameterDecl)
  | operator (returns : TypeExpr) (token : String) (parameters : List ParameterDecl)
  | property (modifiers : List String) (type : TypeExpr) (name : String)
  | field (modifiers : List String) (type : TypeExpr) (name : String)
  /-- An empty line in the text. -/
  | gap
  deriving Inhabited

/-- What follows the head of a stub. -/
inductive StubBody
  /-- All members stand on the line of the head. -/
  | inline (members : List StubMember)
  /-- Each member stands on a line of its own. -/
  | block (members : List StubMember)
  /-- The constants of an enumeration. -/
  | constants (names : List String)
  /-- A delegate without parameters. -/
  | delegate (returns : TypeExpr)
  deriving Inhabited

/-- A type parameter, with `in` or `out` in front if values go one way only. -/
structure StubTypeParameter where
  name : String
  variance : String := ""
  deriving Inhabited

/-- A type of a library. -/
structure TypeStub where
  kind : TypeKind
  name : String
  modifiers : List String := []
  typeParameters : List StubTypeParameter := []
  bases : List TypeExpr := []
  /-- What the type parameters have to be. -/
  clause : String := ""
  body : StubBody := .inline []
  deriving Inhabited

/-- A namespace of a library; an empty line stands between two groups of types. -/
structure NamespaceStub where
  name : String
  usings : List String := []
  groups : List (List TypeStub)
  deriving Inhabited

namespace StubMember

/-- The method that a member of the given type declares. -/
def toMethod? (owner : TypeStub) : StubMember → Option MethodDecl
  | method modifiers returns name typeParameters parameters => some
    { name, kind := .ordinary, typeParameters, parameters, returnType := returns
      isStatic := modifiers.contains "static" || owner.modifiers.contains "static" }
  | constructor parameters => some
    { name := ".ctor", kind := .constructor, typeParameters := [], parameters
      returnType := .named none owner.name [] none, isStatic := false }
  | operator returns token parameters => some
    { name := token, kind := .operator, typeParameters := [], parameters, returnType := returns
      isStatic := true }
  | _ => none

/-- The property that a member declares. -/
def toProperty? (owner : TypeStub) : StubMember → Option PropertyDecl
  | property modifiers type name => some
    { name, type
      isStatic := modifiers.contains "static" || owner.modifiers.contains "static" }
  | _ => none

/-- The field that a member declares. -/
def toField? (owner : TypeStub) : StubMember → Option FieldDecl
  | field modifiers type name => some
    { name, type, isConst := false
      isStatic := modifiers.contains "static" || owner.modifiers.contains "static" }
  | _ => none

def parametersText (parameters : List ParameterDecl) : String :=
  "(" ++ ", ".intercalate (parameters.map (·.summary "")) ++ ")"

/-- The text of words with a blank behind each. -/
def wordsText (words : List String) : String := String.join (words.map (· ++ " "))

/-- The text of a member; the members of an interface are public without saying so. -/
def text (owner : TypeStub) (member : StubMember) : String :=
  let access := if owner.kind = .interface then [] else ["public"]
  match member with
  | method modifiers returns name typeParameters parameters =>
    wordsText (access ++ modifiers) ++ returns.render "" ++ " " ++ name ++
      (if typeParameters.isEmpty then "" else "<" ++ ", ".intercalate typeParameters ++ ">") ++
      parametersText parameters ++ ";"
  | constructor parameters => wordsText access ++ owner.name ++ parametersText parameters ++ ";"
  | operator returns token parameters =>
    wordsText (access ++ ["static"]) ++ returns.render "" ++ " operator " ++ token ++
      parametersText parameters ++ ";"
  | property modifiers type name =>
    wordsText (access ++ modifiers) ++ type.render "" ++ " " ++ name ++ " \x7b get; \x7d"
  | field modifiers type name =>
    wordsText (access ++ modifiers) ++ type.render "" ++ " " ++ name ++ ";"
  | gap => ""

end StubMember

namespace TypeStub

def members (stub : TypeStub) : List StubMember :=
  match stub.body with
  | .inline members | .block members => members
  | .constants _ | .delegate _ => []

/-- The constants of an enumeration. -/
def constants (stub : TypeStub) : List FieldDecl :=
  match stub.body with
  | .constants names => names.map fun name =>
    { name, type := .named none stub.name [] none, isStatic := true, isConst := true }
  | _ => []

/-- The declaration of a type in a namespace. -/
def declaration (enclosing : String) (stub : TypeStub) : TypeDecl :=
  { TypeDecl.empty stub.name enclosing stub.kind with
    isStatic := stub.modifiers.contains "static"
    isRefLike := stub.modifiers.contains "ref"
    typeParameters := stub.typeParameters.map (·.name)
    bases := stub.bases
    methods := stub.members.filterMap (·.toMethod? stub)
    properties := stub.members.filterMap (·.toProperty? stub)
    fields := stub.constants ++ stub.members.filterMap (·.toField? stub) }

def keyword : TypeKind → String
  | .struct => "struct"
  | .interface => "interface"
  | .enum => "enum"
  | .delegate => "delegate"
  | _ => "class"

/-- The text of the name and the type parameters of a type. -/
def nameText (stub : TypeStub) : String :=
  stub.name ++
    if stub.typeParameters.isEmpty then ""
    else "<" ++ ", ".intercalate (stub.typeParameters.map fun parameter =>
      parameter.variance ++ (if parameter.variance.isEmpty then "" else " ") ++
        parameter.name) ++ ">"

/-- The text of everything in front of the body of a type. -/
def headText (stub : TypeStub) : String :=
  StubMember.wordsText ("public" :: stub.modifiers ++ [keyword stub.kind]) ++ stub.nameText ++
    (if stub.bases.isEmpty then ""
      else " : " ++ ", ".intercalate (stub.bases.map (·.render ""))) ++ stub.clause

def lines (stub : TypeStub) : List String :=
  match stub.body with
  | .inline [] => [stub.headText ++ " \x7b \x7d"]
  | .inline members =>
    [stub.headText ++ " \x7b " ++ " ".intercalate (members.map (·.text stub)) ++ " \x7d"]
  | .block members =>
    [stub.headText, "\x7b"] ++
      members.map (fun member =>
        match member with
        | .gap => ""
        | _ => "    " ++ member.text stub) ++ ["\x7d"]
  | .constants names =>
    [stub.headText, "\x7b"] ++
      (names.dropLast.map fun name => "    " ++ name ++ ",") ++
      (names.getLast?.toList.map ("    " ++ ·)) ++ ["\x7d"]
  | .delegate returns =>
    ["public delegate " ++ returns.render "" ++ " " ++ stub.nameText ++ "();"]

end TypeStub

namespace NamespaceStub

/-- The types of a namespace. -/
def types (stub : NamespaceStub) : List TypeStub := stub.groups.flatten

/-- The declarations of a namespace added to others. -/
def addTo (declarations : Declarations) (stub : NamespaceStub) : Declarations :=
  let opened := stub.usings.foldl Declarations.addUsing (declarations.addNamespace stub.name)
  { opened with types := opened.types ++ stub.types.map (·.declaration stub.name) }

/-- A line inside a namespace; an empty line stays empty. -/
def indented (line : String) : String := if line.isEmpty then "" else "    " ++ line

def lines (stub : NamespaceStub) : List String :=
  let usings := stub.usings.map fun name => "using " ++ name ++ ";"
  let groups := stub.groups.map fun group => group.flatMap (·.lines)
  let parts := if usings.isEmpty then groups else usings :: groups
  ["namespace " ++ stub.name, "\x7b"] ++ ([""].intercalate parts).map indented ++ ["\x7d"]

end NamespaceStub

end AssertionLint
