import AssertionLint.CSharp.Expr

/-!
# Tokens

The words of a document. Comments, white space and most directives are no tokens: they only show
as gaps between the spans of the tokens around them. The directives that open, split and close a
conditional group are tokens, and so is the end of their line.
-/

namespace AssertionLint

/-- What a token is. -/
inductive TokenKind
  /-- A name; the words that are reserved only in some places count as names. -/
  | identifier
  /-- A reserved word. -/
  | keyword
  /-- An operator, a bracket or a separator. -/
  | mark
  /-- A literal that is one token. -/
  | literal (kind : LiteralKind)
  /-- The start of an interpolated string up to its first quotes. -/
  | interpolationStart
  /-- Text, or a format behind a hole, inside an interpolated string. -/
  | interpolationText
  /-- The quotes that end an interpolated string. -/
  | interpolationEnd
  /-- One of the directives of conditional groups. -/
  | directive
  /-- The end of the line of such a directive. -/
  | lineEnd
  deriving DecidableEq, Repr, Inhabited

/-- A token with its place in the document. -/
structure Token where
  kind : TokenKind
  text : String
  span : Span
  deriving DecidableEq, Repr, Inhabited

namespace Token

/-- The words that are never names. -/
def keywords : List String :=
  ["abstract", "as", "base", "bool", "break", "byte", "case", "catch", "char", "checked", "class",
    "const", "continue", "decimal", "default", "delegate", "do", "double", "else", "enum", "event",
    "explicit", "extern", "false", "finally", "fixed", "float", "for", "foreach", "goto", "if",
    "implicit", "in", "int", "interface", "internal", "is", "lock", "long", "namespace", "new",
    "null", "object", "operator", "out", "override", "params", "private", "protected", "public",
    "readonly", "ref", "return", "sbyte", "sealed", "short", "sizeof", "stackalloc", "static",
    "string", "struct", "switch", "this", "throw", "true", "try", "typeof", "uint", "ulong",
    "unchecked", "unsafe", "ushort", "using", "virtual", "void", "volatile", "while"]

/-- The keywords that are types, and the two native integers. -/
def typeKeywords : List String :=
  ["bool", "byte", "char", "decimal", "double", "float", "int", "long", "object", "sbyte", "short",
    "string", "uint", "ulong", "ushort", "nint", "nuint", "void"]

/-- The kind of a word. -/
def kindOfWord (text : String) : TokenKind :=
  if keywords.contains text then .keyword else .identifier

/-- The token is the given keyword, contextual word or mark. -/
def is (token : Token) (text : String) : Bool :=
  match token.kind with
  | .identifier | .keyword | .mark | .directive => token.text == text
  | _ => false

/-- The token is one of the given keywords, contextual words and marks. -/
def isOneOf (token : Token) (texts : List String) : Bool := texts.any token.is

/-- The token names a built-in type. -/
def isTypeKeyword (token : Token) : Bool := token.isOneOf typeKeywords

end Token

end AssertionLint
