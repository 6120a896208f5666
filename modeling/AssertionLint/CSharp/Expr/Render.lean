import AssertionLint.CSharp.Expr

/-!
# Rendering

Writes a tree back as text. A node whose span ends inside the source is copied from there, which
keeps comments and layout; any other node is written by its structure.
-/

namespace AssertionLint

/-- Copies the text of a span that ends inside the source, or writes a node by its structure. -/
def copyOr (source : String) (span : Option Span) (written : Unit → String) : String :=
  match span.bind (·.textWithin? source) with
  | some text => text
  | none => written ()

mutual

def TypeExpr.render (source : String) : TypeExpr → String
  | .predefined keyword span => copyOr source span fun _ => keyword
  | .named qualifier name typeArguments span => copyOr source span fun _ =>
    renderQualifier source qualifier ++ name ++
      (match typeArguments with
        | [] => ""
        | first :: rest => "<" ++ first.render source ++ renderFollowing source rest ++ ">")
  | .array element rank span => copyOr source span fun _ =>
    element.render source ++ "[" ++ String.ofList (List.replicate (rank - 1) ',') ++ "]"
  | .nullable inner span => copyOr source span fun _ => inner.render source ++ "?"
  | .inferred span => copyOr source span fun _ => "var"
  | .other text span => copyOr source span fun _ => text

/-- Writes a qualifier and the dot behind it. -/
def TypeExpr.renderQualifier (source : String) : Option TypeExpr → String
  | none => ""
  | some qualifier => qualifier.render source ++ "."

/-- Writes types with a comma in front of each. -/
def TypeExpr.renderFollowing (source : String) : List TypeExpr → String
  | [] => ""
  | type :: rest => ", " ++ type.render source ++ renderFollowing source rest

end

/-- Writes type arguments in angle brackets. -/
def TypeExpr.renderArguments (source : String) : List TypeExpr → String
  | [] => "<>"
  | first :: rest => "<" ++ first.render source ++ renderFollowing source rest ++ ">"

def SimpleName.render (source : String) (name : SimpleName) : String :=
  copyOr source name.span fun _ =>
    name.identifier ++
      match name.typeArguments with
      | some typeArguments => TypeExpr.renderArguments source typeArguments
      | none => ""

mutual

def Expr.render (source : String) : Expr → String
  | .name simple span => copyOr source span fun _ => simple.render source
  | .predefinedType keyword span => copyOr source span fun _ => keyword
  | .memberAccess target member span => copyOr source span fun _ =>
    target.render source ++ "." ++ member.render source
  | .invocation target arguments span => copyOr source span fun _ =>
    target.render source ++ arguments.render source
  | .binary operator left right span => copyOr source span fun _ =>
    left.render source ++ " " ++ operator.token ++ " " ++ right.render source
  | .unary operator operand span => copyOr source span fun _ =>
    operator.token ++ operand.render source
  | .parenthesized inner span => copyOr source span fun _ => "(" ++ inner.render source ++ ")"
  | .literal written span => copyOr source span fun _ => written.text
  | .interpolatedString verbatim parts span => copyOr source span fun _ =>
    (if verbatim then "$@\"" else "$\"") ++ Expr.renderParts source parts ++ "\""
  | .cast type operand span => copyOr source span fun _ =>
    "(" ++ type.render source ++ ")" ++ operand.render source
  | .conditional condition whenTrue whenFalse span => copyOr source span fun _ =>
    condition.render source ++ " ? " ++ whenTrue.render source ++ " : " ++ whenFalse.render source
  | .objectCreation type arguments span => copyOr source span fun _ =>
    "new " ++ type.render source ++
      match arguments with
      | some list => list.render source
      | none => "()"
  | .arrayCreation elementType elements span => copyOr source span fun _ =>
    "new" ++
      (match elementType with
        | some type => " " ++ type.render source
        | none => "") ++
      "[] \x7b " ++
      (match elements with
        | [] => ""
        | first :: rest => first.render source ++ Expr.renderFollowing source rest) ++
      " \x7d"
  | .typeOf type span => copyOr source span fun _ => "typeof(" ++ type.render source ++ ")"
  | .thisInstance span => copyOr source span fun _ => "this"
  | .lambda _ span => copyOr source span fun _ => ""
  | .other _ span => copyOr source span fun _ => ""

/-- Writes expressions with a comma in front of each. -/
def Expr.renderFollowing (source : String) : List Expr → String
  | [] => ""
  | expr :: rest => ", " ++ expr.render source ++ Expr.renderFollowing source rest

/-- Writes an argument between the trivia around it. -/
def Argument.render (source : String) : Argument → String
  | ⟨name, modifier, expression, leading, trailing, span⟩ =>
    leading ++
      (copyOr source span fun _ =>
        (match name with
          | some label => label ++ ": "
          | none => "") ++
        (match modifier with
          | some keyword => keyword ++ " "
          | none => "") ++
        expression.render source) ++
      trailing

/-- Writes arguments with a comma in front of each. -/
def Argument.renderFollowing (source : String) : List Argument → String
  | [] => ""
  | argument :: rest => "," ++ argument.render source ++ Argument.renderFollowing source rest

/-- Writes an argument list with its parentheses. -/
def ArgumentList.render (source : String) : ArgumentList → String
  | ⟨arguments, span⟩ => copyOr source span fun _ =>
    "(" ++
      (match arguments with
        | [] => ""
        | first :: rest => first.render source ++ Argument.renderFollowing source rest) ++
      ")"

/-- Writes the pieces of an interpolated string. -/
def Expr.renderParts (source : String) : List InterpolationPart → String
  | [] => ""
  | .text text :: rest => text ++ Expr.renderParts source rest
  | .hole expression alignment format :: rest =>
    "\x7b" ++ expression.render source ++
      (match alignment with
        | some width => "," ++ width
        | none => "") ++
      (match format with
        | some clause => ":" ++ clause
        | none => "") ++
      "\x7d" ++ Expr.renderParts source rest

end

end AssertionLint
