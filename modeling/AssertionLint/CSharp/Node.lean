import AssertionLint.CSharp.Token
import AssertionLint.Symbols.TypeSymbol

/-!
# Concrete syntax

The tree that the grammar builds over the tokens of a document. A node has a form, a span and
children in source order; punctuation and keywords are nodes as well, comments are not. Where the
form and the order of the children do not tell what a child is for, the child carries a role.

Analysis looks into some forms of expressions and knows the others by their names only; the
classification of forms (`Form.isExpression`, `Form.isType`) decides where the search for
outermost expressions stops.
-/

namespace AssertionLint

/-- What a child is to its parent. -/
inductive Role
  | name
  | type
  | operator
  | parameters
  | value
  | left
  | right
  | body
  deriving DecidableEq, Repr, Inhabited

/-- The forms of nodes. -/
inductive Form
  /-- A keyword or a mark. -/
  | token (text : String)
  /-- A modifier of a declaration. -/
  | modifier (text : String)
  | identifier (text : String)
  | genericName
  | qualifiedName
  | aliasQualifiedName
  | predefinedType (keyword : String)
  | arrayType
  | nullableType
  /-- A pointer, a tuple, a reference or a function pointer. -/
  | otherType
  | typeArgumentList
  | rankSpecifier
  | literal (kind : LiteralKind) (text : String)
  | interpolatedString
  | parenthesized
  | memberAccess
  | invocation
  | binary
  | prefixUnary
  | cast
  | conditional
  | objectCreation
  | arrayCreation
  | implicitArrayCreation
  | typeOf
  | lambda
  | initializer
  /-- An expression that is known by its name only. -/
  | otherExpression (name : String)
  | argumentList
  | argument
  | parameterList
  | parameter
  | typeParameterList
  | typeParameter
  | attributeList
  | arrowClause
  | block
  | switchSection
  | forStatement
  | usingStatement
  | fixedStatement
  | foreachStatement
  | localFunction
  /-- Any other statement. -/
  | statement
  | variableDeclaration
  | declarator
  | usingDirective
  | namespaceDeclaration
  | fileScopedNamespace
  | globalStatement
  | typeDeclaration (kind : TypeKind)
  | delegateDeclaration
  | baseList
  | declarationList
  | enumMember
  | methodDeclaration
  | constructorDeclaration
  | operatorDeclaration
  | conversionDeclaration
  | propertyDeclaration
  | indexerDeclaration
  | eventDeclaration
  | fieldDeclaration
  | accessorList
  | accessor
  /-- A node that only groups its children, such as a clause or a pattern. -/
  | group
  /-- Tokens that fit no rule. -/
  | error
  deriving DecidableEq, Repr, Inhabited

namespace Form

/-- The name of the form of an expression that analysis may not look into. -/
def expressionName : Form → String
  | token text => text
  | otherExpression name => name
  | initializer => "initializer_expression"
  | parenthesized => "parenthesized_expression"
  | memberAccess => "member_access_expression"
  | invocation => "invocation_expression"
  | binary => "binary_expression"
  | prefixUnary => "prefix_unary_expression"
  | cast => "cast_expression"
  | conditional => "conditional_expression"
  | objectCreation => "object_creation_expression"
  | typeOf => "typeof_expression"
  | qualifiedName => "qualified_name"
  | aliasQualifiedName => "alias_qualified_name"
  | _ => ""

/-- The form has a meaning of its own; keywords and marks have none. -/
def isNamed : Form → Bool
  | token _ => false
  | _ => true

/-- Where a node of this form stands in a statement, it is an expression. -/
def isExpression : Form → Bool
  | identifier _ | genericName | literal .. | interpolatedString | parenthesized | memberAccess
  | invocation | binary | prefixUnary | cast | conditional | objectCreation | arrayCreation
  | implicitArrayCreation | typeOf | lambda | initializer | otherExpression _ => true
  | _ => false

/-- A node of this form can be a type. -/
def isType : Form → Bool
  | predefinedType _ | identifier _ | genericName | qualifiedName | aliasQualifiedName | arrayType
  | nullableType | otherType => true
  | _ => false

/-- An error anywhere inside such a node spoils all of it. -/
def isStatement : Form → Bool
  | forStatement | usingStatement | fixedStatement | foreachStatement | localFunction | statement =>
    true
  | _ => false

/-- Locals that are declared directly in such a node are visible in all of it. -/
def isScope : Form → Bool
  | block | switchSection | forStatement | usingStatement | fixedStatement => true
  | _ => false

end Form

/-- A node of the concrete syntax. -/
inductive Node
  | mk (role : Option Role) (form : Form) (span : Span) (children : List Node)
  deriving Inhabited

namespace Node

def role : Node → Option Role
  | mk role _ _ _ => role

def form : Node → Form
  | mk _ form _ _ => form

def span : Node → Span
  | mk _ _ span _ => span

/-- The direct parts of a node in source order. -/
def children : Node → List Node
  | mk _ _ _ children => children

theorem sizeOf_lt_of_mem_children {node child : Node} (member : child ∈ node.children) :
    sizeOf child < sizeOf node := by
  rcases node with ⟨role, form, span, children⟩
  have := List.sizeOf_lt_of_mem (show child ∈ children from member)
  simp
  omega

/-- A node without parts. -/
def leaf (form : Form) (span : Span) : Node := mk none form span []

/-- A keyword or a mark. -/
def ofToken (token : Token) : Node := leaf (.token token.text) token.span

/-- From the start of the first node to the end of the last one. -/
def cover (nodes : List Node) : Span :=
  ⟨(nodes.head?.map (·.span.start)).getD 0, (nodes.getLast?.map (·.span.stop)).getD 0⟩

/-- A node that covers its parts. -/
def branch (form : Form) (children : List Node) : Node := mk none form (cover children) children

def withRole (role : Role) : Node → Node
  | mk _ form span children => mk (some role) form span children

/-- The parts that are neither keywords nor marks. -/
def namedChildren (node : Node) : List Node := node.children.filter (·.form.isNamed)

/-- The first part in a role. -/
def child? (node : Node) (role : Role) : Option Node :=
  node.children.find? fun child => child.role == some role

/-- The first part of a form. -/
def childOfForm? (node : Node) (form : Form) : Option Node :=
  node.children.find? fun child => child.form == form

def tokenText? (node : Node) : Option String :=
  match node.form with
  | .token text => some text
  | _ => none

/-- The node is the given keyword or mark. -/
def isToken (node : Node) (text : String) : Bool := node.form == .token text

/-- The text of a leaf that is a word. -/
def word? (node : Node) : Option String :=
  match node.form with
  | .token text | .modifier text | .identifier text | .predefinedType text => some text
  | _ => none

/-- Some part of the node fits no rule. -/
def hasError (node : Node) : Bool :=
  node.form == .error || node.children.attach.any fun ⟨child, _⟩ => child.hasError
termination_by sizeOf node
decreasing_by exact sizeOf_lt_of_mem_children ‹_›

/-- A call somewhere in the node declares a variable in an argument without `out`. -/
def hasMalformedArgument (node : Node) : Bool :=
  (node.form == .argument && !node.children.any (·.isToken "out") &&
    node.children.any (·.form == .otherExpression "declaration_expression")) ||
  node.children.attach.any fun ⟨child, _⟩ => child.hasMalformedArgument
termination_by sizeOf node
decreasing_by exact sizeOf_lt_of_mem_children ‹_›

end Node

end AssertionLint
