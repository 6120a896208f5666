import AssertionLint.CSharp.Node

/-!
# Shapes of nodes

Which children a node of a form may have. Analysis tells expressions apart by their spans, so no
expression may be the only part of another one: an only part would have the same span. A node that
stands where analysis looks for an expression is an operand (`Node.IsOperand`), and the forms whose
parts are looked up as expressions hold nothing but operands (`Form.Admits`). A list of arguments
holds its parentheses and commas as well, so that its text can be told from its parts. A loop over
a collection declares its variable in front of the collection and uses it behind. The body of a
function comes behind something else of the function, so no two functions inside each other start at
the same place.
-/

namespace AssertionLint

namespace Node

variable {form : Form} {role : Role} {node : Node} {parts : List Node} {span : Span}

@[simp]
theorem form_leaf : (leaf form span).form = form := rfl

@[simp]
theorem span_leaf : (leaf form span).span = span := rfl

@[simp]
theorem children_leaf : (leaf form span).children = [] := rfl

@[simp]
theorem form_branch : (branch form parts).form = form := rfl

@[simp]
theorem span_branch : (branch form parts).span = cover parts := rfl

@[simp]
theorem children_branch : (branch form parts).children = parts := rfl

@[simp]
theorem role_withRole : (node.withRole role).role = some role := by
  cases node
  rfl

@[simp]
theorem form_withRole : (node.withRole role).form = node.form := by
  cases node
  rfl

@[simp]
theorem span_withRole : (node.withRole role).span = node.span := by
  cases node
  rfl

@[simp]
theorem children_withRole : (node.withRole role).children = node.children := by
  cases node
  rfl

/-- The node may stand where an expression is looked for: if it has only one part, this part is a
bare mark. -/
structure IsOperand (node : Node) : Prop where
  spread : ∀ only, node.children = [only] →
    only.children = [] ∧ only.form.isExpression = false ∧ node.form ≠ .lambda
  notAccessor : node.form ≠ .accessorList ∧ node.form ≠ .accessor

theorem IsOperand.of_leaf (notAccessor : form ≠ .accessorList ∧ form ≠ .accessor) :
    (leaf form span).IsOperand :=
  ⟨fun only same => by simp at same, notAccessor⟩

theorem IsOperand.of_length (notAccessor : form ≠ .accessorList ∧ form ≠ .accessor)
    (more : 2 ≤ parts.length) : (branch form parts).IsOperand := by
  refine ⟨?_, notAccessor⟩
  intro only same
  rw [children_branch] at same
  simp [same] at more

theorem IsOperand.withRole (isOperand : node.IsOperand) (role : Role) :
    (node.withRole role).IsOperand := by
  cases node
  exact ⟨isOperand.spread, isOperand.notAccessor⟩

/-- The node is the given keyword or mark and nothing else. -/
structure IsMark (node : Node) (text : String) : Prop where
  form_eq : node.form = .token text
  bare : node.children = []

/-- The node may be the expression of an argument: it has no role in it, and the only keywords that
are expressions are `this` and `base`. -/
structure IsValue (node : Node) : Prop where
  role_eq : node.role = none
  keyword : node.form.isNamed = false → node.form = .token "this" ∨ node.form = .token "base"

theorem IsValue.leaf (named : form.isNamed = true) : (leaf form span).IsValue :=
  ⟨rfl, fun bare => by simp [named] at bare⟩

theorem IsValue.branch (named : form.isNamed = true) : (branch form parts).IsValue :=
  ⟨rfl, fun bare => by simp [named] at bare⟩

/-- An expression behind keywords, marks and a label. -/
def EndInValue (parts : List Node) : Prop :=
  ∃ front value, parts = front ++ [value] ∧ value.IsValue ∧
    ∀ part ∈ front, part.form.isNamed = false ∨ part.role = some .name

/-- Arguments with a comma between any two of them. -/
inductive AreArguments : List Node → Prop
  | single {argument : Node} (isArgument : argument.form = .argument) : AreArguments [argument]
  | cons {argument comma : Node} {following : List Node} (isArgument : argument.form = .argument)
      (isComma : comma.IsMark ",") (rest : AreArguments following) :
      AreArguments (argument :: comma :: following)

theorem areArguments_flatten {first : Node} {following : List (List Node)}
    (isArgument : first.form = .argument)
    (pairs : ∀ pair ∈ following, ∃ comma argument, pair = [comma, argument] ∧ comma.IsMark "," ∧
      argument.form = .argument) : AreArguments (first :: following.flatten) := by
  induction following generalizing first with
  | nil => exact .single isArgument
  | cons pair following ih =>
    rw [List.forall_mem_cons] at pairs
    rcases pairs.1 with ⟨comma, argument, rfl, isComma, isNext⟩
    exact .cons isArgument isComma (ih isNext pairs.2)

/-- Arguments in parentheses, if there are any. -/
inductive AreEnclosed : List Node → Prop
  | intro {opening closing : Node} {items : List Node} (opens : opening.IsMark "(")
      (arguments : items ≠ [] → AreArguments items) (closes : closing.IsMark ")") :
      AreEnclosed (opening :: items ++ [closing])

/-- The part stands in front of the collection of a loop. -/
def IsLoopHead (part : Node) : Prop :=
  part.role ≠ some .right ∧ part.role ≠ some .body

/-- A variable, the collection that it runs over, and the body of the loop. -/
inductive RunsOver : List Node → Prop
  | intro {front : List Node} {collection closing body : Node}
      (inFront : ∀ part ∈ front, part.IsLoopHead) (isCollection : collection.role = some .right)
      (isMark : closing.role = none) (isBody : body.role = some .body) :
      RunsOver (front ++ [collection, closing, body])

/-- A mark in front of other parts. -/
def StartWithMark (parts : List Node) : Prop :=
  ∃ mark following, parts = mark :: following ∧ mark.children = [] ∧ mark.form.isNamed = false

/-- The first part is no body. -/
def StartWithoutBody (parts : List Node) : Prop :=
  ∀ first ∈ parts.head?, first.role ≠ some .body

/-- A body behind other parts, none of which is a body. -/
def EndInBody (parts : List Node) : Prop :=
  ∃ front body, parts = front ++ [body] ∧ front ≠ [] ∧ ∀ part ∈ front, part.role ≠ some .body

/-- If the node is a body, then it is a block or an expression behind an arrow. -/
def IsPlaced (node : Node) : Prop :=
  node.role = some .body → node.form.isNamed = true →
    node.form = .block ∨ node.form = .arrowClause

/-- A body among the parts is a block or an expression behind an arrow. -/
def HoldBodies (parts : List Node) : Prop :=
  ∀ part ∈ parts, part.IsPlaced

theorem IsPlaced.of_role (other : node.role ≠ some .body) : node.IsPlaced :=
  fun same => absurd same other

theorem isPlaced_body (opened : node.form = .block ∨ node.form = .arrowClause) :
    (node.withRole .body).IsPlaced := by
  intro _ _
  rw [form_withRole]
  exact opened

@[simp]
theorem holdBodies_nil : HoldBodies [] :=
  List.forall_mem_nil _

@[simp]
theorem holdBodies_cons : HoldBodies (node :: parts) ↔ node.IsPlaced ∧ HoldBodies parts :=
  List.forall_mem_cons

@[simp]
theorem holdBodies_append {others : List Node} :
    HoldBodies (parts ++ others) ↔ HoldBodies parts ∧ HoldBodies others :=
  List.forall_mem_append

theorem HoldBodies.of_role (noRoles : ∀ part ∈ parts, part.role = none) : HoldBodies parts :=
  fun part isPart => .of_role (by simp [noRoles part isPart])

@[simp]
theorem startWithoutBody_cons : StartWithoutBody (node :: parts) ↔ node.role ≠ some .body := by
  simp [StartWithoutBody]

/-- Parts without roles may stand in front. -/
theorem StartWithoutBody.append {front : List Node} (starts : StartWithoutBody parts)
    (noRoles : ∀ part ∈ front, part.role = none) : StartWithoutBody (front ++ parts) := by
  cases front with
  | nil => exact starts
  | cons first rest => simp [noRoles first List.mem_cons_self]

end Node

/-- The kinds of types that declarations declare. -/
def TypeKind.isDeclared : TypeKind → Bool
  | .class | struct | .interface | enum | delegate => true
  | array | typeParameter | null | void | error => false

/-- The text that a leaf of the form stands for. -/
def Form.text? : Form → Option String
  | token text | modifier text | identifier text | predefinedType text | literal _ text => some text
  | _ => none

/-- The parts of such a node are looked up as expressions. -/
def Form.holdsOperands : Form → Bool
  | parenthesized | memberAccess | invocation | binary | prefixUnary | cast | conditional
  | initializer | argument | declarator => true
  | _ => false

/-- A part in this role is looked up as an expression. -/
def Role.holdsOperand : Role → Bool
  | value | right | body => true
  | name | type | operator | parameters | left => false

/-- Nodes of the form declare a type that may have members. -/
def Form.isTypeDeclaration : Form → Bool
  | typeDeclaration _ => true
  | _ => false

/-- Nodes of the form are searched for bodies with parameters. -/
def Form.isFunction : Form → Bool
  | methodDeclaration | constructorDeclaration | operatorDeclaration | conversionDeclaration
  | localFunction | accessor => true
  | _ => false

/-- Nodes of the form are functions or bodies of functions. -/
def Form.isBodied (form : Form) : Bool :=
  form.isFunction || form == .lambda || form == .block || form == .arrowClause

/-- Where bodies stand in a node of the form. -/
structure Form.PlacesBodies (form : Form) (parts : List Node) : Prop where
  opened : form = .block ∨ form = .arrowClause → Node.StartWithMark parts
  lambda : form = .lambda → Node.EndInBody parts
  function : form.isFunction = true → Node.HoldBodies parts

/-- If a node of the form declares a type, it is of a kind that can be declared, and its body comes
behind something else. -/
def Form.Declares (form : Form) (parts : List Node) : Prop :=
  ∀ kind, form = .typeDeclaration kind → kind.isDeclared = true ∧ Node.StartWithoutBody parts

/-- A node of the form may have the parts. -/
structure Form.Admits (form : Form) (parts : List Node) : Prop where
  nonempty : parts ≠ []
  operand : form.isExpression = true → (Node.branch form parts).IsOperand
  operands : form.holdsOperands = true → ∀ part ∈ parts, part.IsOperand
  /-- No type holds a value. -/
  untyped : form.isType = true → ∀ part ∈ parts, part.form ≠ .token "="
  declared : form = .variableDeclaration →
    ∀ part ∈ parts, part.form = .declarator ∨ part.form.isType = true ∨ part.children = []
  enclosed : form = .argumentList → Node.AreEnclosed parts
  valued : form = .argument → Node.EndInValue parts
  called : form = .invocation → ∃ target list, parts = [target, list] ∧ list.form = .argumentList
  looped : form = .foreachStatement → Node.RunsOver parts
  typed : form.Declares parts
  bodies : form.PlacesBodies parts

namespace Form

/-- Nothing is asked of the single parts of such a node, and it is no accessor. -/
def isPlain (form : Form) : Bool :=
  !form.holdsOperands && !form.isType && form != .variableDeclaration && form != .accessorList &&
    form != .accessor && form != .argumentList && form != .foreachStatement &&
    !form.isTypeDeclaration && !form.isBodied

/-- Nothing at all is asked of the parts of such a node. -/
def isFree (form : Form) : Bool :=
  !form.isExpression && !form.holdsOperands && !form.isType && form != .variableDeclaration &&
    form != .argumentList && form != .foreachStatement && !form.isTypeDeclaration &&
    !form.isBodied

variable {form : Form} {parts : List Node}

theorem PlacesBodies.of_not_isBodied (other : form.isBodied = false) :
    form.PlacesBodies parts := by
  simp only [isBodied, Bool.or_eq_false_iff, beq_eq_false_iff_ne] at other
  rcases other with ⟨⟨⟨noFunction, noLambda⟩, noBlock⟩, noClause⟩
  exact ⟨fun same => absurd same (by simp [noBlock, noClause]), fun same => absurd same noLambda,
    fun isFunction => by simp [noFunction] at isFunction⟩

theorem Declares.of_not_isTypeDeclaration (other : form.isTypeDeclaration = false) :
    form.Declares parts := by
  rintro kind rfl
  cases other

theorem notAccessor_of_isPlain (plain : form.isPlain = true) :
    form ≠ .accessorList ∧ form ≠ .accessor := by
  simp only [isPlain, Bool.and_eq_true, bne_iff_ne] at plain
  exact ⟨plain.1.1.1.1.1.2, plain.1.1.1.1.2⟩

theorem notAccessor_of_isType (isType : form.isType = true) :
    form ≠ .accessorList ∧ form ≠ .accessor := by
  constructor <;> rintro rfl <;> cases isType

theorem notAccessor_of_holdsOperands (holds : form.holdsOperands = true) :
    form ≠ .accessorList ∧ form ≠ .accessor := by
  constructor <;> rintro rfl <;> cases holds

theorem holdsOperands_of_isType (isType : form.isType = true) : form.holdsOperands = false := by
  cases form <;> first | rfl | cases isType

theorem isType_of_holdsOperands (holds : form.holdsOperands = true) : form.isType = false := by
  cases form <;> first | rfl | cases holds

theorem others_of_isType (isType : form.isType = true) :
    form.isTypeDeclaration = false ∧ form.isBodied = false := by
  cases form <;> first | exact ⟨rfl, rfl⟩ | cases isType

theorem others_of_holdsOperands (holds : form.holdsOperands = true) :
    form.isTypeDeclaration = false ∧ form.isBodied = false := by
  cases form <;> first | exact ⟨rfl, rfl⟩ | cases holds

theorem Admits.of_isFree (free : form.isFree = true) (nonempty : parts ≠ []) :
    form.Admits parts := by
  simp only [isFree, Bool.and_eq_true, Bool.not_eq_true', bne_iff_ne] at free
  rcases free with
    ⟨⟨⟨⟨⟨⟨⟨noExpression, noOperands⟩, noType⟩, noVariables⟩, noList⟩, noLoop⟩, noDeclaration⟩,
      noBody⟩
  refine ⟨nonempty, by simp [noExpression], by simp [noOperands], by simp [noType],
    fun same => absurd same noVariables, fun same => absurd same noList, ?_, ?_,
    fun same => absurd same noLoop, .of_not_isTypeDeclaration noDeclaration,
    .of_not_isBodied noBody⟩
  all_goals
    rintro rfl
    cases noOperands

theorem Admits.of_isOperand (plain : form.isPlain = true) (nonempty : parts ≠ [])
    (isOperand : (Node.branch form parts).IsOperand) : form.Admits parts := by
  simp only [isPlain, Bool.and_eq_true, Bool.not_eq_true', bne_iff_ne] at plain
  rcases plain with
    ⟨⟨⟨⟨⟨⟨⟨⟨noOperands, noType⟩, noVariables⟩, -⟩, -⟩, noList⟩, noLoop⟩, noDeclaration⟩, noBody⟩
  refine ⟨nonempty, fun _ => isOperand, by simp [noOperands], by simp [noType],
    fun same => absurd same noVariables, fun same => absurd same noList, ?_, ?_,
    fun same => absurd same noLoop, .of_not_isTypeDeclaration noDeclaration,
    .of_not_isBodied noBody⟩
  all_goals
    rintro rfl
    cases noOperands

theorem Admits.of_isPlain (plain : form.isPlain = true) (more : 2 ≤ parts.length) :
    form.Admits parts :=
  .of_isOperand plain (List.ne_nil_of_length_pos (by omega))
    (.of_length (notAccessor_of_isPlain plain) more)

theorem Admits.of_holdsOperands (holds : form.holdsOperands = true)
    (simple : form ≠ .argument ∧ form ≠ .invocation) (nonempty : parts ≠ [])
    (spread : form.isExpression = true → 2 ≤ parts.length)
    (operands : ∀ part ∈ parts, part.IsOperand) : form.Admits parts := by
  rcases others_of_holdsOperands holds with ⟨noDeclaration, noBody⟩
  refine ⟨nonempty, ?_, fun _ => operands, ?_, ?_, ?_, fun same => absurd same simple.1,
    fun same => absurd same simple.2, ?_, .of_not_isTypeDeclaration noDeclaration,
    .of_not_isBodied noBody⟩
  · intro isExpression
    exact .of_length (notAccessor_of_holdsOperands holds) (spread isExpression)
  · simp [isType_of_holdsOperands holds]
  all_goals
    rintro rfl
    cases holds

theorem Admits.of_isType (isType : form.isType = true) (more : 2 ≤ parts.length)
    (untyped : ∀ part ∈ parts, part.form ≠ .token "=") : form.Admits parts := by
  rcases others_of_isType isType with ⟨noDeclaration, noBody⟩
  refine ⟨List.ne_nil_of_length_pos (by omega), ?_, ?_, fun _ => untyped, ?_, ?_, ?_, ?_, ?_,
    .of_not_isTypeDeclaration noDeclaration, .of_not_isBodied noBody⟩
  · intro _
    exact .of_length (notAccessor_of_isType isType) more
  · simp [holdsOperands_of_isType isType]
  all_goals
    rintro rfl
    cases isType

theorem Admits.of_variableDeclaration (nonempty : parts ≠ [])
    (declared : ∀ part ∈ parts,
      part.form = .declarator ∨ part.form.isType = true ∨ part.children = []) :
    Form.variableDeclaration.Admits parts :=
  ⟨nonempty, nofun, nofun, nofun, fun _ => declared, nofun, nofun, nofun, nofun, nofun,
    .of_not_isBodied rfl⟩

theorem Admits.of_argumentList (enclosed : Node.AreEnclosed parts) :
    Form.argumentList.Admits parts :=
  ⟨by cases enclosed; simp, nofun, nofun, nofun, nofun, fun _ => enclosed, nofun, nofun, nofun,
    nofun, .of_not_isBodied rfl⟩

theorem Admits.of_argument (operands : ∀ part ∈ parts, part.IsOperand)
    (valued : Node.EndInValue parts) : Form.argument.Admits parts := by
  refine ⟨?_, nofun, fun _ => operands, nofun, nofun, nofun, fun _ => valued, nofun, nofun, nofun,
    .of_not_isBodied rfl⟩
  rcases valued with ⟨front, value, rfl, -⟩
  simp

theorem Admits.of_invocation {target list : Node} (isTarget : target.IsOperand)
    (isList : list.IsOperand) (form_eq : list.form = .argumentList) :
    Form.invocation.Admits [target, list] :=
  ⟨by simp, fun _ => .of_length (by simp) (by simp), by simp [isTarget, isList], nofun, nofun,
    nofun, nofun, fun _ => ⟨target, list, rfl, form_eq⟩, nofun, nofun, .of_not_isBodied rfl⟩

theorem Admits.of_foreachStatement (runs : Node.RunsOver parts) :
    Form.foreachStatement.Admits parts :=
  ⟨by cases runs; simp, nofun, nofun, nofun, nofun, nofun, nofun, nofun, fun _ => runs, nofun,
    .of_not_isBodied rfl⟩

theorem Admits.of_isBodied (isBodied : form.isBodied = true) (nonempty : parts ≠ [])
    (spread : form = .lambda → 2 ≤ parts.length) (places : form.PlacesBodies parts) :
    form.Admits parts := by
  have isLambda : form.isExpression = true → form = .lambda := by
    revert isBodied
    cases form <;> simp [Form.isBodied, isFunction, isExpression]
  have noOther : form.holdsOperands = false ∧ form.isType = false ∧
      form.isTypeDeclaration = false := by
    revert isBodied
    cases form <;> simp [Form.isBodied, isFunction, holdsOperands, isType,
      isTypeDeclaration]
  rcases noOther with ⟨noOperands, noType, noDeclaration⟩
  refine ⟨nonempty, fun isExpression => ?_, by simp [noOperands], by simp [noType], ?_, ?_, ?_, ?_,
    ?_, .of_not_isTypeDeclaration noDeclaration, places⟩
  · cases isLambda isExpression
    exact .of_length (by simp) (spread rfl)
  all_goals
    rintro rfl
    cases isBodied

theorem Admits.of_opened (opened : form = .block ∨ form = .arrowClause)
    (starts : Node.StartWithMark parts) : form.Admits parts := by
  refine .of_isBodied ?_ ?_ ?_ ⟨fun _ => starts, ?_, ?_⟩
  · rcases opened with rfl | rfl <;> rfl
  · rcases starts with ⟨mark, following, rfl, -⟩
    simp
  all_goals rcases opened with rfl | rfl <;> nofun

theorem Admits.of_lambda (more : 2 ≤ parts.length) (ends : Node.EndInBody parts) :
    Form.lambda.Admits parts :=
  .of_isBodied rfl (List.ne_nil_of_length_pos (by omega)) (fun _ => more)
    ⟨by simp, fun _ => ends, nofun⟩

theorem Admits.of_typeDeclaration {kind : TypeKind} (isDeclared : kind.isDeclared = true)
    (nonempty : parts ≠ []) (starts : Node.StartWithoutBody parts) :
    (Form.typeDeclaration kind).Admits parts := by
  refine ⟨nonempty, nofun, nofun, nofun, nofun, nofun, nofun, nofun, nofun, ?_,
    .of_not_isBodied (by cases kind <;> rfl)⟩
  rintro kind ⟨⟩
  exact ⟨isDeclared, starts⟩

theorem Admits.of_isFunction (isFunction : form.isFunction = true) (nonempty : parts ≠ [])
    (holds : Node.HoldBodies parts) : form.Admits parts := by
  refine .of_isBodied (by simp [Form.isBodied, isFunction]) nonempty ?_ ⟨?_, ?_, fun _ => holds⟩
  · rintro rfl
    cases isFunction
  · rintro (rfl | rfl) <;> cases isFunction
  · rintro rfl
    cases isFunction

end Form

end AssertionLint
