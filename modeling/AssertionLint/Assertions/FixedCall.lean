import AssertionLint.Assertions.CompositeFormat
import AssertionLint.Assertions.Finding

/-!
# Fixed calls

The calls that fixes put in the place of an assertion call. Expressions of the old call are kept as
they are, so they are copied with their comments when the new call is written.
-/

namespace AssertionLint

namespace FixedCall

variable {m : Type → Type} [Monad m]

def stringFormat (format : Expr) (values : List Expr) : Expr :=
  Expr.call (.memberAccess (.predefinedType "string" none) (.ofIdentifier "Format") none)
    (Argument.ofExpr format :: values.map Argument.ofExpr)

/-- The expression is an array with listed elements. -/
def isArrayCreation : Expr → Bool
  | .arrayCreation .. => true
  | _ => false

/-- A single argument of the catch-all parameter is the array of all arguments itself. -/
def passesArray (shape : CallShape) (expr : Expr) (model : SemanticModel m) : m Bool :=
  match shape.catchAll? with
  | none => pure false
  | some parameter => do
    match ← model.typeOf expr with
    | some type =>
      if type.isArray then
        pure (← model.classifyConversion expr parameter.type).exists
      else
        pure false
    | none => pure (isArrayCreation expr)

/-- The message with its arguments put into it, or formatted by a call. -/
def withValues (message : Argument) (values : List Expr) : Argument :=
  message.withExpression
    ((message.expression.interpolate? values).getD (stringFormat message.expression values))

/-- The message of a call as a single argument; the literal `null` counts as no message. -/
def messageArgument? (shape : CallShape) (model : SemanticModel m) : m (Option Argument) :=
  match shape.message? with
  | none => pure none
  | some message =>
    if message.expression.unparenthesized.isLiteral .null then
      pure none
    else
      match shape.overflow with
      | [] => pure (some message)
      | [single] => do
        if ← passesArray shape single.expression model then
          match single.expression with
          -- listed elements are as good as arguments; another array is known at run time only
          | .arrayCreation _ elements _ => pure (some (withValues message elements))
          | value =>
            pure (some (message.withExpression (stringFormat message.expression [value])))
        else
          pure (some (withValues message [single.expression]))
      | several => pure (some (withValues message (several.map (·.expression))))

/-- The target `Assert.That`, with the qualifier of the old target if it ends with `Assert`. -/
def thatTarget (target : Expr) : Expr :=
  match target.asMemberAccess? with
  | some (receiver, _) =>
    if receiver.trailingName?.any (·.identifier == "Assert") then receiver.member "That"
    else Expr.dotted ["Assert", "That"]
  | none => Expr.dotted ["Assert", "That"]

/-- The argument of a parameter, with a conversion written out if it calls an operator. -/
def converted? (shape : CallShape) (parameter : String) (model : SemanticModel m) :
    m (Option Expr) :=
  match shape.binding? parameter with
  | none => pure none
  | some entry => do
    let conversion ← model.classifyConversion entry.argument.expression entry.parameter.type
    pure (some (if conversion.isUserDefined then
      Expr.castTo (.other entry.parameter.type.display none) entry.argument.expression
    else
      entry.argument.expression))

/-- A constraint with arguments. -/
def constraintCall (chain : List String) (arguments : List Expr) : Expr :=
  Expr.call (Expr.dotted chain) (arguments.map Argument.ofExpr)

/-- Clears the trivia behind all arguments but the last, which gets the given one. -/
def closeWith (closing : String) : List Argument → List Argument
  | [] => []
  | [last] => [{ last with trailing := closing }]
  | argument :: rest => { argument with trailing := "" } :: closeWith closing rest

/-- The call `Assert.That` of an actual value, an optional constraint and the old message. -/
def assemble (shape : CallShape) (actual : Expr) (constraint : Option Expr)
    (model : SemanticModel m) : m Expr := do
  let message ← messageArgument? shape model
  let first := { Argument.ofExpr actual with leading := shape.openingTrivia }
  let second := constraint.toList.map fun expr => { Argument.ofExpr expr with leading := " " }
  let third := message.toList.map fun argument =>
    -- the label would name a parameter that the message now takes by its place
    let plain := argument.withoutName
    if plain.leading.isEmpty then { plain with leading := " " } else plain
  pure (.invocation (thatTarget shape.target)
    ⟨closeWith shape.closingTrivia (first :: (second ++ third)), none⟩ none)

/-- The constraint for an expected type, given as a type argument or as an argument. -/
def typeCheck? (shape : CallShape) (chain : List String) (model : SemanticModel m) :
    m (Option Expr) :=
  match shape.memberName?.bind (·.typeArguments) with
  | some typeArguments =>
    pure (chain.getLast?.map fun last =>
      Expr.call (Expr.genericMember (Expr.dotted chain.dropLast) last typeArguments) [])
  | none => do
    pure ((← converted? shape "expected" model).map fun expected =>
      constraintCall chain [expected])

/-- The constraint for a classic call. -/
def classicConstraint? (shape : CallShape) (replacement : Replacement) (hasTolerance : Bool)
    (model : SemanticModel m) : m (Option Expr) :=
  match replacement with
  | .property _ chain => pure (some (Expr.dotted chain))
  | .call _ expectedName chain => do
    match ← converted? shape expectedName model with
    | none => pure none
    | some expected =>
      let constraint := constraintCall chain [expected]
      if hasTolerance then
        pure ((← converted? shape "delta" model).map fun delta =>
          Expr.call (constraint.member "Within") [Argument.ofExpr delta])
      else
        pure (some constraint)
  | .typeCheck chain => typeCheck? shape chain model

/-- A classic call in the constraint model. -/
def classic? (shape : CallShape) (rule : ClassicRule) (hasTolerance : Bool)
    (model : SemanticModel m) : m (Option Expr) :=
  let replacement := rule.replacement
  match replacement.actualParameters.find? fun name => (shape.binding? name).isSome with
  | none => pure none
  | some parameter => do
    match ← converted? shape parameter model with
    | none => pure none
    | some actual =>
      match ← classicConstraint? shape replacement hasTolerance model with
      | none => pure none
      | some constraint => pure (some (← assemble shape actual (some constraint) model))

/-- A classic call of a condition as `Assert.That(condition)`. -/
def condensed? (shape : CallShape) (model : SemanticModel m) : m (Option Expr) := do
  match ← converted? shape "condition" model with
  | none => pure none
  | some actual => pure (some (← assemble shape actual none model))

/-- A condition in the constraint model. -/
def condition? (shape : CallShape) (model : SemanticModel m) : m (Option Expr) := do
  match ← Condition.ofCall? shape model with
  | none => pure none
  | some condition =>
    match ← condition.recognize? model with
    | none => pure none
    | some found =>
      let constraint := constraintCall found.constraint.chain [found.expected]
      pure (some (← assemble shape found.actual (some constraint) model))

/-- The arguments without the overflow, and with another message in the place of the first. -/
def replaceMessage (message : Argument) : (isReplaced : Bool) → List BoundArgument → List Argument
  | _, [] => []
  | isReplaced, entry :: rest =>
    if entry.parameter.isCatchAll then
      replaceMessage message isReplaced rest
    else if !isReplaced && entry.parameter.name == "message" then
      message :: replaceMessage message true rest
    else
      entry.argument :: replaceMessage message isReplaced rest

/-- Gives the last argument the trivia in front of the closing parenthesis. -/
def setClosing (closing : String) : List Argument → List Argument
  | [] => []
  | [last] => [{ last with trailing := closing }]
  | argument :: rest => argument :: setClosing closing rest

/-- A call whose message and overflow are folded into one message. -/
def formatString? (shape : CallShape) (model : SemanticModel m) : m (Option Expr) :=
  match shape.message?, shape.overflow with
  | some _, _ :: _ => do
    match ← messageArgument? shape model with
    | none => pure none
    | some message =>
      let arguments := replaceMessage message false shape.assigned
      pure (some (.invocation shape.target ⟨setClosing shape.closingTrivia arguments, none⟩ none))
  | _, _ => pure none

end FixedCall

end AssertionLint
