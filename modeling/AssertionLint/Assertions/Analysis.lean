import AssertionLint.Assertions.CodeAction

/-!
# Analysis

The entry points for a host: the diagnostics of a document, the actions for a diagnostic, and the
document with all actions of one kind applied. Diagnostics may be older than the document they are
handed in with; an action is offered only if the call is still there.
-/

namespace AssertionLint

/-- A reported finding. -/
structure Diagnostic where
  span : Span
  observation : Observation
  message : String
  severity : Severity
  deriving DecidableEq, Repr, Inhabited

namespace Diagnostic

def id (diagnostic : Diagnostic) : String := diagnostic.observation.descriptor.id

/-- The order in which diagnostics are listed: by span and then by id. -/
def notAfter (left right : Diagnostic) : Bool :=
  left.span.precedes right.span || (left.span == right.span && !(right.id < left.id))

end Diagnostic

/-- A host's request to stop. -/
structure CancellationToken where
  isCancelled : Bool := false
  deriving DecidableEq, Repr, Inhabited

/-- Fails once the host has asked to stop. -/
def CancellationToken.check (token : CancellationToken) : Except Error Unit :=
  if token.isCancelled then .error .cancelled else .ok ()

namespace Configuration

variable {m : Type → Type} [Monad m]

/-- The diagnostic for a finding, unless it is turned off. -/
def report? (configuration : Configuration) (finding : Finding) : Option Diagnostic :=
  (configuration.effectiveSeverity? finding.observation.descriptor).map fun severity =>
    ⟨finding.span, finding.observation, finding.observation.message, severity⟩

def diagnoseCall (configuration : Configuration) (model : SemanticModel m)
    (call : Expr × RootExpression) : m (List Diagnostic) := do
  match ← CallShape.classify? call.1 call.2 model with
  | none => pure []
  | some shape => pure ((← Finding.ofCall shape model).filterMap configuration.report?)

/-- The diagnostics about several calls; a request to stop is answered before each call. -/
def diagnoseCalls (configuration : Configuration) (model : SemanticModel m)
    (token : CancellationToken) :
    List (Expr × RootExpression) → m (Except Error (List Diagnostic))
  | [] => pure (.ok [])
  | call :: rest =>
    match token.check with
    | .error error => pure (.error error)
    | .ok () => do
      let found ← configuration.diagnoseCall model call
      let others ← configuration.diagnoseCalls model token rest
      pure (others.map (found ++ ·))

/-- The diagnostics of a document in their order. -/
def analyze (configuration : Configuration) (tree : SyntaxTree) (model : SemanticModel m)
    (token : CancellationToken) : m (Except Error (List Diagnostic)) := do
  let found ← configuration.diagnoseCalls model token tree.invocations
  pure (found.map fun diagnostics => diagnostics.mergeSort Diagnostic.notAfter)

def actionsFor (configuration : Configuration) (tree : SyntaxTree) (model : SemanticModel m)
    (diagnostic : Diagnostic) : m (List CodeAction) :=
  match diagnostic.observation with
  | .nullConstraint => pure []
  -- the diagnostic itself says what to rename, so the document is not asked again
  | .sameAsOnValueType rename replacement => pure [CodeAction.useEquality rename replacement]
  | observation =>
    match tree.findInvocation? diagnostic.span with
    | none => pure []
    | some (invocation, root) => do
      match ← CallShape.classify? invocation root model with
      | none => pure []
      | some shape =>
        CodeAction.ofCall shape observation model tree.source configuration.fixes

/-- The actions for a diagnostic, unless the host has asked to stop. -/
def codeActions (configuration : Configuration) (tree : SyntaxTree) (model : SemanticModel m)
    (diagnostic : Diagnostic) (token : CancellationToken) : m (Except Error (List CodeAction)) :=
  match token.check with
  | .error error => pure (.error error)
  | .ok () => do pure (.ok (← configuration.actionsFor tree model diagnostic))

/-- The edits that are offered under a key for several diagnostics. -/
def offeredEdits (configuration : Configuration) (tree : SyntaxTree) (model : SemanticModel m)
    (equivalenceKey : String) (token : CancellationToken) :
    List Diagnostic → m (Except Error (List TextEdit))
  | [] => pure (.ok [])
  | diagnostic :: rest =>
    match token.check with
    | .error error => pure (.error error)
    | .ok () => do
      let actions ← configuration.actionsFor tree model diagnostic
      let found := (actions.filter (·.equivalenceKey == equivalenceKey)).map (·.edit)
      let others ← configuration.offeredEdits tree model equivalenceKey token rest
      pure (others.map (found ++ ·))

/-- Keeps the edits of a sorted list that change something, differ from the last one kept and do not
start before its end. -/
def acceptEdits (source : String) : (previous : Option TextEdit) → List TextEdit → List TextEdit
  | _, [] => []
  | previous, edit :: rest =>
    -- an edit that starts where the last one ends does not get into its way
    if edit.isNoop source ||
        previous.any (fun last => last == edit || edit.span.start < last.span.stop) then
      acceptEdits source previous rest
    else
      edit :: acceptEdits source (some edit) rest

/-- The text of the document with all actions under a key applied that do not get into each other's
way. -/
def fixAll (configuration : Configuration) (tree : SyntaxTree) (model : SemanticModel m)
    (diagnostics : List Diagnostic) (equivalenceKey : String) (token : CancellationToken) :
    m (Except Error String) := do
  let offered ← configuration.offeredEdits tree model equivalenceKey token diagnostics
  pure do
    -- of several edits of one span the one that was offered first comes first
    let sorted := (← offered).mergeSort fun left right => left.span.notAfter right.span
    (TextEdit.applyAll tree.source (acceptEdits tree.source none sorted)).mapError
      EditFault.toError

end Configuration

end AssertionLint
