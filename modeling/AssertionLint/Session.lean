import AssertionLint.Assertions.Analysis
import AssertionLint.Binding.Document

/-!
# Sessions

A host's work with one document: analyze it, apply what is offered, and go on with the new text.
The diagnostics are those of the last analysis; they are kept when the text changes, so they may
be older than the text.
-/

namespace AssertionLint

/-- A document with the settings of its host and what is known about it. -/
structure Session where
  document : ParsedDocument
  configuration : Configuration := {}
  token : CancellationToken := {}
  diagnostics : List Diagnostic := []
  bindings : Bindings := {}
  deriving Inhabited

/-- Why nothing was offered or applied. -/
inductive SessionFault
  /-- The last analysis has no such diagnostic. -/
  | noDiagnostic
  /-- The diagnostic has no such action. -/
  | noAction
  | failed (error : Error)
  deriving DecidableEq, Repr, Inhabited

namespace Session

/-- A session with a new document. -/
def start (source : String) : Session := { document := .ofSource source }

/-- Asks the semantic model of the document. -/
def ask {α : Type} (question : Session → SemanticModel (StateM Bindings) → StateM Bindings α) :
    StateM Session α := do
  let session ← get
  let (answer, bindings) := (question session session.document.model).run session.bindings
  set { session with bindings }
  pure answer

/-- Goes on with another text. -/
def load (source : String) : StateM Session Unit :=
  -- spans of the old text say nothing about the new one, but the diagnostics stay
  modify fun session => { session with document := .ofSource source, bindings := {} }

/-- Analyzes the document; a failure keeps the diagnostics. -/
def analyze : StateM Session (Except Error (List Diagnostic)) := do
  let found ← ask fun session model =>
    session.configuration.analyze session.document.tree model session.token
  match found with
  | .ok diagnostics =>
    modify fun session => { session with diagnostics }
    pure (.ok diagnostics)
  | .error error => pure (.error error)

/-- The actions for a diagnostic of the last analysis. -/
def actions (index : Nat) : StateM Session (Except SessionFault (List CodeAction)) := do
  match (← get).diagnostics[index]? with
  | none => pure (.error .noDiagnostic)
  | some diagnostic =>
    let found ← ask fun session model =>
      session.configuration.codeActions session.document.tree model diagnostic session.token
    pure (found.mapError .failed)

/-- Goes on with a fixed text, if there is one. -/
def loadFixed (fixed : Except Error String) : StateM Session (Except Error String) := do
  match fixed with
  | .ok text =>
    load text
    pure (.ok text)
  | .error error => pure (.error error)

/-- Applies one of the actions for a diagnostic and answers the new text. -/
def applyAction (index choice : Nat) : StateM Session (Except SessionFault String) := do
  match ← actions index with
  | .error fault => pure (.error fault)
  | .ok offered =>
    match offered[choice]? with
    | none => pure (.error .noAction)
    | some action =>
      let source := (← get).document.tree.source
      let fixed := (TextEdit.applyAll source [action.edit]).mapError EditFault.toError
      pure ((← loadFixed fixed).mapError .failed)

/-- Applies all actions under a key that do not get into each other's way, and answers the new
text. -/
def fixAll (equivalenceKey : String) : StateM Session (Except Error String) := do
  let fixed ← ask fun session model =>
    session.configuration.fixAll session.document.tree model session.diagnostics equivalenceKey
      session.token
  loadFixed fixed

end Session

end AssertionLint
