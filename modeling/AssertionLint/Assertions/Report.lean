import AssertionLint.Assertions.Analysis

/-!
# Reports

All that analysis has to say about a document at once: its diagnostics, the actions for each of
them, and the text of the document fixed in each way that an action offers.
-/

namespace AssertionLint

/-- A diagnostic with the actions for it. -/
structure ReportEntry where
  diagnostic : Diagnostic
  actions : List CodeAction
  deriving Inhabited

/-- The findings about a document. -/
structure Report where
  entries : List ReportEntry
  /-- The fixed text for each equivalence key, in the order in which actions offer the keys. -/
  fixed : List (String × Except Error String)
  deriving Inhabited

namespace Configuration

variable {m : Type → Type} [Monad m]

def report (configuration : Configuration) (tree : SyntaxTree) (model : SemanticModel m)
    (token : CancellationToken) : ExceptT Error m Report := do
  let diagnostics ← ExceptT.mk (configuration.analyze tree model token)
  let entries ← diagnostics.mapM fun diagnostic => do
    pure (⟨diagnostic, ← ExceptT.mk (configuration.codeActions tree model diagnostic token)⟩ :
      ReportEntry)
  let keys := (entries.flatMap fun entry => entry.actions.map (·.equivalenceKey)).eraseDups
  let fixed ← keys.mapM fun key => do
    pure (key, ← monadLift (configuration.fixAll tree model diagnostics key token))
  pure ⟨entries, fixed⟩

end Configuration

end AssertionLint
