import AssertionLint.Proofs.Analysis.FixedCalls
import AssertionLint.Proofs.Analysis.Reported
import AssertionLint.Proofs.Syntax.Search

/-!
# Offered edits

`Configuration.OffersInTurn` says which edits are offered under a key when the actions for several
diagnostics are asked for one after the other, from a given state of the model. Fixing all collects
just these edits (`exists_offeredEdits`). If the spans of the tree and the recorded names are parts
of the source, so are the spans of all offered edits (`OffersInTurn.fitsIn`), whatever the model
answers and however old the diagnostics are.
-/

namespace AssertionLint

variable {σ : Type}

/-- The name that a comparison of values by reference is reported at is a part of the source. -/
def Diagnostic.HasValidRename (diagnostic : Diagnostic) (source : String) : Prop :=
  ∀ rename replacement, diagnostic.observation = .sameAsOnValueType rename replacement →
    rename.FitsIn source

namespace Configuration

variable {configuration : Configuration} {tree : SyntaxTree} {model : SemanticModel (StateM σ)}
  {token : CancellationToken}

/-- The edits of all actions for a diagnostic are edits of parts of the source. -/
theorem ensures_actionsFor (configuration : Configuration) (model : SemanticModel (StateM σ))
    {diagnostic : Diagnostic} (validSpans : tree.HasValidSpans)
    (validRename : diagnostic.HasValidRename tree.source) :
    Ensures (fun _ => True) (fun actions => ∀ action ∈ actions,
      action.edit.span.FitsIn tree.source) (configuration.actionsFor tree model diagnostic) := by
  unfold actionsFor
  split
  · exact .pure (by simp)
  · rename_i rename replacement observed
    refine .pure ?_
    intro action offered
    rw [List.mem_singleton.mp offered]
    exact validRename rename replacement observed
  · split
    · exact .pure (by simp)
    · rename_i call root found
      rcases SyntaxTree.mem_invocations_of_findInvocation? found with ⟨isCall, spanIs⟩
      rcases SyntaxTree.mem_invocations.mp isCall with ⟨rootMem, inside, -⟩
      refine .bind (CallShape.ensures_classify? call root model) ?_
      rintro (_ | shape) classified
      · exact .pure (by simp)
      · have fits : shape.span.FitsIn tree.source :=
          validSpans call (SyntaxTree.mem_expressions.mpr ⟨root, rootMem, inside⟩) shape.span
            (CallShape.span_of_bind? (classified shape rfl))
        refine (CodeAction.ensures_ofCall shape _ model _ _).weaken ?_
        intro actions replaces action offered
        rcases replaces action offered with ⟨replacement, editIs⟩
        rw [editIs]
        exact TextEdit.fitsIn_minimized replacement fits

theorem run_codeActions (configuration : Configuration) (tree : SyntaxTree)
    (model : SemanticModel (StateM σ)) (diagnostic : Diagnostic) (state : σ)
    (uncancelled : token.isCancelled = false) :
    (configuration.codeActions tree model diagnostic token).run state =
      (.ok ((configuration.actionsFor tree model diagnostic).run state).1,
        ((configuration.actionsFor tree model diagnostic).run state).2) := by
  simp [codeActions, CancellationToken.check, uncancelled]
  rfl

/-- An edit is offered under a key by one of several diagnostics when the actions for each of them
are asked for in turn. -/
inductive OffersInTurn (configuration : Configuration) (tree : SyntaxTree)
    (model : SemanticModel (StateM σ)) (equivalenceKey : String) (token : CancellationToken) :
    σ → List Diagnostic → TextEdit → Prop
  | now {state : σ} {diagnostic : Diagnostic} {later : List Diagnostic}
      {actions : List CodeAction} {action : CodeAction}
      (answered : ((configuration.codeActions tree model diagnostic token).run state).1 =
        .ok actions)
      (offered : action ∈ actions) (sameKey : action.equivalenceKey = equivalenceKey) :
      OffersInTurn configuration tree model equivalenceKey token state (diagnostic :: later)
        action.edit
  | later {state : σ} {diagnostic : Diagnostic} {later : List Diagnostic} {edit : TextEdit}
      (offered : OffersInTurn configuration tree model equivalenceKey token
        ((configuration.codeActions tree model diagnostic token).run state).2 later edit) :
      OffersInTurn configuration tree model equivalenceKey token state (diagnostic :: later) edit

theorem OffersInTurn.fitsIn {equivalenceKey : String} {state : σ} {diagnostics : List Diagnostic}
    {edit : TextEdit}
    (offers : OffersInTurn configuration tree model equivalenceKey token state diagnostics edit)
    (uncancelled : token.isCancelled = false) (validSpans : tree.HasValidSpans)
    (validRenames : ∀ diagnostic ∈ diagnostics, diagnostic.HasValidRename tree.source) :
    edit.span.FitsIn tree.source := by
  induction offers with
  | @now state diagnostic _ actions action answered offered _ =>
    rw [run_codeActions configuration tree model diagnostic state uncancelled] at answered
    cases answered
    exact (ensures_actionsFor configuration model validSpans
      (validRenames diagnostic List.mem_cons_self) state trivial).1 action offered
  | later _ ih =>
    exact ih fun diagnostic member => validRenames diagnostic (List.mem_cons_of_mem _ member)

/-- Unless the host asks to stop, fixing all collects the offered edits and no others. -/
theorem exists_offeredEdits (configuration : Configuration) (tree : SyntaxTree)
    (model : SemanticModel (StateM σ)) (equivalenceKey : String) (diagnostics : List Diagnostic)
    (state : σ) (uncancelled : token.isCancelled = false) :
    ∃ edits, ((configuration.offeredEdits tree model equivalenceKey token diagnostics).run
        state).1 = .ok edits ∧
      ∀ edit, edit ∈ edits ↔
        OffersInTurn configuration tree model equivalenceKey token state diagnostics edit := by
  -- the model is asked diagnostic by diagnostic, each time in the state that the last one left
  induction diagnostics generalizing state with
  | nil =>
    refine ⟨[], rfl, ?_⟩
    intro edit
    exact ⟨fun member => by simp at member, fun offers => by cases offers⟩
  | cons diagnostic rest ih =>
    have asked := run_codeActions configuration tree model diagnostic state uncancelled
    rcases ih ((configuration.codeActions tree model diagnostic token).run state).2 with
      ⟨others, collected, fromOthers⟩
    let actions := ((configuration.actionsFor tree model diagnostic).run state).1
    refine ⟨(actions.filter (·.equivalenceKey == equivalenceKey)).map (·.edit) ++ others, ?_, ?_⟩
    · rw [asked] at collected
      simp only [offeredEdits, CancellationToken.check, uncancelled]
      change Except.map _ ((configuration.offeredEdits tree model equivalenceKey token rest).run
        ((configuration.actionsFor tree model diagnostic).run state).2).1 = _
      rw [collected]
      rfl
    · intro edit
      rw [List.mem_append, fromOthers]
      constructor
      · rintro (here | offers)
        · rcases List.mem_map.mp here with ⟨action, chosen, rfl⟩
          rcases List.mem_filter.mp chosen with ⟨offered, sameKey⟩
          exact .now (by rw [asked]) offered (by simpa using sameKey)
        · exact .later offers
      · intro offers
        cases offers with
        | @now _ _ _ answers action answered offered sameKey =>
          rw [asked] at answered
          cases answered
          refine .inl (List.mem_map.mpr ⟨action, List.mem_filter.mpr ⟨offered, ?_⟩, rfl⟩)
          simpa using sameKey
        | later offers => exact .inr offers

end Configuration

end AssertionLint
