import AssertionLint.Proofs.FixAll.Acceptance
import AssertionLint.Proofs.Model.Outcome
import AssertionLint.Session
import Mathlib.Logic.Relation

/-!
# Requests to stop

A host asks to stop through a token. The actions for a diagnostic look at the token first, but
analysis looks at it in front of each call and fixing all in front of each diagnostic. So a request
to stop is answered as such just if there is a call or a diagnostic to come to. Otherwise analysis
has nothing to report and fixing all gives the text as it is
(`Configuration.cancelsIff_entryPoints`). Without a request no work is called cancelled.

`CancelsIff` is the condition under which a computation is cancelled. Both loops have the same
round, which is cancelled by its look at the token (`CancelsIff.check`) and not by what it does
(`Configuration.cancelsIff_round`), and what is done with the result of a loop cancels nothing
(`CancelsIff.finish`).

After a request to stop, a session keeps its document whatever the host asks for
(`Session.keeps_of_steps_after_request`): neither an answer that is a failure nor the text of a fix
without diagnostics changes it.
-/

namespace AssertionLint

variable {σ α β : Type}

/-- The computation answers that it was cancelled just if the condition holds, and then the model
has been left as it was. -/
def CancelsIff (condition : Prop) (computation : StateM σ (Except Error α)) : Prop :=
  ∀ state, ((computation.run state).1 = .error .cancelled ↔ condition) ∧
    (condition → (computation.run state).2 = state)

namespace CancelsIff

variable {condition : Prop} {computation : StateM σ (Except Error α)}

theorem of_answers (never : ¬condition)
    (answers : Ensures (fun _ => True) (· ≠ .error .cancelled) computation) :
    CancelsIff condition computation :=
  fun state => ⟨iff_of_false (answers state trivial).1 never, fun holds => (never holds).elim⟩

theorem answers (cancels : CancelsIff condition computation) (never : ¬condition) :
    Ensures (fun _ => True) (· ≠ .error .cancelled) computation :=
  fun state _ => ⟨mt (cancels state).1.mp never, trivial⟩

theorem run_eq (cancels : CancelsIff condition computation) (holds : condition) (state : σ) :
    computation.run state = (.error .cancelled, state) :=
  Prod.ext ((cancels state).1.mpr holds) ((cancels state).2 holds)

theorem congr {other : Prop} (cancels : CancelsIff condition computation)
    (same : condition ↔ other) : CancelsIff other computation :=
  propext same ▸ cancels

/-- Work behind a look at the token is cancelled just if the host has asked to stop. -/
theorem check (token : CancellationToken) {work : StateM σ (Except Error α)}
    (completes : token.isCancelled = false →
      Ensures (fun _ => True) (· ≠ .error .cancelled) work) :
    CancelsIff (token.isCancelled = true)
      (match token.check with
        | .error error => pure (.error error)
        | .ok () => work) := by
  intro state
  cases stop : token.isCancelled with
  | true =>
    simp only [CancellationToken.check, stop, if_true]
    exact ⟨iff_of_true rfl trivial, fun _ => rfl⟩
  | false =>
    simp only [CancellationToken.check, stop, Bool.false_eq_true, if_false]
    exact ⟨iff_of_false (completes stop state trivial).1 (by simp), nofun⟩

/-- What is done with a result afterwards does not matter if it cancels nothing by itself. -/
theorem finish (cancels : CancelsIff condition computation)
    {last : Except Error α → Except Error β}
    (keeps : ∀ result, last result = .error .cancelled ↔ result = .error .cancelled) :
    CancelsIff condition (computation >>= fun result => pure (last result)) :=
  fun state => ⟨(keeps (computation.run state).1).trans (cancels state).1, (cancels state).2⟩

end CancelsIff

theorem map_eq_cancelled_iff (f : α → β) (result : Except Error α) :
    result.map f = .error .cancelled ↔ result = .error .cancelled := by
  cases result <;> simp [Except.map]

theorem TextEdit.applyAll_nil (source : String) : applyAll source [] = .ok source := by
  have whole : splice source.toList 0 [] = .ok source.toList :=
    splice_nil_eq_ok_iff.mpr (Text.slice?_eq_some_iff.mpr ⟨[], [], by simp, rfl, by simp⟩)
  simp [applyAll, whole, Except.map]

namespace Configuration

variable (configuration : Configuration) (tree : SyntaxTree) (model : SemanticModel (StateM σ))
  (token : CancellationToken)

/-- One round of a loop is cancelled just if the host has asked to stop, whatever the rounds behind
it are for. -/
theorem cancelsIff_round {first : StateM σ α} {collect : α → List β}
    {others : StateM σ (Except Error (List β))} {more : Prop}
    (rest : CancelsIff (token.isCancelled = true ∧ more) others) :
    CancelsIff (token.isCancelled = true)
      (match token.check with
        | .error error => pure (.error error)
        | .ok () => do
          let found ← first
          let later ← others
          pure (later.map (collect found ++ ·))) := by
  refine .check token fun uncancelled => .bind (.always first) fun found _ => ?_
  have completes := rest.answers (by simp [uncancelled])
  exact completes.bind fun later isAnswer => .pure (mt (map_eq_cancelled_iff _ later).mp isAnswer)

theorem cancelsIff_diagnoseCalls (calls : List (Expr × RootExpression)) :
    CancelsIff (token.isCancelled = true ∧ calls ≠ [])
      (configuration.diagnoseCalls model token calls) := by
  induction calls with
  | nil => exact .of_answers (by simp) (.pure nofun)
  | cons call rest ih =>
    exact (cancelsIff_round token ih).congr (by simp)

theorem cancelsIff_offeredEdits (equivalenceKey : String) (diagnostics : List Diagnostic) :
    CancelsIff (token.isCancelled = true ∧ diagnostics ≠ [])
      (configuration.offeredEdits tree model equivalenceKey token diagnostics) := by
  induction diagnostics with
  | nil => exact .of_answers (by simp) (.pure nofun)
  | cons diagnostic rest ih =>
    exact (cancelsIff_round token ih).congr (by simp)

theorem bind_applyOffered_eq_cancelled_iff (source : String)
    (offered : Except Error (List TextEdit)) :
    offered.bind (applyOffered source) = .error .cancelled ↔ offered = .error .cancelled := by
  cases offered with
  | error error => simp [Except.bind]
  | ok edits =>
    simp only [Except.bind, applyOffered, reduceCtorEq, iff_false]
    cases TextEdit.applyAll source (acceptEdits source none _) with
    | error fault => simp [Except.mapError, EditFault.toError]
    | ok fixed => simp [Except.mapError]

theorem cancelsIff_analyze :
    CancelsIff (token.isCancelled = true ∧ tree.invocations ≠ [])
      (configuration.analyze tree model token) :=
  (configuration.cancelsIff_diagnoseCalls model token tree.invocations).finish
    (map_eq_cancelled_iff _)

theorem cancelsIff_codeActions (diagnostic : Diagnostic) :
    CancelsIff (token.isCancelled = true)
      (configuration.codeActions tree model diagnostic token) :=
  .check token fun _ => .bind (.always _) fun _ _ => .pure nofun

theorem cancelsIff_fixAll (diagnostics : List Diagnostic) (equivalenceKey : String) :
    CancelsIff (token.isCancelled = true ∧ diagnostics ≠ [])
      (configuration.fixAll tree model diagnostics equivalenceKey token) := by
  rw [fixAll_eq_bind]
  exact (configuration.cancelsIff_offeredEdits tree model token equivalenceKey diagnostics).finish
    (bind_applyOffered_eq_cancelled_iff tree.source)

/-- A document without calls has no diagnostics, and the host is told so even if it has asked to
stop. -/
theorem analyze_of_no_calls (noCalls : tree.invocations = []) :
    configuration.analyze tree model token = pure (.ok []) := by
  simp [analyze, noCalls, diagnoseCalls, Except.map]

/-- Without diagnostics there is nothing to fix, and the host is given the text as it is even if it
has asked to stop. -/
theorem fixAll_nil (equivalenceKey : String) :
    configuration.fixAll tree model [] equivalenceKey token = pure (.ok tree.source) := by
  have unchanged : applyOffered tree.source [] = .ok tree.source := by
    simp [applyOffered, acceptEdits, TextEdit.applyAll_nil, Except.mapError]
  rw [← unchanged]
  rfl

/-- Analysis and fixing all are cancelled just if the host has asked to stop and there is a call or
a diagnostic, respectively, to come to, and the actions for a diagnostic just if the host has asked
to stop. Without a call there are no diagnostics, and without diagnostics the text stays as it is,
whatever the host has asked for. -/
theorem cancelsIff_entryPoints (diagnostic : Diagnostic) (diagnostics : List Diagnostic)
    (equivalenceKey : String) :
    CancelsIff (token.isCancelled = true ∧ tree.invocations ≠ [])
        (configuration.analyze tree model token) ∧
      (tree.invocations = [] → configuration.analyze tree model token = pure (.ok [])) ∧
      CancelsIff (token.isCancelled = true)
        (configuration.codeActions tree model diagnostic token) ∧
      CancelsIff (token.isCancelled = true ∧ diagnostics ≠ [])
        (configuration.fixAll tree model diagnostics equivalenceKey token) ∧
      (diagnostics = [] →
        configuration.fixAll tree model diagnostics equivalenceKey token =
          pure (.ok tree.source)) := by
  refine ⟨configuration.cancelsIff_analyze tree model token,
    configuration.analyze_of_no_calls tree model token,
    configuration.cancelsIff_codeActions tree model token diagnostic,
    configuration.cancelsIff_fixAll tree model token diagnostics equivalenceKey, ?_⟩
  rintro rfl
  exact configuration.fixAll_nil tree model token equivalenceKey

/-- A class with a field. The document has no calls. -/
def classWithCount : ParsedDocument := .ofSource "class A \x7b int count = 1; \x7d"

/-- A host that has asked to stop is still given the diagnostics of `classWithCount`, of which there
are none, and its text with all of them fixed. -/
theorem exists_answer_despite_cancellation :
    ∃ token : CancellationToken, token.isCancelled = true ∧
      ((Configuration.analyze {} classWithCount.tree classWithCount.model token).run {}).1 =
        .ok [] ∧
      ((Configuration.fixAll {} classWithCount.tree classWithCount.model []
        "TransformToConstraintModel" token).run {}).1 =
          .ok "class A \x7b int count = 1; \x7d" := by
  have noCalls : classWithCount.tree.invocations = [] := by
    have isEmpty : classWithCount.tree.invocations.isEmpty = true := by decide +kernel
    exact List.isEmpty_iff.mp isEmpty
  refine ⟨⟨true⟩, rfl, ?_, ?_⟩
  · rw [analyze_of_no_calls _ _ _ _ noCalls]
    rfl
  · rw [fixAll_nil]
    rfl

end Configuration

namespace Session

/-- The host asks for an analysis or for fixes, and goes on with the session it gets. -/
inductive Step : Session → Session → Prop
  | analyze (session : Session) : Step session (Session.analyze.run session).2
  | actions (session : Session) (index : Nat) : Step session ((Session.actions index).run session).2
  | applyAction (session : Session) (index choice : Nat) :
      Step session ((Session.applyAction index choice).run session).2
  | fixAll (session : Session) (equivalenceKey : String) :
      Step session ((Session.fixAll equivalenceKey).run session).2

/-- The document is what reading its text gives. -/
def IsRead (session : Session) : Prop :=
  session.document = .ofSource session.document.tree.source

/-- The later session has the document, the settings and the token of the session. Its diagnostics
are gone at most if the document has no calls. -/
structure Keeps (session later : Session) : Prop where
  document : later.document = session.document
  configuration : later.configuration = session.configuration
  token : later.token = session.token
  diagnostics : later.diagnostics = session.diagnostics ∨
    session.document.tree.invocations = [] ∧ later.diagnostics = []

variable {session later : Session}

theorem Keeps.refl (session : Session) : session.Keeps session := ⟨rfl, rfl, rfl, .inl rfl⟩

theorem Keeps.trans {last : Session} (first : session.Keeps later) (second : later.Keeps last) :
    session.Keeps last where
  document := second.document.trans first.document
  configuration := second.configuration.trans first.configuration
  token := second.token.trans first.token
  diagnostics := by
    rcases second.diagnostics with same | ⟨noCalls, gone⟩
    · rw [same]
      exact first.diagnostics
    · exact .inr ⟨first.document ▸ noCalls, gone⟩

/-- A question that the model answers without remembering anything leaves the session as it is. -/
theorem run_ask (question : Session → SemanticModel (StateM Bindings) → StateM Bindings α)
    {answer : α} (answered :
      (question session session.document.model).run session.bindings = (answer, session.bindings)) :
    (ask question).run session = (answer, session) := by
  change (((question session session.document.model).run session.bindings).1,
    { session with
      bindings := ((question session session.document.model).run session.bindings).2 }) = _
  rw [answered]

theorem exists_run_actions (cancelled : session.token.isCancelled = true) (index : Nat) :
    ∃ fault, (actions index).run session = (.error fault, session) := by
  simp only [actions, StateT.run_bind, StateT.run_get, pure_bind]
  cases session.diagnostics[index]? with
  | none => exact ⟨.noDiagnostic, rfl⟩
  | some diagnostic =>
    have asked := (session.configuration.cancelsIff_codeActions session.document.tree
      session.document.model session.token diagnostic).run_eq cancelled session.bindings
    refine ⟨.failed .cancelled, ?_⟩
    simp only [StateT.run_bind]
    rw [run_ask _ asked]
    rfl

theorem keeps_analyze (cancelled : session.token.isCancelled = true) :
    session.Keeps (Session.analyze.run session).2 := by
  simp only [Session.analyze, StateT.run_bind]
  by_cases noCalls : session.document.tree.invocations = []
  · have asked := congrArg (StateT.run · session.bindings)
      (session.configuration.analyze_of_no_calls session.document.tree session.document.model
        session.token noCalls)
    rw [run_ask _ asked]
    exact ⟨rfl, rfl, rfl, .inr ⟨noCalls, rfl⟩⟩
  · have asked := (session.configuration.cancelsIff_analyze session.document.tree
      session.document.model session.token).run_eq ⟨cancelled, noCalls⟩ session.bindings
    rw [run_ask _ asked]
    exact .refl session

theorem keeps_fixAll (cancelled : session.token.isCancelled = true) (isRead : session.IsRead)
    (equivalenceKey : String) : session.Keeps ((Session.fixAll equivalenceKey).run session).2 := by
  simp only [Session.fixAll, StateT.run_bind]
  by_cases noDiagnostics : session.diagnostics = []
  · have asked := congrArg (StateT.run · session.bindings)
      (session.configuration.fixAll_nil session.document.tree session.document.model session.token
        equivalenceKey)
    rw [← noDiagnostics] at asked
    rw [run_ask _ asked]
    -- the text is loaded again, and reading it gives the document that is there
    exact ⟨isRead.symm, rfl, rfl, .inl rfl⟩
  · have asked := (session.configuration.cancelsIff_fixAll session.document.tree
      session.document.model session.token session.diagnostics equivalenceKey).run_eq
        ⟨cancelled, noDiagnostics⟩ session.bindings
    rw [run_ask _ asked]
    exact .refl session

theorem keeps_of_step (cancelled : session.token.isCancelled = true) (isRead : session.IsRead)
    (step : Step session later) : session.Keeps later := by
  cases step with
  | analyze => exact keeps_analyze cancelled
  | actions index =>
    rcases exists_run_actions cancelled index with ⟨fault, refused⟩
    rw [refused]
    exact .refl session
  | applyAction index choice =>
    rcases exists_run_actions cancelled index with ⟨fault, refused⟩
    simp only [applyAction, StateT.run_bind, refused]
    exact .refl session
  | fixAll equivalenceKey => exact keeps_fixAll cancelled isRead equivalenceKey

theorem ensures_isRead_ask
    (question : Session → SemanticModel (StateM Bindings) → StateM Bindings α) :
    Ensures IsRead (fun _ => True) (ask question) :=
  fun _ isRead => ⟨trivial, isRead⟩

theorem ensures_isRead_get : Ensures IsRead (fun _ => True) (get : StateM Session Session) :=
  fun _ isRead => ⟨trivial, isRead⟩

theorem ensures_isRead_actions (index : Nat) :
    Ensures IsRead (fun _ => True) (actions index) := by
  refine .bind ensures_isRead_get fun session _ => ?_
  split
  · exact .pure trivial
  · exact .bind (ensures_isRead_ask _) fun _ _ => .pure trivial

theorem ensures_isRead_loadFixed (fixed : Except Error String) :
    Ensures IsRead (fun _ => True) (loadFixed fixed) := by
  cases fixed with
  | error error => exact .pure trivial
  | ok text => exact fun _ _ => ⟨trivial, rfl⟩

theorem IsRead.of_step (isRead : session.IsRead) (step : Step session later) : later.IsRead := by
  cases step with
  | analyze =>
    have kept : Ensures IsRead (fun _ => True) Session.analyze := by
      refine .bind (ensures_isRead_ask _) fun found _ => ?_
      cases found with
      | error error => exact .pure trivial
      | ok diagnostics => exact fun _ isRead => ⟨trivial, isRead⟩
    exact (kept session isRead).2
  | actions index => exact (ensures_isRead_actions index session isRead).2
  | applyAction index choice =>
    have kept : Ensures IsRead (fun _ => True) (Session.applyAction index choice) := by
      refine .bind (ensures_isRead_actions index) fun offered _ => ?_
      split
      · exact .pure trivial
      · split
        · exact .pure trivial
        · refine .bind ensures_isRead_get fun _ _ => ?_
          exact .bind (ensures_isRead_loadFixed _) fun _ _ => .pure trivial
    exact (kept session isRead).2
  | fixAll equivalenceKey =>
    have kept : Ensures IsRead (fun _ => True) (Session.fixAll equivalenceKey) :=
      .bind (ensures_isRead_ask _) fun fixed _ => ensures_isRead_loadFixed fixed
    exact (kept session isRead).2

theorem isRead_of_steps {source : String}
    (steps : Relation.ReflTransGen Step (start source) session) : session.IsRead := by
  induction steps with
  | refl => rfl
  | tail _ step isRead => exact isRead.of_step step

theorem keeps_of_steps (cancelled : session.token.isCancelled = true) (isRead : session.IsRead)
    (steps : Relation.ReflTransGen Step session later) : session.Keeps later := by
  induction steps with
  | refl => exact .refl session
  | tail _ step keeps =>
    refine keeps.trans (keeps_of_step ?_ ?_ step)
    · rw [keeps.token]
      exact cancelled
    · unfold IsRead
      rw [keeps.document]
      exact isRead

/-- A host works in a session and then asks to stop. Whatever it asks for afterwards, the document,
the settings and the token stay as they are, and so do the diagnostics if the document has calls. -/
theorem keeps_of_steps_after_request {source : String}
    (worked : Relation.ReflTransGen Step (start source) session)
    (steps : Relation.ReflTransGen Step { session with token := ⟨true⟩ } later) :
    Keeps { session with token := ⟨true⟩ } later := by
  have isRead : session.IsRead := isRead_of_steps worked
  exact keeps_of_steps rfl isRead steps

end Session

end AssertionLint
