import AssertionLint.Proofs.FixAll.Acceptance
import AssertionLint.Proofs.FixAll.Offers
import AssertionLint.Proofs.Model.Simulation

/-!
# Order and repetition of diagnostics

Fixing all depends only on which diagnostics are handed in, not on their order or on how often each
of them is, unless two different edits are offered for one span. This is shown for models without
memory first. A model that remembers but answers like one without memory gives the same result in
each state that it can be in.
-/

namespace AssertionLint

namespace Configuration

/-- An edit is offered under a key by one of the diagnostics. -/
def Offers (configuration : Configuration) (tree : SyntaxTree) (model : SemanticModel Id)
    (equivalenceKey : String) (diagnostics : List Diagnostic) (edit : TextEdit) : Prop :=
  ∃ diagnostic ∈ diagnostics, ∃ action ∈ Id.run (configuration.actionsFor tree model diagnostic),
    action.equivalenceKey = equivalenceKey ∧ action.edit = edit

end Configuration

/-- If a model answers like one without memory, it does not matter when a diagnostic has its
turn. -/
theorem SemanticModel.Answers.offersInTurn_iff {σ : Type} {model : SemanticModel (StateM σ)}
    {reference : SemanticModel Id} {invariant : σ → Prop}
    (answers : model.Answers reference invariant) {configuration : Configuration}
    {tree : SyntaxTree} {equivalenceKey : String} {token : CancellationToken}
    (uncancelled : token.isCancelled = false) {diagnostics : List Diagnostic} {edit : TextEdit}
    {state : σ} (inside : invariant state) :
    configuration.OffersInTurn tree model equivalenceKey token state diagnostics edit ↔
      configuration.Offers tree reference equivalenceKey diagnostics edit := by
  induction diagnostics generalizing state with
  | nil =>
    constructor
    · intro offers
      cases offers
    · rintro ⟨diagnostic, member, -⟩
      simp at member
  | cons diagnostic rest ih =>
    have asked := Configuration.run_codeActions configuration tree model diagnostic state
      uncancelled
    rcases answers.actionsFor configuration tree diagnostic state inside with ⟨same, kept⟩
    have stateKept : invariant ((configuration.codeActions tree model diagnostic token).run
        state).2 := by
      rw [asked]
      exact kept
    constructor
    · intro offers
      cases offers with
      | @now _ _ _ actions action answered offered sameKey =>
        rw [asked, same] at answered
        cases answered
        exact ⟨diagnostic, List.mem_cons_self, action, offered, sameKey, rfl⟩
      | later offers =>
        rcases (ih stateKept).mp offers with ⟨other, member, found⟩
        exact ⟨other, List.mem_cons_of_mem diagnostic member, found⟩
    · rintro ⟨other, member, action, offered, sameKey, rfl⟩
      rcases List.mem_cons.mp member with rfl | later
      · exact .now (by rw [asked, same]) offered sameKey
      · exact .later ((ih stateKept).mpr ⟨other, later, action, offered, sameKey, rfl⟩)

namespace Configuration

variable {configuration : Configuration} {tree : SyntaxTree} {model : SemanticModel Id}
  {token : CancellationToken}

theorem offeredEdits_eq_ok (configuration : Configuration) (tree : SyntaxTree)
    (model : SemanticModel Id) (equivalenceKey : String) (diagnostics : List Diagnostic)
    (uncancelled : token.isCancelled = false) :
    ∃ edits, Id.run (configuration.offeredEdits tree model equivalenceKey token diagnostics) =
        .ok edits ∧
      ∀ edit, edit ∈ edits ↔ configuration.Offers tree model equivalenceKey diagnostics edit := by
  have answers := model.answers_counting
  rcases exists_offeredEdits configuration tree model.counting equivalenceKey diagnostics 0
    uncancelled with ⟨edits, collected, isOffered⟩
  refine ⟨edits, ?_, ?_⟩
  · rw [← collected]
    exact ((answers.offeredEdits configuration tree token equivalenceKey diagnostics).eq_run
      trivial).symm
  · intro edit
    rw [isOffered edit, answers.offersInTurn_iff uncancelled trivial]

theorem offeredEdits_eq_cancelled (configuration : Configuration) (tree : SyntaxTree)
    (model : SemanticModel Id) (equivalenceKey : String) (diagnostic : Diagnostic)
    (rest : List Diagnostic) (cancelled : token.isCancelled = true) :
    Id.run (configuration.offeredEdits tree model equivalenceKey token (diagnostic :: rest)) =
      .error .cancelled := by
  simp only [offeredEdits, CancellationToken.check, cancelled]
  rfl

theorem fixAll_congr (token : CancellationToken) {equivalenceKey : String}
    {left right : List Diagnostic}
    (sameDiagnostics : ∀ diagnostic, diagnostic ∈ left ↔ diagnostic ∈ right)
    (distinct : ∀ one other, configuration.Offers tree model equivalenceKey left one →
      configuration.Offers tree model equivalenceKey left other → one.span = other.span →
      one = other) :
    Id.run (configuration.fixAll tree model left equivalenceKey token) =
      Id.run (configuration.fixAll tree model right equivalenceKey token) := by
  rw [fixAll_eq_bind, fixAll_eq_bind]
  change (Id.run (configuration.offeredEdits tree model equivalenceKey token left)).bind _ =
    (Id.run (configuration.offeredEdits tree model equivalenceKey token right)).bind _
  rcases stops : token.isCancelled
  · rcases offeredEdits_eq_ok configuration tree model equivalenceKey left stops with
      ⟨leftEdits, leftCollected, isOfferedLeft⟩
    rcases offeredEdits_eq_ok configuration tree model equivalenceKey right stops with
      ⟨rightEdits, rightCollected, isOfferedRight⟩
    have sameEdits : ∀ edit, edit ∈ leftEdits ↔ edit ∈ rightEdits := by
      intro edit
      simp only [isOfferedLeft, isOfferedRight, Offers, sameDiagnostics]
    rw [leftCollected, rightCollected]
    exact applyOffered_congr tree.source sameEdits fun one oneMem other otherMem =>
      distinct one other ((isOfferedLeft one).mp oneMem) ((isOfferedLeft other).mp otherMem)
  · -- whoever is asked first stops, so only it matters whether there is a diagnostic at all
    cases left with
    | nil =>
      have rightEmpty : right = [] := List.eq_nil_iff_forall_not_mem.mpr
        fun diagnostic member => by simpa using (sameDiagnostics diagnostic).mpr member
      rw [rightEmpty]
    | cons diagnostic rest =>
      rcases List.exists_cons_of_ne_nil (List.ne_nil_of_mem
        ((sameDiagnostics diagnostic).mp List.mem_cons_self)) with ⟨other, others, rfl⟩
      rw [offeredEdits_eq_cancelled configuration tree model equivalenceKey diagnostic rest stops,
        offeredEdits_eq_cancelled configuration tree model equivalenceKey other others stops]

/-- Fixing all gives one result for all lists of the same diagnostics, also over a model that
remembers and whichever state it starts from. -/
theorem fixAll_eq_of_same_diagnostics (configuration : Configuration) (tree : SyntaxTree)
    (reference : SemanticModel Id) (equivalenceKey : String) (token : CancellationToken)
    {left right : List Diagnostic}
    (sameDiagnostics : ∀ diagnostic, diagnostic ∈ left ↔ diagnostic ∈ right)
    (distinct : ∀ one other, configuration.Offers tree reference equivalenceKey left one →
      configuration.Offers tree reference equivalenceKey left other → one.span = other.span →
      one = other) :
    configuration.fixAll tree reference left equivalenceKey token =
      configuration.fixAll tree reference right equivalenceKey token ∧
    ∀ (σ : Type) (model : SemanticModel (StateM σ)) (invariant : σ → Prop),
      model.Answers reference invariant → ∀ start other, invariant start → invariant other →
      ((configuration.fixAll tree model left equivalenceKey token).run start).1 =
        ((configuration.fixAll tree model right equivalenceKey token).run other).1 := by
  have same := fixAll_congr token sameDiagnostics distinct
  refine ⟨same, ?_⟩
  intro σ model invariant answers start other startInside otherInside
  rw [(answers.fixAll configuration tree token left equivalenceKey).eq_run startInside,
    (answers.fixAll configuration tree token right equivalenceKey).eq_run otherInside, same]

end Configuration

/-- Names to be replaced in `SyntaxTree.nestedCalls`. The second one is empty and the third one
overlaps the first. -/
def Diagnostic.ofNames : List Diagnostic :=
  [⟨⟨20, 43⟩, .sameAsOnValueType ⟨27, 34⟩ "AreEqual", "", .error⟩,
    ⟨⟨14, 44⟩, .sameAsOnValueType ⟨19, 19⟩ "EqualTo", "", .error⟩,
    ⟨⟨20, 43⟩, .sameAsOnValueType ⟨30, 36⟩ "AreNotEqual", "", .error⟩]

theorem Diagnostic.edit_eq_of_offers_ofNames (one other : TextEdit)
    (oneOffered : Configuration.Offers {} .nestedCalls .ofMemberNames "UseIsEqualTo" ofNames one)
    (otherOffered :
      Configuration.Offers {} .nestedCalls .ofMemberNames "UseIsEqualTo" ofNames other)
    (sameSpan : one.span = other.span) : one = other := by
  have offers (edit : TextEdit)
      (offered : Configuration.Offers {} .nestedCalls .ofMemberNames "UseIsEqualTo" ofNames edit) :
      edit ∈ [⟨⟨27, 34⟩, "AreEqual"⟩, ⟨⟨19, 19⟩, "EqualTo"⟩,
        (⟨⟨30, 36⟩, "AreNotEqual"⟩ : TextEdit)] := by
    rcases offered with ⟨diagnostic, member, action, found, -, rfl⟩
    simp only [ofNames, List.mem_cons, List.not_mem_nil, or_false] at member
    rcases member with rfl | rfl | rfl <;>
      · rw [List.mem_singleton.mp found]
        decide
  have distinct : ([⟨⟨27, 34⟩, "AreEqual"⟩, ⟨⟨19, 19⟩, "EqualTo"⟩,
      ⟨⟨30, 36⟩, "AreNotEqual"⟩].map TextEdit.span).Nodup := by
    decide
  exact List.inj_on_of_nodup_map distinct (offers one oneOffered) (offers other otherOffered)
    sameSpan

/-- In both orders the names that do not overlap are replaced. -/
theorem Configuration.fixAll_ofNames_eq_reversed :
    let fixed := "Assert.IsTrue(CheckEqualTo(Assert.AreEqual(fällig)))"
    (∀ diagnostic, diagnostic ∈ Diagnostic.ofNames ↔
      diagnostic ∈ (Diagnostic.ofNames ++ Diagnostic.ofNames).reverse) ∧
    (Configuration.fixAll {} .nestedCalls .ofMemberNames Diagnostic.ofNames "UseIsEqualTo" {} =
        .ok fixed ∧
      Configuration.fixAll {} .nestedCalls .ofMemberNames
        (Diagnostic.ofNames ++ Diagnostic.ofNames).reverse "UseIsEqualTo" {} = .ok fixed) ∧
    ((Configuration.fixAll {} .nestedCalls SemanticModel.ofMemberNames.counting Diagnostic.ofNames
        "UseIsEqualTo" {}).run 0).1 =
      ((Configuration.fixAll {} .nestedCalls SemanticModel.ofMemberNames.counting
        (Diagnostic.ofNames ++ Diagnostic.ofNames).reverse "UseIsEqualTo" {}).run 7).1 := by
  intro fixed
  have sameDiagnostics : ∀ diagnostic, diagnostic ∈ Diagnostic.ofNames ↔
      diagnostic ∈ (Diagnostic.ofNames ++ Diagnostic.ofNames).reverse := by
    simp
  have same := Configuration.fixAll_eq_of_same_diagnostics {} .nestedCalls .ofMemberNames
    "UseIsEqualTo" {} sameDiagnostics Diagnostic.edit_eq_of_offers_ofNames
  let insertion : TextEdit := ⟨⟨19, 19⟩, "EqualTo"⟩
  let name : TextEdit := ⟨⟨27, 34⟩, "AreEqual"⟩
  let overlapping : TextEdit := ⟨⟨30, 36⟩, "AreNotEqual"⟩
  have collected : Id.run (offeredEdits {} .nestedCalls .ofMemberNames "UseIsEqualTo" {}
      Diagnostic.ofNames) = .ok [name, insertion, overlapping] := by
    decide
  have isSorted : [name, insertion, overlapping].mergeSort (fun left right =>
      left.span.notAfter right.span) = [insertion, name, overlapping] := by
    simp [List.mergeSort, List.MergeSort.Internal.splitInTwo, Span.notAfter, Span.precedes, name,
      insertion, overlapping]
  have accepted : acceptEdits SyntaxTree.nestedCalls.source none [insertion, name, overlapping] =
      [insertion, name] := by
    decide
  have applied : TextEdit.applyAll SyntaxTree.nestedCalls.source [insertion, name] = .ok fixed := by
    rw [TextEdit.applyAll, List.mergeSort_of_pairwise (by decide)]
    decide
  have isFixed : Configuration.fixAll {} .nestedCalls .ofMemberNames Diagnostic.ofNames
      "UseIsEqualTo" {} = .ok fixed := by
    rw [fixAll_eq_bind]
    change (Id.run (offeredEdits {} .nestedCalls .ofMemberNames "UseIsEqualTo" {}
      Diagnostic.ofNames)).bind _ = _
    rw [collected]
    exact applyOffered_eq_ok isSorted (accepted ▸ applied)
  exact ⟨sameDiagnostics, ⟨isFixed, same.1.symm.trans isFixed⟩,
    same.2 Nat _ _ (SemanticModel.answers_counting _) 0 7 trivial trivial⟩

end AssertionLint
