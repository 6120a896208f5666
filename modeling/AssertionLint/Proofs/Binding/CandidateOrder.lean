import AssertionLint.Proofs.Binding.Resolution
import AssertionLint.Proofs.TypeTable.Agreement

/-!
# The order of candidates

Of several applicable methods with one signature the one that comes first stays, before any
comparison. So resolution among candidates gives the same in whatever order each declaration lists
its methods if no two methods of one declaration are applicable with the same signature
(`TypeTable.map_best?_eq`). Nor does it look at the places of methods in a document.
-/

namespace AssertionLint

namespace MethodDecl

variable (parameters : List ParameterDecl) (expanded : Option Nat)

@[simp]
theorem parameterIndex?_unplaced (position : Nat) (label : Option String) :
    parameterIndex? (parameters.map ParameterDecl.unplaced) expanded position label =
      parameterIndex? parameters expanded position label := by
  cases label <;> simp [parameterIndex?, List.findIdx?_map, Function.comp_def]

@[simp]
theorem assignFrom?_unplaced (position : Nat) (taken : List Nat) (labels : List (Option String)) :
    assignFrom? (parameters.map ParameterDecl.unplaced) expanded position taken labels =
      assignFrom? parameters expanded position taken labels := by
  induction labels generalizing position taken with
  | nil => rfl
  | cons label rest ih => simp only [assignFrom?, parameterIndex?_unplaced, ih]

@[simp]
theorem unassigned_unplaced (assigned : List Nat) :
    unassigned (parameters.map ParameterDecl.unplaced) expanded assigned =
      (unassigned parameters expanded assigned).map ParameterDecl.unplaced := by
  simp [unassigned, List.zipIdx_map, List.filter_map, Function.comp_def]

@[simp]
theorem assign?_unplaced (labels : List (Option String)) :
    assign? (parameters.map ParameterDecl.unplaced) expanded labels =
      assign? parameters expanded labels := by
  simp [assign?, Function.comp_def]

@[simp]
theorem paramsIndex?_unplaced (method : MethodDecl) :
    method.unplaced.paramsIndex? = method.paramsIndex? := by
  simp [paramsIndex?, List.findIdx?_map, Function.comp_def]

@[simp]
theorem isExtension_unplaced (method : MethodDecl) :
    method.unplaced.isExtension = method.isExtension := by
  simp [isExtension, Option.any_map]

end MethodDecl

/-- The same candidate without the places of its method in a document and in its type. -/
def MethodCandidate.unplaced (candidate : MethodCandidate) : MethodCandidate :=
  { candidate with place := 0, method := candidate.method.unplaced }

section

variable (candidate : MethodCandidate)

@[simp]
theorem MethodCandidate.unplaced_owner : candidate.unplaced.owner = candidate.owner := rfl

@[simp]
theorem MethodCandidate.unplaced_id : candidate.unplaced.id = candidate.id := rfl

@[simp]
theorem MethodCandidate.unplaced_method :
    candidate.unplaced.method = candidate.method.unplaced := rfl

@[simp]
theorem MethodCandidate.unplaced_isReduced :
    candidate.unplaced.isReduced = candidate.isReduced := rfl

end

namespace TypeTable

section

variable {table first second : TypeTable} {slots : List ArgumentSlot} {explicit : List TypeSymbol}

theorem signature_unplaced (candidate : MethodCandidate) :
    table.signature candidate.unplaced = table.signature candidate := by
  simp [signature, Function.comp_def]

theorem applicableIn?_unplaced (candidate : MethodCandidate) (expanded : Option Nat) :
    table.applicableIn? candidate.unplaced slots explicit expanded =
      table.applicableIn? candidate slots explicit expanded := by
  simp only [applicableIn?, signature_unplaced, MethodCandidate.unplaced_method,
    MethodDecl.unplaced_parameters, MethodDecl.unplaced_typeParameters,
    MethodDecl.assign?_unplaced, MethodDecl.unassigned_unplaced, List.isEmpty_map,
    List.zip_map_left, List.map_map, Function.comp_def, Prod.map_fst, Prod.map_snd, id_eq,
    ParameterDecl.unplaced_name, ParameterDecl.unplaced_isParams,
    ParameterDecl.unplaced_isOptional]

theorem applicable?_unplaced (candidate : MethodCandidate) :
    table.applicable? slots explicit candidate.unplaced =
      table.applicable? slots explicit candidate := by
  simp only [applicable?, applicableIn?_unplaced, MethodCandidate.unplaced_method,
    MethodDecl.unplaced_typeParameters, MethodDecl.paramsIndex?_unplaced]

theorem methodSymbol_unplaced (candidate : MethodCandidate) (applicable : ApplicableMethod) :
    methodSymbol candidate.unplaced applicable = methodSymbol candidate applicable := by
  simp [methodSymbol]

theorem SameTypes.applicable?_eq (same : SameTypes first second)
    {candidate other : MethodCandidate} (alike : candidate.unplaced = other.unplaced) :
    first.applicable? slots explicit candidate = second.applicable? slots explicit other := by
  have signature_eq : first.signature = second.signature := by
    funext candidate
    simp only [signature, same.memberScope_eq, same.resolve_eq, same.substitution_eq]
  have applicableIn?_eq : first.applicableIn? = second.applicableIn? := by
    funext candidate slots explicit expanded
    simp only [applicableIn?, signature_eq, same.callSubstitution?_eq, same.slotConverts_eq]
  rw [← applicable?_unplaced candidate, alike, applicable?_unplaced]
  simp only [applicable?, applicableIn?_eq]

end

/-- All candidates are methods of one declaration. -/
def OfOneDeclaration (candidates : List MethodCandidate) : Prop :=
  ∀ left ∈ candidates, ∀ right ∈ candidates, left.owner = right.owner ∧ left.id = right.id

/-- The same methods in another order, wherever they are written. -/
def Permuted (candidates others : List MethodCandidate) : Prop :=
  (candidates.map MethodCandidate.unplaced).Perm (others.map MethodCandidate.unplaced)

/-- Both lists are made of the methods of the same declarations, each in any order. -/
inductive CandidatesReorder : List MethodCandidate → List MethodCandidate → Prop
  | nil : CandidatesReorder [] []
  | block {own other rest following : List MethodCandidate} (permuted : Permuted own other)
      (ofOne : OfOneDeclaration own) (reorder : CandidatesReorder rest following) :
      CandidatesReorder (own ++ rest) (other ++ following)

/-- No two methods of one declaration are applicable to a call with the same signature. -/
def HaveOwnSignatures (table : TypeTable) (slots : List ArgumentSlot) (explicit : List TypeSymbol)
    (candidates : List MethodCandidate) : Prop :=
  candidates.Pairwise fun left right => left.owner = right.owner → left.id = right.id →
    ∀ found, table.applicable? slots explicit left = some found →
      ∀ other, table.applicable? slots explicit right = some other →
        found.sameSignature other = false

section

variable {table first second : TypeTable} {slots : List ArgumentSlot} {explicit : List TypeSymbol}
  {candidates others : List MethodCandidate} {candidate : MethodCandidate}
  {entry : MethodCandidate × ApplicableMethod}

theorem Permuted.symm (permuted : Permuted candidates others) : Permuted others candidates :=
  List.Perm.symm permuted

theorem Permuted.isEmpty_eq (permuted : Permuted candidates others) :
    candidates.isEmpty = others.isEmpty := by
  simpa using List.Perm.isEmpty_eq permuted

theorem Permuted.exists_mem (permuted : Permuted candidates others)
    (member : candidate ∈ candidates) : ∃ other ∈ others, other.unplaced = candidate.unplaced :=
  List.mem_map.mp (permuted.mem_iff.mp (List.mem_map_of_mem member))

theorem Permuted.map_isReduced (permuted : Permuted candidates others) :
    Permuted (candidates.map fun candidate => { candidate with isReduced := true })
      (others.map fun candidate => { candidate with isReduced := true }) := by
  have commute (candidates : List MethodCandidate) :
      (candidates.map fun candidate => { candidate with isReduced := true }).map
          MethodCandidate.unplaced =
        (candidates.map MethodCandidate.unplaced).map
          fun candidate => { candidate with isReduced := true } := by
    rw [List.map_map, List.map_map]
    rfl
  rw [Permuted, commute, commute]
  exact List.Perm.map _ permuted

theorem OfOneDeclaration.map_isReduced (ofOne : OfOneDeclaration candidates) :
    OfOneDeclaration (candidates.map fun candidate => { candidate with isReduced := true }) := by
  simpa only [OfOneDeclaration, List.forall_mem_map] using ofOne

theorem OfOneDeclaration.of_permuted (permuted : Permuted candidates others)
    (ofOne : OfOneDeclaration candidates) : OfOneDeclaration others := by
  intro left isLeft right isRight
  rcases permuted.symm.exists_mem isLeft with ⟨found, isFound, sameLeft⟩
  rcases permuted.symm.exists_mem isRight with ⟨wanted, isWanted, sameRight⟩
  rw [← left.unplaced_owner, ← right.unplaced_owner, ← left.unplaced_id, ← right.unplaced_id,
    ← sameLeft, ← sameRight]
  exact ofOne found isFound wanted isWanted

/-- Whether methods have signatures of their own depends neither on their order nor on the order of
methods in declarations. -/
theorem HaveOwnSignatures.of_permuted (same : SameTypes first second)
    (permuted : Permuted candidates others)
    (own : first.HaveOwnSignatures slots explicit candidates) :
    second.HaveOwnSignatures slots explicit others := by
  have unplaced : first.HaveOwnSignatures slots explicit
      (candidates.map MethodCandidate.unplaced) := by
    refine List.pairwise_map.mpr (own.imp ?_)
    simp only [applicable?_unplaced, MethodCandidate.unplaced_owner, MethodCandidate.unplaced_id]
    exact id
  have reordered := List.Perm.pairwise permuted unplaced
    fun differ sameOwner sameId found isFound other isOther => by
      rw [ApplicableMethod.sameSignature_comm]
      exact differ sameOwner.symm sameId.symm other isOther found isFound
  refine (List.pairwise_map.mp reordered).imp ?_
  intro left right differ sameOwner sameId found isFound other isOther
  refine differ sameOwner sameId found ?_ other ?_
  · rwa [applicable?_unplaced, same.applicable?_eq rfl]
  · rwa [applicable?_unplaced, same.applicable?_eq rfl]

/-- If all applicable methods of a declaration have signatures of their own, each of them stays. -/
theorem stays_of_mem {applicable : ApplicableMethod} (ofOne : OfOneDeclaration candidates)
    (own : table.HaveOwnSignatures slots explicit candidates) (member : candidate ∈ candidates)
    (isApplicable : table.applicable? slots explicit candidate = some applicable) :
    table.Stays slots explicit candidates (candidate, applicable) := by
  rcases List.append_of_mem member with ⟨before, after, rfl⟩
  refine ⟨before, after, rfl, isApplicable, fun earlier isBefore found isFound => ?_⟩
  have ofSame := ofOne earlier (List.mem_append_left _ isBefore) candidate member
  exact (List.pairwise_append.mp own).2.2 earlier isBefore candidate List.mem_cons_self ofSame.1
    ofSame.2 found isFound applicable isApplicable

namespace CandidatesReorder

theorem refl (candidates : List MethodCandidate) : CandidatesReorder candidates candidates := by
  induction candidates with
  | nil => exact .nil
  | cons candidate rest ih =>
    have itself : Permuted [candidate] [candidate] := .refl _
    exact .block itself (by simp [OfOneDeclaration]) ih

theorem permuted (reorder : CandidatesReorder candidates others) : Permuted candidates others := by
  induction reorder with
  | nil => exact .refl _
  | block permuted _ _ ih =>
    rw [Permuted, List.map_append, List.map_append]
    exact List.Perm.append permuted ih

theorem symm (reorder : CandidatesReorder candidates others) :
    CandidatesReorder others candidates := by
  induction reorder with
  | nil => exact .nil
  | block permuted ofOne _ ih => exact .block permuted.symm (ofOne.of_permuted permuted) ih

variable (same : SameTypes first second) (reorder : CandidatesReorder candidates others)
  (own : first.HaveOwnSignatures slots explicit candidates)

include same reorder own

/-- What stays in one order stays in the other. -/
theorem exists_stays (stays : first.Stays slots explicit candidates entry) :
    ∃ candidate, second.Stays slots explicit others (candidate, entry.2) ∧
      candidate.unplaced = entry.1.unplaced := by
  -- declaration by declaration: a method stays if no method of an earlier one has its signature
  induction reorder with
  | nil =>
    rcases stays with ⟨before, after, split, -⟩
    simp at split
  | @block methods others rest following permuted ofOne reorder ih =>
    rcases List.pairwise_append.mp own with ⟨ownHere, ownLater, -⟩
    rcases stays_append_iff.mp stays with ⟨before, after, split, isApplicable, -⟩ | ⟨later, isNew⟩
    · have isHere : entry.1 ∈ methods := by simp [split]
      rcases permuted.exists_mem isHere with ⟨candidate, member, alike⟩
      refine ⟨candidate, stays_append_iff.mpr (.inl ?_), alike⟩
      refine stays_of_mem (ofOne.of_permuted permuted) ?_ member ?_
      · exact HaveOwnSignatures.of_permuted same permuted ownHere
      · rwa [← same.applicable?_eq alike.symm]
    · rcases ih ownLater later with ⟨candidate, staysLater, alike⟩
      refine ⟨candidate, stays_append_iff.mpr (.inr ⟨staysLater, ?_⟩), alike⟩
      intro other member found isFound
      rcases permuted.symm.exists_mem member with ⟨earlier, isEarlier, sameMethod⟩
      refine isNew earlier isEarlier found ?_
      rwa [same.applicable?_eq sameMethod]

/-- What wins in one order wins in the other. -/
theorem exists_wins (wins : first.Wins slots explicit candidates entry) :
    ∃ candidate, second.Wins slots explicit others (candidate, entry.2) ∧
      candidate.unplaced = entry.1.unplaced := by
  rcases reorder.exists_stays same own wins.stays with ⟨candidate, stays, alike⟩
  refine ⟨candidate, ⟨stays, fun rival rivalStays differs => ?_⟩, alike⟩
  rcases reorder.symm.exists_stays same.symm (own.of_permuted same reorder.permuted) rivalStays with
    ⟨other, otherStays, sameRival⟩
  rw [← same.isBetter_eq]
  refine wins.isBetter (other, rival.2) otherStays fun isEntry => differs ?_
  refine rivalStays.eq_of_sameSignature stays ?_
  rw [← isEntry]
  exact rival.2.sameSignature_self

end CandidatesReorder

/-- What is chosen of candidates, and what is chosen of them in another order. -/
theorem map_best?_eq (same : SameTypes first second)
    (reorder : CandidatesReorder candidates others)
    (own : first.HaveOwnSignatures slots explicit candidates) :
    (first.best? slots (first.applicableMethods slots explicit candidates)).map
        (Prod.map MethodCandidate.unplaced id) =
      (second.best? slots (second.applicableMethods slots explicit others)).map
        (Prod.map MethodCandidate.unplaced id) := by
  cases firstIs : first.best? slots (first.applicableMethods slots explicit candidates) with
  | some entry =>
    rcases reorder.exists_wins same own (best?_eq_some_iff.mp firstIs) with
      ⟨candidate, wins, alike⟩
    rw [best?_eq_some_iff.mpr wins, Option.map_some, Option.map_some, Prod.map, Prod.map, alike]
  | none =>
    cases secondIs : second.best? slots (second.applicableMethods slots explicit others) with
    | none => rfl
    | some entry =>
      rcases reorder.symm.exists_wins same.symm (own.of_permuted same reorder.permuted)
        (best?_eq_some_iff.mp secondIs) with ⟨candidate, wins, -⟩
      rw [best?_eq_some_iff.mpr wins] at firstIs
      cases firstIs

end

end TypeTable

end AssertionLint
