import AssertionLint.Assertions.Analysis
import AssertionLint.Proofs.Text.Splice
import Mathlib.Data.List.Dedup
import Mathlib.Data.List.Perm.Basic

/-!
# Which edits are accepted

From a sorted list, acceptance keeps edits that lie one behind the other
(`pairwise_precedes_acceptEdits`) and leaves out an edit only for a reason: it changes nothing, it
is there already, or it starts inside an accepted edit (`accepted_or_startsWithin`). An edit is
compared with the last one accepted only, which is enough because the ends of accepted edits never
go back.

Repetition does not matter as long as equal spans mean equal edits: copies then stand side by side
in a sorted list, and a copy fares like the edit before it (`acceptEdits_dedup`). So only the set of
the offered edits counts (`applyOffered_congr`).
-/

namespace AssertionLint

/-- An edit starts before the end of an edit that starts no later. -/
def TextEdit.StartsWithin (edit earlier : TextEdit) : Prop :=
  earlier.span.start ≤ edit.span.start ∧ edit.span.start < earlier.span.stop

namespace Configuration

variable {source : String} {previous : Option TextEdit} {edits : List TextEdit}

theorem acceptEdits_sublist (source : String) (previous : Option TextEdit)
    (edits : List TextEdit) : (acceptEdits source previous edits).Sublist edits := by
  fun_induction acceptEdits source previous edits with
  | case1 => exact List.Sublist.refl []
  | case2 previous edit rest _ ih => exact ih.cons edit
  | case3 previous edit rest _ ih => exact ih.cons_cons edit

theorem mem_of_mem_acceptEdits {edit : TextEdit}
    (accepted : edit ∈ acceptEdits source previous edits) : edit ∈ edits :=
  (acceptEdits_sublist source previous edits).mem accepted

theorem precedes_of_mem_acceptEdits (ordered : ∀ edit ∈ edits, edit.span.start ≤ edit.span.stop)
    {last edit : TextEdit} (accepted : edit ∈ acceptEdits source (some last) edits) :
    last.Precedes edit := by
  induction edits generalizing last with
  | nil => simp [acceptEdits] at accepted
  | cons head rest ih =>
    rcases List.forall_mem_cons.mp ordered with ⟨headOrdered, restOrdered⟩
    rw [acceptEdits] at accepted
    split at accepted
    · exact ih restOrdered accepted
    · rename_i kept
      have headBehind : last.Precedes head := by
        simp only [Option.any_some, Bool.or_eq_true, decide_eq_true_eq, not_or] at kept
        exact Nat.le_of_not_lt kept.2.2
      rcases List.mem_cons.mp accepted with rfl | later
      · exact headBehind
      · have behindHead := ih restOrdered later
        unfold TextEdit.Precedes at headBehind behindHead ⊢
        omega

/-- Accepted edits lie one behind the other. -/
theorem pairwise_precedes_acceptEdits (source : String) (previous : Option TextEdit)
    (ordered : ∀ edit ∈ edits, edit.span.start ≤ edit.span.stop) :
    (acceptEdits source previous edits).Pairwise TextEdit.Precedes := by
  induction edits generalizing previous with
  | nil => exact List.Pairwise.nil
  | cons head rest ih =>
    rcases List.forall_mem_cons.mp ordered with ⟨-, restOrdered⟩
    rw [acceptEdits]
    split
    · exact ih previous restOrdered
    · exact List.pairwise_cons.mpr
        ⟨fun edit accepted => precedes_of_mem_acceptEdits restOrdered accepted,
          ih (some head) restOrdered⟩

/-- In a sorted list every edit that changes something is accepted or starts inside an edit that is
accepted, where the edit accepted before the list counts, too. -/
theorem accepted_or_startsWithin
    (sorted : (previous.toList ++ edits).Pairwise fun left right => left.notAfter right = true)
    {edit : TextEdit} (offered : edit ∈ edits) (changes : edit.isNoop source = false) :
    edit ∈ previous.toList ++ acceptEdits source previous edits ∨
      ∃ earlier ∈ previous.toList ++ acceptEdits source previous edits,
        edit.StartsWithin earlier := by
  -- by induction over the list, for every edit that may have been accepted in front of it
  induction edits generalizing previous with
  | nil => simp at offered
  | cons head rest ih =>
    have skipped : (previous.toList ++ rest).Sublist (previous.toList ++ head :: rest) :=
      (List.sublist_cons_self head rest).append_left _
    rw [acceptEdits]
    split
    · rename_i refused
      rcases List.mem_cons.mp offered with rfl | later
      · cases previous with
        | none => simp [changes] at refused
        | some last =>
          have lastFirst : last.notAfter edit = true := by
            simp only [Option.toList_some, List.singleton_append, List.pairwise_cons] at sorted
            exact sorted.1 edit List.mem_cons_self
          simp only [changes, Option.any_some, Bool.false_or, Bool.or_eq_true, beq_iff_eq,
            decide_eq_true_eq] at refused
          rcases refused with rfl | inside
          · exact .inl (by simp)
          · rw [TextEdit.notAfter, Span.notAfter_iff] at lastFirst
            refine .inr ⟨last, by simp, ?_, inside⟩
            omega
      · exact ih (sorted.sublist skipped) later
    · rcases List.mem_cons.mp offered with rfl | later
      · exact .inl (by simp)
      · have restSorted : ((some head).toList ++ rest).Pairwise
            fun left right => left.notAfter right = true :=
          sorted.sublist (List.sublist_append_right previous.toList (head :: rest))
        have widened : ∀ other, other ∈ (some head).toList ++ acceptEdits source (some head) rest →
            other ∈ previous.toList ++ head :: acceptEdits source (some head) rest := by
          intro other member
          exact List.mem_append_right _ (by simpa using member)
        rcases ih restSorted later with accepted | ⟨earlier, accepted, within⟩
        · exact .inl (widened _ accepted)
        · exact .inr ⟨earlier, widened _ accepted, within⟩

/-- A second copy fares like the first: it is left out whether or not the first one is. -/
theorem acceptEdits_cons_cons (source : String) (previous : Option TextEdit) (edit : TextEdit)
    (rest : List TextEdit) :
    acceptEdits source previous (edit :: edit :: rest) =
      acceptEdits source previous (edit :: rest) := by
  by_cases refused : (edit.isNoop source ||
      previous.any (fun last => last == edit || edit.span.start < last.span.stop)) = true
  · rw [acceptEdits, if_pos refused]
  · have second : acceptEdits source (some edit) (edit :: rest) =
        acceptEdits source (some edit) rest := by
      rw [acceptEdits, if_pos (by simp)]
    rw [acceptEdits, if_neg refused, second, acceptEdits, if_neg refused]

/-- In a sorted list, copies of one edit stand side by side if equal spans mean equal edits. -/
theorem head_eq_of_mem {head : TextEdit} {rest : List TextEdit} (repeated : head ∈ rest)
    (sorted : (head :: rest).Pairwise fun left right => left.notAfter right = true)
    (distinct : TextEdit.SpansAreDistinct (head :: rest)) : ∃ others, rest = head :: others := by
  cases rest with
  | nil => simp at repeated
  | cons next others =>
    rcases List.mem_cons.mp repeated with rfl | later
    · exact ⟨others, rfl⟩
    · rw [List.pairwise_cons, List.pairwise_cons] at sorted
      have before : head.notAfter next = true := sorted.1 next (by simp)
      have behind : next.notAfter head = true := sorted.2.1 head later
      have same : head = next :=
        distinct head (by simp) next (by simp) (Span.eq_of_notAfter before behind)
      exact ⟨others, by rw [same]⟩

/-- Acceptance does not see repetitions in a sorted list in which equal spans mean equal edits. -/
theorem acceptEdits_dedup
    (sorted : edits.Pairwise fun left right => left.notAfter right = true)
    (distinct : TextEdit.SpansAreDistinct edits) :
    acceptEdits source previous edits = acceptEdits source previous edits.dedup := by
  induction edits generalizing previous with
  | nil => simp
  | cons head rest ih =>
    have restDistinct : TextEdit.SpansAreDistinct rest :=
      fun left leftMem right rightMem =>
        distinct left (List.mem_cons_of_mem head leftMem) right
          (List.mem_cons_of_mem head rightMem)
    have restSorted := (List.pairwise_cons.mp sorted).2
    by_cases repeated : head ∈ rest
    · rcases head_eq_of_mem repeated sorted distinct with ⟨others, rfl⟩
      rw [acceptEdits_cons_cons, List.dedup_cons_of_mem repeated]
      exact ih restSorted restDistinct
    · rw [List.dedup_cons_of_notMem repeated, acceptEdits, acceptEdits]
      split
      · exact ih restSorted restDistinct
      · rw [ih restSorted restDistinct]

theorem nodup_acceptEdits
    (sorted : edits.Pairwise fun left right => left.notAfter right = true)
    (distinct : TextEdit.SpansAreDistinct edits) : (acceptEdits source previous edits).Nodup := by
  rw [acceptEdits_dedup sorted distinct]
  exact (List.nodup_dedup edits).sublist (acceptEdits_sublist source previous edits.dedup)

/-- The text with the accepted ones of several offered edits applied. -/
def applyOffered (source : String) (offered : List TextEdit) : Except Error String :=
  (TextEdit.applyAll source (acceptEdits source none
    (offered.mergeSort fun left right => left.span.notAfter right.span))).mapError
      EditFault.toError

theorem fixAll_eq_bind {m : Type → Type} [Monad m] (configuration : Configuration)
    (tree : SyntaxTree) (model : SemanticModel m) (diagnostics : List Diagnostic)
    (equivalenceKey : String) (token : CancellationToken) :
    configuration.fixAll tree model diagnostics equivalenceKey token =
      configuration.offeredEdits tree model equivalenceKey token diagnostics >>= fun offered =>
        pure (offered.bind (applyOffered tree.source)) :=
  rfl

theorem run_fixAll_eq_bind {σ : Type} (configuration : Configuration) (tree : SyntaxTree)
    (model : SemanticModel (StateM σ)) (diagnostics : List Diagnostic) (equivalenceKey : String)
    (token : CancellationToken) (state : σ) :
    ((configuration.fixAll tree model diagnostics equivalenceKey token).run state).1 =
      ((configuration.offeredEdits tree model equivalenceKey token diagnostics).run state).1.bind
        (applyOffered tree.source) :=
  rfl

theorem applyOffered_eq_ok {source fixed : String} {offered sorted : List TextEdit}
    (isSorted : offered.mergeSort (fun left right => left.span.notAfter right.span) = sorted)
    (applied : TextEdit.applyAll source (acceptEdits source none sorted) = .ok fixed) :
    applyOffered source offered = .ok fixed := by
  rw [applyOffered, isSorted, applied]
  rfl

/-- Which text results depends only on the set of the offered edits if equal spans mean equal
edits. -/
theorem applyOffered_congr (source : String) {left right : List TextEdit}
    (sameEdits : ∀ edit, edit ∈ left ↔ edit ∈ right) (distinct : TextEdit.SpansAreDistinct left) :
    applyOffered source left = applyOffered source right := by
  have leftSorted := TextEdit.pairwise_mergeSort_notAfter left
  have rightSorted := TextEdit.pairwise_mergeSort_notAfter right
  generalize leftIs : left.mergeSort (fun one other => one.span.notAfter other.span) = leftEdits
    at leftSorted
  generalize rightIs : right.mergeSort (fun one other => one.span.notAfter other.span) =
    rightEdits at rightSorted
  have inLeft : ∀ edit, edit ∈ leftEdits ↔ edit ∈ left := by simp [← leftIs]
  have inRight : ∀ edit, edit ∈ rightEdits ↔ edit ∈ left := by simp [← rightIs, sameEdits]
  have leftDistinct : TextEdit.SpansAreDistinct leftEdits :=
    fun one oneMem other otherMem =>
      distinct one ((inLeft one).mp oneMem) other ((inLeft other).mp otherMem)
  have rightDistinct : TextEdit.SpansAreDistinct rightEdits :=
    fun one oneMem other otherMem =>
      distinct one ((inRight one).mp oneMem) other ((inRight other).mp otherMem)
  have sameOnce : leftEdits.dedup = rightEdits.dedup := by
    refine List.Perm.eq_of_pairwise ?_ (leftSorted.sublist (List.dedup_sublist leftEdits))
      (rightSorted.sublist (List.dedup_sublist rightEdits)) ?_
    · intro one other oneMem otherMem before behind
      exact distinct one ((inLeft one).mp (List.mem_dedup.mp oneMem)) other
        ((inRight other).mp (List.mem_dedup.mp otherMem)) (Span.eq_of_notAfter before behind)
    · refine (List.perm_ext_iff_of_nodup (List.nodup_dedup _) (List.nodup_dedup _)).mpr ?_
      intro edit
      rw [List.mem_dedup, List.mem_dedup, inLeft, inRight]
  rw [applyOffered, applyOffered, leftIs, rightIs, acceptEdits_dedup leftSorted leftDistinct,
    acceptEdits_dedup rightSorted rightDistinct, sameOnce]

end Configuration

end AssertionLint
