import AssertionLint.Assertions.CompositeFormat
import AssertionLint.Proofs.Text.Number

/-!
# Items of composite formats

The text between the braces of an item is the number of an argument, then perhaps a comma and a
width, then perhaps a colon and a format clause. Reading it succeeds if and only if the number and
the width are numbers in range and the clause is not empty (`FormatItem.isReadAs_of_ofBody?` and
`FormatItem.ofBody?_eq_none_iff`).
-/

namespace AssertionLint.FormatItem

/-- An optional part of an item behind its separator. -/
def separated (separator : Char) (part : Option (List Char)) : List Char :=
  part.elim [] (separator :: ·)

/-- The text of an item consists of the number, the width and the format clause as they are
written; the first colon starts the clause, and the first comma in front of it starts the width. -/
structure Splits (body number : List Char) (width clause : Option (List Char)) : Prop where
  body_eq : body = number ++ separated ',' width ++ separated ':' clause
  comma_notMem : ',' ∉ number
  colon_notMem : ':' ∉ number
  colon_notMem_width : ∀ written ∈ width, ':' ∉ written

/-- The number of an argument between blanks, a natural number of 64 bits. -/
def IsIndex (written : List Char) (index : Nat) : Prop :=
  ∃ digits, Text.IsPadded digits written ∧ Text.IsNatural digits index ∧
    index < 0x10000000000000000

/-- A width between blanks, an integer of 32 bits. -/
def IsWidth (written : List Char) (width : Int) : Prop :=
  ∃ digits, Text.IsPadded digits written ∧ Text.IsInteger digits width ∧
    -0x80000000 ≤ width ∧ width < 0x80000000

/-- The text of an item gives the number of an argument, a width and a format clause. -/
def IsReadAs (body : List Char) (index : Nat) (width : Option Int) (clause : Option (List Char)) :
    Prop :=
  ∃ number written, Splits body number written clause ∧ IsIndex number index ∧
    Option.Rel IsWidth written width ∧ clause ≠ some []

/-- The text of an item that cannot be read. -/
inductive IsFaulty (body : List Char) : Prop
  | number {number : List Char} {width clause : Option (List Char)} :
      Splits body number width clause → (∀ index, ¬ IsIndex number index) → IsFaulty body
  | width {number written : List Char} {clause : Option (List Char)} :
      Splits body number (some written) clause → (∀ width, ¬ IsWidth written width) →
      IsFaulty body
  | clause {number : List Char} {width : Option (List Char)} :
      Splits body number width (some []) → IsFaulty body

theorem cutAt_eq_iff {separator : Char} {text before : List Char} {after : Option (List Char)} :
    cutAt separator text = (before, after) ↔
      text = before ++ separated separator after ∧ separator ∉ before := by
  induction text generalizing before with
  | nil =>
    cases before <;> cases after <;> simp [cutAt, separated]
  | cons c rest ih =>
    rw [cutAt]
    split
    · rename_i isSeparator
      cases before with
      | nil => cases after <;> simp [separated, isSeparator]
      | cons first inner =>
        constructor
        · intro found
          simp at found
        · rintro ⟨whole, free⟩
          have same : first = separator := (List.cons.inj whole).1.symm.trans isSeparator
          exact (free (same ▸ List.mem_cons_self)).elim
    · rename_i isOther
      rcases cut : cutAt separator rest with ⟨front, behind⟩
      cases before with
      | nil => cases after <;> simp [separated, isOther]
      | cons first inner =>
        have inRest := @ih inner
        simp only [cut, Prod.mk.injEq] at inRest
        simp only [Prod.mk.injEq, List.cons.injEq, List.cons_append, List.mem_cons, not_or,
          and_assoc, inRest]
        constructor
        · rintro ⟨rfl, whole, free⟩
          exact ⟨rfl, whole, Ne.symm isOther, free⟩
        · rintro ⟨rfl, whole, -, free⟩
          exact ⟨rfl, whole, free⟩

theorem splits_iff {body number : List Char} {width clause : Option (List Char)} :
    Splits body number width clause ↔
      ∃ head, cutAt ':' body = (head, clause) ∧ cutAt ',' head = (number, width) := by
  simp only [cutAt_eq_iff]
  constructor
  · rintro ⟨bodyIs, noComma, noColon, widthFree⟩
    refine ⟨_, ⟨bodyIs, ?_⟩, rfl, noComma⟩
    cases width with
    | none => simpa [separated] using noColon
    | some written => simpa [separated, noColon] using widthFree
  · rintro ⟨head, ⟨bodyIs, noColon⟩, rfl, noComma⟩
    refine ⟨bodyIs, noComma, fun member => noColon (List.mem_append_left _ member), ?_⟩
    rintro written rfl member
    exact noColon (List.mem_append_right _ (List.mem_cons_of_mem _ member))

theorem isIndex_iff {written : List Char} {index : Nat} :
    IsIndex written index ↔
      Text.natural? 10 0x10000000000000000 (Text.trim written) = some index := by
  rw [Text.natural?_eq_some_iff]
  constructor
  · rintro ⟨digits, padded, natural, small⟩
    exact ⟨padded.trim_eq natural.not_blank ▸ natural, small⟩
  · rintro ⟨natural, small⟩
    exact ⟨_, Text.isPadded_trim written, natural, small⟩

theorem isWidth_iff {written : List Char} {width : Int} :
    IsWidth written width ↔ Text.integer? 10 0x80000000 (Text.trim written) = some width := by
  rw [Text.integer?_eq_some_iff (by decide)]
  constructor
  · rintro ⟨digits, padded, integer, range⟩
    exact ⟨padded.trim_eq integer.not_blank ▸ integer, range⟩
  · rintro ⟨integer, range⟩
    exact ⟨_, Text.isPadded_trim written, integer, range⟩

theorem exists_splits (body : List Char) :
    ∃ number width clause, Splits body number width clause :=
  ⟨_, _, _, splits_iff.mpr ⟨_, rfl, rfl⟩⟩

theorem Splits.unique {body number other : List Char}
    {width clause otherWidth otherClause : Option (List Char)}
    (first : Splits body number width clause)
    (second : Splits body other otherWidth otherClause) :
    number = other ∧ width = otherWidth ∧ clause = otherClause := by
  rcases splits_iff.mp first with ⟨head, atColon, atComma⟩
  rcases splits_iff.mp second with ⟨otherHead, otherAtColon, otherAtComma⟩
  cases atColon.symm.trans otherAtColon
  cases atComma.symm.trans otherAtComma
  exact ⟨rfl, rfl, rfl⟩

theorem rightUnique_isIndex : Relator.RightUnique IsIndex := fun _ _ _ first second =>
  Option.some.inj ((isIndex_iff.mp first).symm.trans (isIndex_iff.mp second))

theorem rightUnique_isWidth : Relator.RightUnique IsWidth := fun _ _ _ first second =>
  Option.some.inj ((isWidth_iff.mp first).symm.trans (isWidth_iff.mp second))

theorem rightUnique_optionRel {α β : Type} {relation : α → β → Prop}
    (unique : Relator.RightUnique relation) : Relator.RightUnique (Option.Rel relation) := by
  intro optional first second isFirst isSecond
  cases isFirst with
  | none =>
    cases isSecond
    rfl
  | some isFirst =>
    cases isSecond with
    | some isSecond => rw [unique isFirst isSecond]

theorem IsReadAs.unique {body : List Char} {index other : Nat} {width otherWidth : Option Int}
    {clause otherClause : Option (List Char)} (first : IsReadAs body index width clause)
    (second : IsReadAs body other otherWidth otherClause) :
    index = other ∧ width = otherWidth ∧ clause = otherClause := by
  rcases first with ⟨number, written, splits, isIndex, isWidth, -⟩
  rcases second with ⟨otherNumber, otherWritten, otherSplits, otherIsIndex, otherIsWidth, -⟩
  rcases splits.unique otherSplits with ⟨rfl, rfl, rfl⟩
  exact ⟨rightUnique_isIndex isIndex otherIsIndex,
    rightUnique_optionRel rightUnique_isWidth isWidth otherIsWidth, rfl⟩

theorem formatClause?_eq_some_iff {clause format : Option (List Char)} :
    formatClause? clause = some format ↔ format = clause ∧ clause ≠ some [] := by
  rcases clause with _ | _ | _ <;> simp [formatClause?, eq_comm]

theorem formatClause?_eq_none_iff {clause : Option (List Char)} :
    formatClause? clause = none ↔ clause = some [] := by
  rcases clause with _ | _ | _ <;> simp [formatClause?]

theorem exists_of_alignmentClause? {written : Option (List Char)}
    (failed : alignmentClause? written = none) :
    ∃ text, written = some text ∧ ∀ width, ¬ IsWidth text width := by
  cases written with
  | none => cases failed
  | some text =>
    refine ⟨text, rfl, fun width isWidth => ?_⟩
    have unread := Option.map_eq_none_iff.mp failed
    rw [isWidth_iff.mp isWidth] at unread
    cases unread

theorem exists_width_of_alignmentClause? {written alignment : Option (List Char)}
    (read : alignmentClause? written = some alignment) :
    ∃ width, Option.Rel IsWidth written width ∧ Option.Rel Text.IsInteger alignment width := by
  cases written with
  | none =>
    cases read
    exact ⟨none, .none, .none⟩
  | some text =>
    rcases Option.map_eq_some_iff.mp read with ⟨width, widthIs, rfl⟩
    exact ⟨some width, .some (isWidth_iff.mpr widthIs),
      .some ((Text.integer?_eq_some_iff (by decide)).mp widthIs).1⟩

/-- Reading an item gives its parts; the alignment is kept without blanks. -/
theorem isReadAs_of_ofBody? {body : List Char} {item : FormatItem}
    (read : ofBody? body = some item) :
    ∃ width, IsReadAs body item.index width item.format ∧
      Option.Rel Text.IsInteger item.alignment width := by
  rcases colon : cutAt ':' body with ⟨head, clause⟩
  rcases comma : cutAt ',' head with ⟨number, written⟩
  simp only [ofBody?, colon, comma, bind, pure, Option.bind_eq_some_iff, Option.some.injEq] at read
  rcases read with ⟨format, clauseRead, alignment, alignmentRead, index, indexRead, rfl⟩
  rcases formatClause?_eq_some_iff.mp clauseRead with ⟨rfl, nonempty⟩
  rcases exists_width_of_alignmentClause? alignmentRead with ⟨width, isWidth, isInteger⟩
  exact ⟨width, ⟨number, written, splits_iff.mpr ⟨head, colon, comma⟩,
    isIndex_iff.mpr indexRead, isWidth, nonempty⟩, isInteger⟩

theorem IsFaulty.not_isReadAs {body : List Char} {index : Nat} {width : Option Int}
    {clause : Option (List Char)} (faulty : IsFaulty body) :
    ¬ IsReadAs body index width clause := by
  rintro ⟨number, written, splits, isIndex, isWidth, nonempty⟩
  cases faulty with
  | number other noIndex =>
    rcases splits.unique other with ⟨rfl, -, -⟩
    exact noIndex _ isIndex
  | width other noWidth =>
    rcases splits.unique other with ⟨-, rfl, -⟩
    cases isWidth with
    | some isWidth => exact noWidth _ isWidth
  | clause other => exact nonempty (splits.unique other).2.2

/-- An item cannot be read if and only if one of its parts is wrong. -/
theorem ofBody?_eq_none_iff {body : List Char} : ofBody? body = none ↔ IsFaulty body := by
  constructor
  · intro failed
    rcases exists_splits body with ⟨number, written, clause, splits⟩
    rcases splits_iff.mp splits with ⟨head, colon, comma⟩
    simp only [ofBody?, colon, comma, bind, Option.bind_eq_none_iff] at failed
    rcases clauseRead : formatClause? clause with _ | format
    · rw [formatClause?_eq_none_iff.mp clauseRead] at splits
      exact .clause splits
    rcases alignmentRead : alignmentClause? written with _ | alignment
    · rcases exists_of_alignmentClause? alignmentRead with ⟨text, rfl, noWidth⟩
      exact .width splits noWidth
    refine .number splits fun index isIndex => ?_
    have read := failed format clauseRead alignment alignmentRead index (isIndex_iff.mp isIndex)
    cases read
  · intro faulty
    by_contra read
    rcases Option.ne_none_iff_exists'.mp read with ⟨item, itemRead⟩
    rcases isReadAs_of_ofBody? itemRead with ⟨width, isReadAs, -⟩
    exact faulty.not_isReadAs isReadAs

end AssertionLint.FormatItem
