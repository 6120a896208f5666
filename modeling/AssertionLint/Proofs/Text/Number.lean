import AssertionLint.Text.Basic
import Mathlib.Data.List.TakeWhile
import Mathlib.Logic.Relator

/-!
# Decimal numbers between blanks

Which texts the readers of decimal numbers accept and with which value, and what trimming leaves of
a number that stands between blanks.
-/

namespace AssertionLint.Text

/-- A text of at least one decimal digit, with its value. -/
structure IsNumeral (text : List Char) (value : Nat) : Prop where
  nonempty : text ≠ []
  digits : ∀ c ∈ text, c.isDigit = true
  value_eq : value = Nat.ofDigitChars 10 text 0

/-- Digits with an optional plus sign. -/
inductive IsNatural : List Char → Nat → Prop
  | unsigned {text : List Char} {value : Nat} : IsNumeral text value → IsNatural text value
  | plus {text : List Char} {value : Nat} : IsNumeral text value → IsNatural ('+' :: text) value

/-- Digits with an optional sign. -/
inductive IsInteger : List Char → Int → Prop
  | natural {text : List Char} {value : Nat} : IsNatural text value → IsInteger text value
  | minus {text : List Char} {value : Nat} : IsNumeral text value → IsInteger ('-' :: text) (-value)

theorem IsNumeral.head_isDigit {c : Char} {text : List Char} {value : Nat}
    (numeral : IsNumeral (c :: text) value) : c.isDigit = true :=
  numeral.digits c List.mem_cons_self

theorem digitValue?_ten (c : Char) :
    digitValue? 10 c = if c.isDigit then some (c.toNat - '0'.toNat) else none := by
  have zero : '0'.toNat = 48 := rfl
  unfold digitValue?
  by_cases digit : c.isDigit = true
  · have small : c.toNat - 48 < 10 := by
      simp only [Char.isDigit, Bool.and_eq_true, decide_eq_true_eq] at digit
      have := digit.2
      simp only [UInt32.le_iff_toNat_le] at this
      change c.toNat ≤ 57 at this
      omega
    simp [digit, small, zero]
  · have large : ∀ first : Char, first ≤ c → first.toNat ≤ c.toNat := fun _ least =>
      UInt32.le_iff_toNat_le.mp least
    simp only [digit, Bool.false_eq_true, if_false]
    split
    · rename_i inside
      have := large 'a' inside.1
      have : 'a'.toNat = 97 := rfl
      exact if_neg (by omega)
    · split
      · rename_i inside
        have := large 'A' inside.1
        have : 'A'.toNat = 65 := rfl
        exact if_neg (by omega)
      · rfl

theorem digitsValue?_eq_some_iff {start value : Nat} {text : List Char} :
    digitsValue? 10 start text = some value ↔
      (∀ c ∈ text, c.isDigit = true) ∧ value = Nat.ofDigitChars 10 text start := by
  induction text generalizing start with
  | nil =>
    simp only [digitsValue?, Option.some.injEq, List.not_mem_nil, false_imp_iff, implies_true,
      true_and, Nat.ofDigitChars_nil]
    exact eq_comm
  | cons c rest ih =>
    rw [digitsValue?, digitValue?_ten, Nat.ofDigitChars_cons, Nat.mul_comm 10 start]
    by_cases digit : c.isDigit = true
    · simp only [digit, if_true, Option.bind_some, ih, List.forall_mem_cons, true_and]
    · simp [digit]

theorem digits?_eq_some_iff {text : List Char} {value : Nat} :
    digits? 10 text = some value ↔ IsNumeral text value := by
  cases text with
  | nil => exact ⟨fun read => by simp [digits?] at read, fun numeral => (numeral.nonempty rfl).elim⟩
  | cons c rest =>
    rw [digits?, digitsValue?_eq_some_iff]
    · exact ⟨fun read => ⟨List.cons_ne_nil _ _, read.1, read.2⟩, fun numeral =>
        ⟨numeral.digits, numeral.value_eq⟩⟩
    · exact List.cons_ne_nil _ _

/-- Reading a natural number accepts digits with an optional plus sign, below the bound. -/
theorem natural?_eq_some_iff {bound value : Nat} {text : List Char} :
    natural? 10 bound text = some value ↔ IsNatural text value ∧ value < bound := by
  have bounded : ∀ digits, ((digits? 10 digits).bind fun read =>
      if read < bound then some read else none) = some value ↔
        IsNumeral digits value ∧ value < bound := by
    intro digits
    simp only [Option.bind_eq_some_iff, Option.ite_none_right_eq_some, Option.some.injEq,
      digits?_eq_some_iff]
    exact ⟨fun ⟨_, numeral, small, same⟩ => same ▸ ⟨numeral, small⟩,
      fun ⟨numeral, small⟩ => ⟨value, numeral, small, rfl⟩⟩
  unfold natural?
  refine (bounded _).trans (and_congr_left fun _ => ?_)
  split
  · refine ⟨.plus, fun natural => ?_⟩
    cases natural with
    | unsigned numeral => exact absurd numeral.head_isDigit (by decide)
    | plus numeral => exact numeral
  · rename_i unsigned
    refine ⟨.unsigned, fun natural => ?_⟩
    cases natural with
    | unsigned numeral => exact numeral
    | plus numeral => exact (unsigned _ rfl).elim

/-- Reading an integer accepts digits with an optional sign, from minus the bound to below it. -/
theorem integer?_eq_some_iff {bound : Nat} (positive : 0 < bound) {text : List Char}
    {value : Int} :
    integer? 10 bound text = some value ↔
      IsInteger text value ∧ -(bound : Int) ≤ value ∧ value < bound := by
  unfold integer?
  split
  · rename_i digits
    simp only [bind, Option.bind_eq_some_iff, Option.ite_none_right_eq_some, Option.some.injEq,
      digits?_eq_some_iff]
    constructor
    · rintro ⟨size, numeral, small, rfl⟩
      exact ⟨.minus numeral, by omega, by omega⟩
    · rintro ⟨integer, least, -⟩
      cases integer with
      | natural natural =>
        cases natural with
        | unsigned numeral => exact absurd numeral.head_isDigit (by decide)
      | minus numeral => exact ⟨_, numeral, by omega, rfl⟩
  · rename_i unsigned
    simp only [bind, pure, Option.map_eq_some_iff, Option.bind_eq_some_iff, Option.some.injEq,
      natural?_eq_some_iff, exists_eq_right]
    constructor
    · rintro ⟨size, ⟨natural, small⟩, rfl⟩
      exact ⟨.natural natural, by omega, by omega⟩
    · rintro ⟨integer, -, small⟩
      cases integer with
      | natural natural => exact ⟨_, ⟨natural, by omega⟩, rfl⟩
      | minus numeral => exact (unsigned _ rfl).elim

theorem rightUnique_isInteger : Relator.RightUnique IsInteger := by
  intro text value other first second
  have positive : 0 < value.natAbs + other.natAbs + 1 := Nat.succ_pos _
  have read := (integer?_eq_some_iff positive).mpr ⟨first, by omega, by omega⟩
  have otherRead := (integer?_eq_some_iff positive).mpr ⟨second, by omega, by omega⟩
  exact Option.some.inj (read.symm.trans otherRead)

/-- A text with blanks before and behind it. -/
def IsPadded (core written : List Char) : Prop :=
  ∃ before after, written = before ++ core ++ after ∧ (∀ c ∈ before, isBlank c = true) ∧
    ∀ c ∈ after, isBlank c = true

theorem exists_append_trimStart (text : List Char) :
    ∃ before, text = before ++ trimStart text ∧ ∀ c ∈ before, isBlank c = true :=
  ⟨text.takeWhile isBlank, List.takeWhile_append_dropWhile.symm, fun _ member =>
    List.all_eq_true.mp List.all_takeWhile _ member⟩

theorem isPadded_trim (text : List Char) : IsPadded (trim text) text := by
  rcases exists_append_trimStart text with ⟨before, startIs, beforeBlank⟩
  rcases exists_append_trimStart (trimStart text).reverse with ⟨after, endIs, afterBlank⟩
  refine ⟨before, after.reverse, ?_, beforeBlank, by simpa using afterBlank⟩
  have split := congrArg List.reverse endIs
  rw [List.reverse_reverse, List.reverse_append] at split
  rw [List.append_assoc, trim, trimEnd, ← split]
  exact startIs

theorem trimStart_append {blanks rest : List Char} (blank : ∀ c ∈ blanks, isBlank c = true)
    (free : ∀ c ∈ rest.head?, isBlank c = false) : trimStart (blanks ++ rest) = rest := by
  rw [trimStart, List.dropWhile_append_of_pos blank]
  cases rest with
  | nil => rfl
  | cons c others => exact List.dropWhile_cons_of_neg (by simp [free c rfl])

/-- Trimming a text without blanks that stands between blanks leaves this text. -/
theorem IsPadded.trim_eq {core written : List Char} (padded : IsPadded core written)
    (free : ∀ c ∈ core, isBlank c = false) : trim written = core := by
  rcases padded with ⟨before, after, rfl, beforeBlank, afterBlank⟩
  have reversed : ∀ c ∈ after.reverse, isBlank c = true := by simpa using afterBlank
  cases core with
  | nil =>
    have all : ∀ c ∈ before ++ after, isBlank c = true := by
      simpa [or_imp, forall_and] using ⟨beforeBlank, afterBlank⟩
    have none : trimStart (before ++ after) = [] := List.dropWhile_eq_nil_iff.mpr all
    rw [List.append_nil, trim, none]
    rfl
  | cons c rest =>
    rw [List.append_assoc, trim, trimStart_append beforeBlank, trimEnd, List.reverse_append,
      trimStart_append reversed, List.reverse_reverse]
    · intro last isLast
      exact free last (List.mem_reverse.mp (List.mem_of_mem_head? isLast))
    · intro first isFirst
      cases isFirst
      exact free c List.mem_cons_self

theorem isBlank_of_isDigit {c : Char} (digit : c.isDigit = true) : isBlank c = false := by
  simp only [Char.isDigit, Bool.and_eq_true, decide_eq_true_eq, ge_iff_le,
    UInt32.le_iff_toNat_le] at digit
  change 48 ≤ c.toNat ∧ c.toNat ≤ 57 at digit
  simp [isBlank, blankRanges]
  omega

theorem IsNatural.not_blank {text : List Char} {value : Nat} (natural : IsNatural text value) :
    ∀ c ∈ text, isBlank c = false := by
  cases natural with
  | unsigned numeral => exact fun c member => isBlank_of_isDigit (numeral.digits c member)
  | plus numeral =>
    intro c member
    rcases List.mem_cons.mp member with rfl | digit
    · decide
    · exact isBlank_of_isDigit (numeral.digits c digit)

theorem IsInteger.not_blank {text : List Char} {value : Int} (integer : IsInteger text value) :
    ∀ c ∈ text, isBlank c = false := by
  cases integer with
  | natural natural => exact natural.not_blank
  | minus numeral =>
    intro c member
    rcases List.mem_cons.mp member with rfl | digit
    · decide
    · exact isBlank_of_isDigit (numeral.digits c digit)

end AssertionLint.Text
