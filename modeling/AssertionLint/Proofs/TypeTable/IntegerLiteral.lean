import AssertionLint.Binding.Document
import Mathlib.Data.Nat.Digits.Defs

/-!
# The types of integer literals

How integer literals are spelled, which value a spelling has, and which types its suffix admits.
Reading a literal finds the value of every spelling. The type of a literal is the first admitted
type that holds the value, except that a suffix of one letter is taken at its word: behind `u` and
`l` a value that only the wider type holds gets the narrower one.
-/

namespace AssertionLint

namespace SpecialType

/-- The numbers below it are the values, from zero on, of a type that integer literals can have. -/
def literalLimit : SpecialType → Nat
  | int32 => 2 ^ 31
  | uint32 => 2 ^ 32
  | int64 => 2 ^ 63
  | uint64 => 2 ^ 64
  | _ => 0

end SpecialType

namespace Literal

/-- A character that stands for a digit, a letter in either case. -/
def IsDigit (base : Nat) (c : Char) (digit : Nat) : Prop :=
  digit < base ∧ c.toLower = digit.digitChar

instance (base : Nat) (c : Char) (digit : Nat) : Decidable (IsDigit base c digit) :=
  inferInstanceAs (Decidable (_ ∧ _))

/-- A text of digits and separators that ends in a digit. -/
inductive Spells (base : Nat) : List Char → List Nat → Prop
  | last {c : Char} {digit : Nat} : IsDigit base c digit → Spells base [c] [digit]
  | digit {c : Char} {digit : Nat} {text : List Char} {digits : List Nat} :
      IsDigit base c digit → Spells base text digits → Spells base (c :: text) (digit :: digits)
  | separator {text : List Char} {digits : List Nat} :
      Spells base text digits → Spells base ('_' :: text) digits

/-- An integer literal without its suffix: decimal digits, the first of them in front, or digits
behind the mark of their base. -/
inductive IsUnsuffixed : List Char → Nat → Prop
  | decimal {c : Char} {text : List Char} {digits : List Nat} :
      c ≠ '_' → Spells 10 (c :: text) digits →
        IsUnsuffixed (c :: text) (Nat.ofDigits 10 digits.reverse)
  | hexadecimal {mark : Char} {text : List Char} {digits : List Nat} :
      mark.toLower = 'x' → Spells 16 text digits →
        IsUnsuffixed ('0' :: mark :: text) (Nat.ofDigits 16 digits.reverse)
  | binary {mark : Char} {text : List Char} {digits : List Nat} :
      mark.toLower = 'b' → Spells 2 text digits →
        IsUnsuffixed ('0' :: mark :: text) (Nat.ofDigits 2 digits.reverse)

/-- What the letters behind an integer literal say about its type. -/
inductive IntegerSuffix
  | none
  | unsigned
  | long
  | unsignedLong
  deriving DecidableEq

namespace IntegerSuffix

/-- The letters of a suffix in lower case. -/
def spellings : IntegerSuffix → List (List Char)
  | none => [[]]
  | unsigned => [['u']]
  | long => [['l']]
  | unsignedLong => [['u', 'l'], ['l', 'u']]

/-- The types of literals with a suffix, a narrower type in front of a wider one. -/
def types : IntegerSuffix → List SpecialType
  | none => [.int32, .uint32, .int64, .uint64]
  | unsigned => [.uint32, .uint64]
  | long => [.int64, .uint64]
  | unsignedLong => [.uint64]

/-- The first type with a suffix that holds the value. -/
def firstType? (suffix : IntegerSuffix) (value : Nat) : Option SpecialType :=
  suffix.types.find? fun type => value < type.literalLimit

/-- Behind one letter, the value needs the wider type. -/
def NeedsWider (suffix : IntegerSuffix) (value : Nat) : Prop :=
  suffix = unsigned ∧ 2 ^ 32 ≤ value ∨ suffix = long ∧ 2 ^ 63 ≤ value

instance (suffix : IntegerSuffix) (value : Nat) : Decidable (suffix.NeedsWider value) :=
  inferInstanceAs (Decidable (_ ∨ _))

/-- The type that a literal gets from its suffix, or without one from its value. -/
def typeFor (suffix : IntegerSuffix) (value : Nat) : SpecialType :=
  match suffix with
  | none => (none.firstType? value).getD .uint64
  | unsigned => .uint32
  | long => .int64
  | unsignedLong => .uint64

end IntegerSuffix

/-- An integer literal in full, with its suffix and its value. -/
inductive IsInteger : String → IntegerSuffix → Nat → Prop
  | intro {text : String} {suffix : IntegerSuffix} {value : Nat} {number ending : List Char} :
      text.toList = number ++ ending → IsUnsuffixed number value →
        ending.map Char.toLower ∈ suffix.spellings → IsInteger text suffix value

/-- A character is in lower case, or the upper case of one that is. -/
theorem eq_toLower_or_toUpper {c : Char} (ascii : c.toLower.toNat < 128) :
    c = c.toLower ∨ c = c.toLower.toUpper := by
  have small : c.toNat < 128 := by
    unfold Char.toLower at ascii
    split at ascii
    · rename_i upper
      have := UInt32.le_iff_toNat_le.mp upper.2
      change c.toNat ≤ 90 at this
      omega
    · exact ascii
  have all : ∀ code < 128, Char.ofNat code = (Char.ofNat code).toLower ∨
      Char.ofNat code = (Char.ofNat code).toLower.toUpper := by
    decide
  exact Char.ofNat_toNat c ▸ all c.toNat small

namespace IsDigit

variable {base digit : Nat} {c : Char}

theorem mono {other : Nat} (isDigit : IsDigit base c digit) (most : base ≤ other) :
    IsDigit other c digit :=
  ⟨lt_of_lt_of_le isDigit.1 most, isDigit.2⟩

/-- What holds of both spellings of the digits holds of every spelled digit. -/
theorem of_forall {P : Char → Nat → Prop} (isDigit : IsDigit base c digit) (most : base ≤ 16)
    (all : ∀ digit < base, P digit.digitChar digit ∧ P digit.digitChar.toUpper digit) :
    P c digit := by
  rcases isDigit with ⟨small, spelled⟩
  have ascii : ∀ digit < 16, digit.digitChar.toNat < 128 := by decide
  have cases := @eq_toLower_or_toUpper c (spelled ▸ ascii digit (by omega))
  rw [spelled] at cases
  rcases cases with rfl | rfl
  · exact (all digit small).1
  · exact (all digit small).2

theorem digitValue?_sixteen (isDigit : IsDigit 16 c digit) :
    Text.digitValue? 16 c = some digit :=
  isDigit.of_forall (P := fun c digit => Text.digitValue? 16 c = some digit) le_rfl (by decide)

/-- Digits are none of the other characters of literals and of numbers with a sign. -/
theorem not_mem (isDigit : IsDigit 16 c digit) : c ∉ ['_', '+', '-', 'u', 'U', 'l', 'L'] :=
  isDigit.of_forall (P := fun c _ => c ∉ ['_', '+', '-', 'u', 'U', 'l', 'L']) le_rfl (by decide)

theorem toLower_not_mem (isDigit : IsDigit 16 c digit) : c.toLower ∉ ['u', 'l'] := by
  rw [isDigit.2]
  exact (by decide : ∀ digit < 16, digit.digitChar ∉ ['u', 'l']) digit isDigit.1

theorem isDigit_of_ten (isDigit : IsDigit 10 c digit) : c.isDigit = true :=
  isDigit.of_forall (P := fun c _ => c.isDigit = true) (by decide) (by decide)

/-- The value of a digit in a smaller base is the one in base sixteen. -/
theorem digitValue?_eq (isDigit : IsDigit base c digit) (most : base ≤ 16) :
    Text.digitValue? base c = some digit := by
  have value := (isDigit.mono most).digitValue?_sixteen
  have small := isDigit.1
  unfold Text.digitValue? at value ⊢
  grind

end IsDigit

namespace Spells

variable {base : Nat} {text : List Char} {digits : List Nat}

/-- A spelling ends in a digit. -/
theorem exists_append (spelled : Spells base text digits) :
    ∃ front c digit, text = front ++ [c] ∧ IsDigit base c digit := by
  induction spelled with
  | last isDigit => exact ⟨[], _, _, rfl, isDigit⟩
  | digit _ _ ih =>
    rcases ih with ⟨front, c, digit, rfl, isDigit⟩
    exact ⟨_ :: front, c, digit, rfl, isDigit⟩
  | separator _ ih =>
    rcases ih with ⟨front, c, digit, rfl, isDigit⟩
    exact ⟨_ :: front, c, digit, rfl, isDigit⟩

/-- Without its separators, a spelling consists of its digits. -/
theorem forall₂_filter (spelled : Spells base text digits) (most : base ≤ 16) :
    List.Forall₂ (IsDigit base) (text.filter (· != '_')) digits := by
  have kept : ∀ {c digit}, IsDigit base c digit → (c != '_') = true := by
    intro c digit isDigit
    have := (isDigit.mono most).not_mem
    simp only [List.mem_cons, not_or] at this
    simpa using this.1
  induction spelled with
  | last isDigit => simpa [kept isDigit] using isDigit
  | digit isDigit _ ih => simpa [kept isDigit] using ⟨isDigit, ih⟩
  | separator _ ih => simpa using ih

theorem ne_nil (spelled : Spells base text digits) : digits ≠ [] := by
  induction spelled with
  | last => exact List.cons_ne_nil _ _
  | digit => exact List.cons_ne_nil _ _
  | separator _ ih => exact ih

theorem filter_ne_nil (spelled : Spells base text digits) (most : base ≤ 16) :
    text.filter (· != '_') ≠ [] := by
  intro empty
  have read := spelled.forall₂_filter most
  rw [empty] at read
  cases read
  exact spelled.ne_nil rfl

end Spells

theorem digitsValue?_of_forall₂ {base start : Nat} {text : List Char} {digits : List Nat}
    (most : base ≤ 16) (spelled : List.Forall₂ (IsDigit base) text digits) :
    Text.digitsValue? base start text =
      some (digits.foldl (fun value digit => value * base + digit) start) := by
  induction spelled generalizing start with
  | nil => rfl
  | cons isDigit _ ih =>
    rw [Text.digitsValue?, isDigit.digitValue?_eq most, Option.bind_some, ih, List.foldl_cons]

theorem ofDigits_reverse (base : Nat) (digits : List Nat) :
    Nat.ofDigits base digits.reverse =
      digits.foldl (fun value digit => value * base + digit) 0 := by
  rw [Nat.ofDigits_eq_foldr, List.foldr_reverse]
  congr
  funext value digit
  simp [Nat.mul_comm, Nat.add_comm]

theorem integer?_of_forall₂ {base bound : Nat} {text : List Char} {digits : List Nat}
    (most : base ≤ 16) (spelled : List.Forall₂ (IsDigit base) text digits) (nonempty : text ≠ [])
    {value : Nat} (valueIs : value = Nat.ofDigits base digits.reverse) (small : value < bound) :
    Text.integer? base bound text = some (value : Int) := by
  cases spelled with
  | nil => exact (nonempty rfl).elim
  | @cons c digit text digits isDigit rest =>
    have read := @digitsValue?_of_forall₂ base 0 _ _ most (.cons isDigit rest)
    rw [← ofDigits_reverse, ← valueIs] at read
    have plain := (isDigit.mono most).not_mem
    simp only [List.mem_cons, not_or] at plain
    have natural : Text.natural? base bound (c :: text) = some value := by
      unfold Text.natural?
      split
      · rename_i signed
        cases signed
        exact (plain.2.1 rfl).elim
      · simp [Text.digits?, read, small]
    unfold Text.integer?
    split
    · rename_i signed
      cases signed
      exact (plain.2.2.1 rfl).elim
    · rw [natural]
      rfl

namespace IsUnsuffixed

variable {number ending : List Char} {value : Nat}

/-- An integer literal without its suffix ends in a digit. -/
theorem exists_append (unsuffixed : IsUnsuffixed number value) :
    ∃ front c digit, number = front ++ [c] ∧ IsDigit 16 c digit := by
  cases unsuffixed with
  | decimal _ spelled =>
    rcases spelled.exists_append with ⟨front, c, digit, text, isDigit⟩
    exact ⟨front, c, digit, text, isDigit.mono (by decide)⟩
  | hexadecimal _ spelled =>
    rcases spelled.exists_append with ⟨front, c, digit, rfl, isDigit⟩
    exact ⟨'0' :: _ :: front, c, digit, rfl, isDigit⟩
  | binary _ spelled =>
    rcases spelled.exists_append with ⟨front, c, digit, rfl, isDigit⟩
    exact ⟨'0' :: _ :: front, c, digit, rfl, isDigit.mono (by decide)⟩

/-- What a literal ends with in letters of suffixes, it ends with behind its digits. -/
theorem endsWith_iff (unsuffixed : IsUnsuffixed number value) {text : String}
    (isText : text.toList = number ++ ending) {letters : String}
    (plain : ∀ c ∈ letters.toList, c ∈ ['u', 'l']) :
    endsWith text letters = true ↔ letters.toList <:+ ending.map Char.toLower := by
  rcases unsuffixed.exists_append with ⟨front, c, digit, rfl, isDigit⟩
  have split : text.toList.map Char.toLower =
      front.map Char.toLower ++ c.toLower :: ending.map Char.toLower := by
    simp [isText]
  rw [endsWith, List.isSuffixOf_iff_suffix, split]
  constructor
  · intro ends
    have outside : c.toLower ∉ letters.toList := fun member =>
      isDigit.toLower_not_mem (plain _ member)
    rcases List.suffix_or_suffix_of_suffix ends (List.suffix_append _ _) with behind | around
    · rcases List.suffix_cons_iff.mp behind with same | behind
      · exact (outside (same ▸ List.mem_cons_self)).elim
      · exact behind
    · exact (outside (around.subset List.mem_cons_self)).elim
  · exact fun ends => ends.trans ((List.suffix_cons _ _).trans (List.suffix_append _ _))

end IsUnsuffixed

theorem mem_of_mem_spellings (suffix : IntegerSuffix) :
    ∀ letters ∈ suffix.spellings, ∀ c ∈ letters, c ∈ ['u', 'l'] := by
  cases suffix <;> simp [IntegerSuffix.spellings]

theorem isIntegerSuffix_of_toLower {c : Char} (lower : c.toLower ∈ ['u', 'l']) :
    isIntegerSuffix c = true := by
  simp only [List.mem_cons, List.not_mem_nil, or_false] at lower
  have cases := @eq_toLower_or_toUpper c (by rcases lower with lower | lower <;> simp [lower])
  rcases lower with lower | lower
  all_goals
    rw [lower] at cases
    rcases cases with rfl | rfl <;> rfl

/-- Taking the letters of the suffix from the end leaves the digits. -/
theorem IsUnsuffixed.dropWhile_reverse {number ending : List Char} {value : Nat}
    (unsuffixed : IsUnsuffixed number value)
    (letters : ∀ c ∈ ending.map Char.toLower, c ∈ ['u', 'l']) :
    ((number ++ ending).reverse.dropWhile isIntegerSuffix).reverse = number := by
  rcases unsuffixed.exists_append with ⟨front, c, digit, rfl, isDigit⟩
  have taken : ∀ c ∈ ending.reverse, isIntegerSuffix c = true := fun c member =>
    isIntegerSuffix_of_toLower (letters _ (List.mem_map_of_mem (List.mem_reverse.mp member)))
  have left : isIntegerSuffix c = false := by
    have := isDigit.not_mem
    simp only [List.mem_cons, not_or] at this
    simp [isIntegerSuffix, this]
  rw [List.reverse_append, List.dropWhile_append_of_pos taken]
  simp [left]

theorem forall_isDigit {text : List Char} {digits : List Nat}
    (spelled : List.Forall₂ (IsDigit 10) text digits) : ∀ c ∈ text, c.isDigit = true := by
  induction spelled with
  | nil => exact fun _ member => (List.not_mem_nil member).elim
  | cons isDigit _ ih => exact List.forall_mem_cons.mpr ⟨isDigit.isDigit_of_ten, ih⟩

/-- Reading an integer literal finds its value. -/
theorem IsInteger.integerValue?_eq {text : String} {suffix : IntegerSuffix} {value : Nat}
    (isInteger : IsInteger text suffix value) (small : value < readBound) :
    integerValue? text = some (value : Int) := by
  rcases isInteger with ⟨isText, unsuffixed, letters⟩
  unfold integerValue?
  rw [isText, unsuffixed.dropWhile_reverse (mem_of_mem_spellings _ _ letters)]
  dsimp only
  cases unsuffixed with
  | @decimal c text digits first spelled =>
    have read := spelled.forall₂_filter (by decide)
    have decimal := forall_isDigit read
    have nonempty : (c :: text).filter (· != '_') ≠ [] := by simp [first]
    -- a mark of a base would be a decimal digit
    split
    all_goals
      first
      | exact integer?_of_forall₂ (by decide) read nonempty rfl small
      | rename_i marked
        rw [marked] at decimal
        exact absurd (decimal _ (List.mem_cons_of_mem _ List.mem_cons_self)) (by decide)
  | @hexadecimal mark text digits isMark spelled =>
    have read := spelled.forall₂_filter (by decide)
    rcases isMark ▸ @eq_toLower_or_toUpper mark (by simp [isMark]) with rfl | rfl
    all_goals
      exact integer?_of_forall₂ (by decide) read (spelled.filter_ne_nil (by decide)) rfl small
  | @binary mark text digits isMark spelled =>
    have read := spelled.forall₂_filter (by decide)
    rcases isMark ▸ @eq_toLower_or_toUpper mark (by simp [isMark]) with rfl | rfl
    all_goals
      exact integer?_of_forall₂ (by decide) read (spelled.filter_ne_nil (by decide)) rfl small

namespace IntegerSuffix

/-- Without a suffix, the first type that holds the value is found by its limits. -/
theorem firstType?_none {value : Nat} (small : value < 2 ^ 64) :
    none.firstType? value =
      some (if value < 2 ^ 31 then .int32 else if value < 2 ^ 32 then .uint32
        else if value < 2 ^ 63 then .int64 else .uint64) := by
  simp only [firstType?, types, List.find?_cons, SpecialType.literalLimit]
  grind

/-- The type for a suffix and a value is one of those with the suffix. It is the first of them that
holds the value, and holds it at all, unless the value needs the wider type behind one letter. -/
theorem typeFor_isFirst_iff (suffix : IntegerSuffix) {value : Nat}
    (small : value < 2 ^ 64) :
    suffix.typeFor value ∈ suffix.types ∧
      (suffix.firstType? value = some (suffix.typeFor value) ↔ ¬ suffix.NeedsWider value) ∧
      (value < (suffix.typeFor value).literalLimit ↔ ¬ suffix.NeedsWider value) := by
  cases suffix with
  | none =>
    rw [typeFor, firstType?_none small]
    simp only [Option.getD_some, types, NeedsWider]
    split_ifs <;> simp [SpecialType.literalLimit] <;> omega
  | unsigned | long | unsignedLong =>
    simp only [typeFor, types, NeedsWider, firstType?, SpecialType.literalLimit, List.find?_cons,
      List.mem_cons]
    grind

end IntegerSuffix

/-- The type of an integer literal is the one for its suffix and its value. -/
theorem IsInteger.integerType_eq {text : String} {suffix : IntegerSuffix} {value : Nat}
    (isInteger : IsInteger text suffix value) (small : value < 2 ^ 64) :
    integerType text = suffix.typeFor value := by
  have read := isInteger.integerValue?_eq (lt_of_lt_of_le small (by decide))
  rcases isInteger with @⟨number, ending, isText, unsuffixed, letters⟩
  have ends : ∀ written ∈ ["ul", "lu", "u", "l"],
      endsWith text written = written.toList.isSuffixOf (ending.map Char.toLower) := by
    intro written member
    have plain : ∀ written ∈ ["ul", "lu", "u", "l"], ∀ c ∈ written.toList, c ∈ ['u', 'l'] := by
      simp
    rw [Bool.eq_iff_iff, unsuffixed.endsWith_iff isText (plain written member),
      List.isSuffixOf_iff_suffix]
  simp only [List.forall_mem_cons] at ends
  rcases ends with ⟨ul, lu, u, l, -⟩
  rw [integerType, ul, lu, u, l, read]
  cases suffix with
  | none =>
    rw [List.mem_singleton.mp letters, if_neg (by decide), if_neg (by decide), if_neg (by decide),
      IntegerSuffix.typeFor, IntegerSuffix.firstType?_none small, Option.getD_some]
    dsimp only
    norm_cast
  | unsigned =>
    rw [List.mem_singleton.mp letters]
    rfl
  | long =>
    rw [List.mem_singleton.mp letters]
    rfl
  | unsignedLong =>
    simp only [IntegerSuffix.spellings, List.mem_cons, List.not_mem_nil, or_false] at letters
    rcases letters with letters | letters
    all_goals rw [letters]; rfl

end Literal

namespace TypeTable

open Literal

/-- An integer literal of at most 64 bits has one of the types that its suffix admits. It is the
first of them that holds the value exactly where no wider type is needed behind one letter, and
exactly there the type holds the value. -/
theorem literalType?_isFirst_iff (table : TypeTable) {literal : Literal} {suffix : IntegerSuffix}
    {value : Nat} (isInteger : literal.kind = .integer)
    (spelled : IsInteger literal.text suffix value) (small : value < 2 ^ 64) :
    ∃ type ∈ suffix.types, table.literalType? literal = some (table.special type) ∧
      (suffix.firstType? value = some type ↔ ¬ suffix.NeedsWider value) ∧
      (value < type.literalLimit ↔ ¬ suffix.NeedsWider value) := by
  rcases suffix.typeFor_isFirst_iff small with ⟨admitted, first, holds⟩
  refine ⟨suffix.typeFor value, admitted, ?_, first, holds⟩
  rw [literalType?, specialType?, isInteger, spelled.integerType_eq small]
  rfl

/-- A class with a field that starts with a large number. -/
def classWithLiteral : ParsedDocument :=
  .ofSource "class A \x7b ulong x = 5000000000u; \x7d"

/-- A hexadecimal literal with a separator and a suffix, the last value of its type. -/
theorem literalType?_isFirst_iff_hexadecimal :
    IsInteger "0xFFFF_ffffU" .unsigned 0xFFFFFFFF ∧ 0xFFFFFFFF < 2 ^ 64 ∧
      ∃ type ∈ IntegerSuffix.unsigned.types,
        classWithLiteral.table.literalType? ⟨.integer, "0xFFFF_ffffU"⟩ =
          some (classWithLiteral.table.special type) ∧
        IntegerSuffix.unsigned.firstType? 0xFFFFFFFF = some type ∧
        0xFFFFFFFF < type.literalLimit := by
  have digits : Spells 16 "FFFF_ffff".toList (List.replicate 8 15) := by
    repeat first | exact .last (by decide) | refine .digit (by decide) ?_ | refine .separator ?_
  have spelled : IsInteger "0xFFFF_ffffU" .unsigned 0xFFFFFFFF :=
    @IsInteger.intro _ _ _ "0xFFFF_ffff".toList ['U'] rfl (.hexadecimal rfl digits) (by decide)
  have small : 0xFFFFFFFF < 2 ^ 64 := by decide
  have narrow : ¬ IntegerSuffix.unsigned.NeedsWider 0xFFFFFFFF := by decide
  rcases @literalType?_isFirst_iff classWithLiteral.table ⟨.integer, "0xFFFF_ffffU"⟩ _ _ rfl
    spelled small with ⟨type, admitted, isType, first, holds⟩
  exact ⟨spelled, small, type, admitted, isType, first.mpr narrow, holds.mpr narrow⟩

/-- The literal `5000000000u` needs 64 bits and gets a type of 32 bits. -/
theorem exists_literal_of_narrow_type :
    ∃ value, IsInteger "5000000000u" .unsigned value ∧ value < 2 ^ 64 ∧
      IntegerSuffix.unsigned.firstType? value = some .uint64 ∧
      ∃ type, classWithLiteral.table.literalType? ⟨.integer, "5000000000u"⟩ = some type ∧
        type.special = .uint32 ∧ ¬ value < type.special.literalLimit := by
  have digits : Spells 10 "5000000000".toList (5 :: List.replicate 9 0) := by
    repeat first | exact .last (by decide) | refine .digit (by decide) ?_
  refine ⟨5000000000, @IsInteger.intro _ _ _ "5000000000".toList ['u'] rfl
    (.decimal (by decide) digits) (by decide), by decide, by decide, _, rfl, ?_⟩
  decide +kernel

end TypeTable

end AssertionLint
