import AssertionLint.Assertions.CompositeFormat
import Mathlib.Data.List.Forall2

/-!
# Reading composite formats

A composite format is read from left to right: a doubled brace is one brace, any other opening
brace starts an item that goes on to the next closing brace, and any other character is text. An
opening brace that is not closed and a closing brace that stands alone block the reading. Where
nothing does, a format splits into pieces that spell what is read
(`FormatPiece.exists_reads_of_split?`); where something does, it does not split
(`FormatPiece.exists_isBlocked_of_split?`).
-/

namespace AssertionLint

/-- What a composite format is made of. -/
inductive FormatToken
  /-- A character of the text. -/
  | char (c : Char)
  /-- What stands between the braces of an item. -/
  | item (body : List Char)

namespace CompositeFormat

/-- The first token of a format and what is behind it. -/
inductive StartsWith : List Char → FormatToken → List Char → Prop
  | opening {rest : List Char} : StartsWith ('{' :: '{' :: rest) (.char '{') rest
  | closing {rest : List Char} : StartsWith ('}' :: '}' :: rest) (.char '}') rest
  | character {c : Char} {rest : List Char} : c ≠ '{' → c ≠ '}' →
      StartsWith (c :: rest) (.char c) rest
  | item {behind body rest : List Char} : behind.head? ≠ some '{' → behind = body ++ '}' :: rest →
      '}' ∉ body → StartsWith ('{' :: behind) (.item body) rest

/-- A format that cannot be read any further. -/
inductive IsBlocked : List Char → Prop
  /-- An item is not closed. -/
  | unclosed {behind : List Char} : behind.head? ≠ some '{' → '}' ∉ behind →
      IsBlocked ('{' :: behind)
  /-- A closing brace stands alone. -/
  | alone {behind : List Char} : behind.head? ≠ some '}' → IsBlocked ('}' :: behind)

/-- The tokens that are read from the start of a format, and what is behind them. -/
inductive Reads : List Char → List FormatToken → List Char → Prop
  | done (rest : List Char) : Reads rest [] rest
  | step {written rest last : List Char} {token : FormatToken} {tokens : List FormatToken} :
      StartsWith written token rest → Reads rest tokens last → Reads written (token :: tokens) last

/-- The format has an item with the given text between its braces. -/
def HasItem (written body : List Char) : Prop :=
  ∃ tokens rest last, Reads written tokens rest ∧ StartsWith rest (.item body) last

end CompositeFormat

namespace FormatPiece

theorem untilBrace?_eq_some_iff {written body rest : List Char} :
    untilBrace? written = some (body, rest) ↔ written = body ++ '}' :: rest ∧ '}' ∉ body := by
  induction written generalizing body rest with
  | nil => simp [untilBrace?]
  | cons c others ih =>
    rw [untilBrace?]
    split
    · rename_i isClosing
      cases body with
      | nil => simp [isClosing]
      | cons first inner =>
        constructor
        · intro found
          simp at found
        · rintro ⟨whole, closed⟩
          have same : first = '}' := (List.cons.inj whole).1.symm.trans isClosing
          exact (closed (same ▸ List.mem_cons_self)).elim
    · rename_i isOther
      cases body with
      | nil => simp [isOther]
      | cons first inner =>
        simp only [Option.map_eq_some_iff, Prod.exists, Prod.mk.injEq, List.cons.injEq, ih,
          List.cons_append, List.mem_cons, not_or]
        constructor
        · rintro ⟨_, _, ⟨whole, closed⟩, ⟨rfl, rfl⟩, rfl⟩
          exact ⟨⟨rfl, whole⟩, Ne.symm isOther, closed⟩
        · rintro ⟨⟨rfl, whole⟩, -, closed⟩
          exact ⟨inner, rest, ⟨whole, closed⟩, ⟨rfl, rfl⟩, rfl⟩

theorem untilBrace?_eq_none_iff {written : List Char} :
    untilBrace? written = none ↔ '}' ∉ written := by
  induction written with
  | nil => simp [untilBrace?]
  | cons c others ih =>
    rw [untilBrace?]
    split
    · rename_i isClosing
      simp [isClosing]
    · rename_i isOther
      simp [ih, Ne.symm isOther]

end FormatPiece

namespace CompositeFormat

open FormatPiece

theorem StartsWith.unique {written rest last : List Char} {token other : FormatToken}
    (first : StartsWith written token rest) (second : StartsWith written other last) :
    token = other ∧ rest = last := by
  cases first with
  | opening =>
    cases second with
    | opening => exact ⟨rfl, rfl⟩
    | character notOpening _ => exact (notOpening rfl).elim
    | item notDoubled _ _ => exact (notDoubled rfl).elim
  | closing =>
    cases second with
    | closing => exact ⟨rfl, rfl⟩
    | character _ notClosing => exact (notClosing rfl).elim
  | character notOpening notClosing =>
    cases second with
    | opening => exact (notOpening rfl).elim
    | closing => exact (notClosing rfl).elim
    | character => exact ⟨rfl, rfl⟩
    | item => exact (notOpening rfl).elim
  | item notDoubled behindIs closed =>
    cases second with
    | opening => exact (notDoubled rfl).elim
    | character notOpening _ => exact (notOpening rfl).elim
    | item _ behindIsToo closedToo =>
      have same := (untilBrace?_eq_some_iff.mpr ⟨behindIs, closed⟩).symm.trans
        (untilBrace?_eq_some_iff.mpr ⟨behindIsToo, closedToo⟩)
      cases same
      exact ⟨rfl, rfl⟩

theorem IsBlocked.not_startsWith {written rest : List Char} {token : FormatToken}
    (blocked : IsBlocked written) : ¬ StartsWith written token rest := by
  intro starts
  cases blocked with
  | unclosed notDoubled unclosed =>
    cases starts with
    | opening => exact notDoubled rfl
    | character notOpening _ => exact notOpening rfl
    | item _ behindIs _ => simp [behindIs] at unclosed
  | alone notDoubled =>
    cases starts with
    | closing => exact notDoubled rfl
    | character _ notClosing => exact notClosing rfl

theorem IsBlocked.ne_nil {written : List Char} (blocked : IsBlocked written) : written ≠ [] := by
  cases blocked <;> exact List.cons_ne_nil _ _

theorem Reads.append {written middle last : List Char} {tokens others : List FormatToken}
    (front : Reads written tokens middle) (back : Reads middle others last) :
    Reads written (tokens ++ others) last := by
  induction front with
  | done => exact back
  | step starts _ ih => exact .step starts (ih back)

theorem StartsWith.extend {written rest : List Char} {token : FormatToken}
    (starts : StartsWith written token rest) (more : List Char) :
    StartsWith (written ++ more) token (rest ++ more) := by
  cases starts with
  | opening => exact .opening
  | closing => exact .closing
  | character notOpening notClosing => exact .character notOpening notClosing
  | @item behind body rest notDoubled behindIs closed =>
    refine .item ?_ (by simp [behindIs]) closed
    simpa [behindIs, List.head?_append] using notDoubled

/-- Reading goes on in the same way where more text follows. -/
theorem Reads.extend {written rest : List Char} {tokens : List FormatToken}
    (read : Reads written tokens rest) (more : List Char) :
    Reads (written ++ more) tokens (rest ++ more) := by
  induction read with
  | done => exact .done _
  | step starts _ ih => exact .step (starts.extend more) ih

/-- What is read first is a part of what is read in all. -/
theorem Reads.exists_append {written rest : List Char} {tokens all : List FormatToken}
    (front : Reads written tokens rest) (whole : Reads written all []) :
    ∃ others, all = tokens ++ others ∧ Reads rest others [] := by
  induction front generalizing all with
  | done => exact ⟨all, rfl, whole⟩
  | step starts _ ih =>
    cases whole with
    | done => cases starts
    | step startsToo restReads =>
      rcases starts.unique startsToo with ⟨rfl, rfl⟩
      rcases ih restReads with ⟨others, rfl, read⟩
      exact ⟨others, rfl, read⟩

theorem Reads.unique {written : List Char} {tokens others : List FormatToken}
    (first : Reads written tokens []) (second : Reads written others []) : tokens = others := by
  rcases first.exists_append second with ⟨more, rfl, read⟩
  cases read with
  | done => exact (List.append_nil _).symm
  | step starts _ => cases starts

theorem Reads.not_isBlocked {written rest : List Char} {tokens all : List FormatToken}
    (whole : Reads written all []) (front : Reads written tokens rest) : ¬ IsBlocked rest := by
  intro blocked
  rcases front.exists_append whole with ⟨others, -, read⟩
  cases read with
  | done => exact blocked.ne_nil rfl
  | step starts _ => exact blocked.not_startsWith starts

theorem Reads.hasItem {written rest body : List Char} {tokens : List FormatToken}
    (read : Reads written tokens rest) (member : .item body ∈ tokens) : HasItem written body := by
  induction read with
  | done => cases member
  | step starts restReads ih =>
    rcases List.mem_cons.mp member with rfl | later
    · exact ⟨[], _, _, .done _, starts⟩
    · rcases ih later with ⟨tokens, rest, last, read, item⟩
      exact ⟨_ :: tokens, rest, last, .step starts read, item⟩

/-- The items of a format are those that reading it gives. -/
theorem Reads.mem_iff_hasItem {written body : List Char} {tokens : List FormatToken}
    (whole : Reads written tokens []) : .item body ∈ tokens ↔ HasItem written body := by
  constructor
  · exact whole.hasItem
  · rintro ⟨front, rest, last, read, starts⟩
    rcases read.exists_append whole with ⟨others, rfl, more⟩
    cases more with
    | done => cases starts
    | step startsToo _ =>
      rw [(starts.unique startsToo).1]
      simp

end CompositeFormat

namespace FormatPiece

open CompositeFormat

/-- A piece of a format stands for tokens. -/
inductive Spells : FormatPiece → List FormatToken → Prop
  | text {written chars : List Char} : Reads written (chars.map .char) [] →
      Spells (.text written) (chars.map .char)
  | item (body : List Char) : Spells (.item body) [.item body]

theorem exists_spells_consText {written chars : List Char} {pieces : List FormatPiece}
    {lists : List (List FormatToken)} (read : Reads written (chars.map .char) [])
    (spells : List.Forall₂ Spells pieces lists) :
    ∃ longer, List.Forall₂ Spells (consText written pieces) longer ∧
      longer.flatten = chars.map .char ++ lists.flatten := by
  cases spells with
  | nil => exact ⟨_, .cons (.text read) .nil, rfl⟩
  | cons first others =>
    cases first with
    | text following =>
      -- text in front of text becomes one piece
      have joined := (read.extend _).append following
      rw [← List.map_append] at joined
      exact ⟨_, .cons (.text joined) others, by simp⟩
    | item body => exact ⟨_, .cons (.text read) (.cons (.item body) others), rfl⟩

theorem exists_reads_consText {c : Char} {front rest : List Char} {pieces : List FormatPiece}
    {lists : List (List FormatToken)}
    (starts : ∀ rest, StartsWith (front ++ rest) (.char c) rest)
    (spells : List.Forall₂ Spells pieces lists) (read : Reads rest lists.flatten []) :
    ∃ longer, List.Forall₂ Spells (consText front pieces) longer ∧
      Reads (front ++ rest) longer.flatten [] := by
  have alone : Reads front ([c].map .char) [] := by
    simpa using Reads.step (starts []) (.done [])
  rcases exists_spells_consText alone spells with ⟨longer, spelled, flattened⟩
  exact ⟨longer, spelled, flattened ▸ .step (starts rest) read⟩

theorem head?_ne_of_ne_cons {text : List Char} {c : Char}
    (other : ∀ rest, text = c :: rest → False) : text.head? ≠ some c := by
  intro isHead
  rcases List.head?_eq_some_iff.mp isHead with ⟨rest, textIs⟩
  exact other rest textIs

/-- The pieces that a format splits into spell what reading it gives. -/
theorem exists_reads_of_split? {written : List Char} {pieces : List FormatPiece}
    (found : split? written = some pieces) :
    ∃ lists, List.Forall₂ Spells pieces lists ∧ Reads written lists.flatten [] := by
  fun_induction split? written generalizing pieces with
  | case1 =>
    cases found
    exact ⟨[], .nil, .done _⟩
  | case2 rest ih =>
    rcases Option.map_eq_some_iff.mp found with ⟨others, restFound, rfl⟩
    rcases ih restFound with ⟨lists, spells, read⟩
    exact exists_reads_consText (fun _ => .opening) spells read
  | case3 rest ih =>
    rcases Option.map_eq_some_iff.mp found with ⟨others, restFound, rfl⟩
    rcases ih restFound with ⟨lists, spells, read⟩
    exact exists_reads_consText (fun _ => .closing) spells read
  | case4 => cases found
  | case5 behind notDoubled body rest closed _ ih =>
    rcases Option.map_eq_some_iff.mp found with ⟨others, restFound, rfl⟩
    rcases ih restFound with ⟨lists, spells, read⟩
    rcases untilBrace?_eq_some_iff.mp closed with ⟨behindIs, isClosed⟩
    exact ⟨_, .cons (.item body) spells,
      .step (.item (head?_ne_of_ne_cons notDoubled) behindIs isClosed) read⟩
  | case6 => cases found
  | case7 c rest _ _ notOpening notClosing ih =>
    rcases Option.map_eq_some_iff.mp found with ⟨others, restFound, rfl⟩
    rcases ih restFound with ⟨lists, spells, read⟩
    exact exists_reads_consText (fun _ => .character notOpening notClosing) spells read

theorem exists_isBlocked_of_startsWith {written rest : List Char} {token : FormatToken}
    (starts : StartsWith written token rest)
    (blocked : ∃ tokens last, Reads rest tokens last ∧ IsBlocked last) :
    ∃ tokens last, Reads written tokens last ∧ IsBlocked last := by
  rcases blocked with ⟨tokens, last, read, blocked⟩
  exact ⟨token :: tokens, last, .step starts read, blocked⟩

/-- Reading a format that does not split into pieces is blocked. -/
theorem exists_isBlocked_of_split? {written : List Char} (failed : split? written = none) :
    ∃ tokens rest, Reads written tokens rest ∧ IsBlocked rest := by
  fun_induction split? written with
  | case1 => cases failed
  | case2 rest ih =>
    exact exists_isBlocked_of_startsWith .opening (ih (Option.map_eq_none_iff.mp failed))
  | case3 rest ih =>
    exact exists_isBlocked_of_startsWith .closing (ih (Option.map_eq_none_iff.mp failed))
  | case4 behind notDoubled unclosed =>
    exact ⟨[], _, .done _,
      .unclosed (head?_ne_of_ne_cons notDoubled) (untilBrace?_eq_none_iff.mp unclosed)⟩
  | case5 behind notDoubled body rest closed _ ih =>
    rcases untilBrace?_eq_some_iff.mp closed with ⟨behindIs, isClosed⟩
    exact exists_isBlocked_of_startsWith
      (.item (head?_ne_of_ne_cons notDoubled) behindIs isClosed)
      (ih (Option.map_eq_none_iff.mp failed))
  | case6 behind notDoubled => exact ⟨[], _, .done _, .alone (head?_ne_of_ne_cons notDoubled)⟩
  | case7 c rest _ _ notOpening notClosing ih =>
    exact exists_isBlocked_of_startsWith (.character notOpening notClosing)
      (ih (Option.map_eq_none_iff.mp failed))

end FormatPiece

end AssertionLint
