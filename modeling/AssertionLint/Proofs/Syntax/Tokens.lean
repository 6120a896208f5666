import AssertionLint.CSharp.Token.Lexer
import AssertionLint.Proofs.Text.Boundary

/-!
# Places of tokens

Every token of a document stands where its span says, behind the gap at the start of the document,
takes at least one character, and ends in front of the next token.
-/

namespace AssertionLint

namespace Token

/-- The span of the token covers its text in the document. -/
structure StandsIn (token : Token) (chars : List Char) : Prop where
  nonempty : token.text.toList ≠ []
  stop_eq : token.span.stop = token.span.start + Text.byteSize token.text.toList
  covered : ∃ before after, chars = before ++ token.text.toList ++ after ∧
    Text.byteSize before = token.span.start

/-- The first token ends in front of the second one. -/
def Precedes (left right : Token) : Prop :=
  left.span.stop ≤ right.span.start

theorem StandsIn.start_lt_stop {token : Token} {chars : List Char} (stands : token.StandsIn chars) :
    token.span.start < token.span.stop := by
  have positive : Text.byteSize token.text.toList ≠ 0 := by
    rw [ne_eq, Text.byteSize_eq_zero]
    exact stands.nonempty
  have := stands.stop_eq
  omega

theorem StandsIn.fitsIn {token : Token} {source : String} (stands : token.StandsIn source.toList) :
    token.span.FitsIn source := by
  rcases stands.covered with ⟨before, after, whole, size⟩
  refine ⟨Nat.le_of_lt stands.start_lt_stop, ⟨before, token.text.toList ++ after, ?_, size⟩,
    ⟨before ++ token.text.toList, after, whole, ?_⟩⟩
  · rw [whole, List.append_assoc]
  · rw [Text.byteSize_append, stands.stop_eq, size]

/-- The span of a token covers its text. -/
theorem StandsIn.text_span {token : Token} {source : String}
    (stands : token.StandsIn source.toList) : token.span.text source = token.text := by
  rcases stands.covered with ⟨before, after, whole, size⟩
  rw [Span.text_eq_of_covered whole size stands.stop_eq.symm, String.ofList_toList]

/-- What is scanned behind a front part of a document stands behind it and is in order. -/
theorem scanFrom_places (modes : List Mode) (offset : Nat) (chars before : List Char)
    (size : Text.byteSize before = offset) :
    (∀ token ∈ scanFrom modes offset chars,
      token.StandsIn (before ++ chars) ∧ offset ≤ token.span.start) ∧
      (scanFrom modes offset chars).Pairwise Precedes := by
  -- `before` is the text in front of what is still to be scanned
  fun_induction scanFrom modes offset chars generalizing before with
  | case1 => simp
  | case2 modes offset c rest found text stop following kind isToken ih =>
    have whole : before ++ text ++ rest.drop found.extra = before ++ c :: rest := by
      simp [text]
    have behind := ih (before ++ text) (by rw [Text.byteSize_append, size])
    rw [whole] at behind
    have lt : offset < stop := by
      have := Char.utf8Size_pos c
      simp only [stop, text, Text.byteSize]
      omega
    constructor
    · intro token member
      rcases List.mem_cons.mp member with rfl | member
      · refine ⟨⟨by simp [text], by simp [stop], before, rest.drop found.extra, ?_, size⟩, ?_⟩
        · simpa using whole.symm
        · exact Nat.le_refl _
      · have inside := behind.1 token member
        exact ⟨inside.1, by omega⟩
    · rw [List.pairwise_cons]
      refine ⟨?_, behind.2⟩
      intro token member
      exact (behind.1 token member).2
  | case3 modes offset c rest found text stop following noToken ih =>
    have whole : before ++ text ++ rest.drop found.extra = before ++ c :: rest := by
      simp [text]
    have behind := ih (before ++ text) (by rw [Text.byteSize_append, size])
    rw [whole] at behind
    have le : offset ≤ stop := Nat.le_add_right _ _
    refine ⟨?_, behind.2⟩
    intro token member
    have inside := behind.1 token member
    exact ⟨inside.1, by omega⟩

/-- The gap at the start of a text is skipped in one step. -/
theorem scanFrom_gap (offset : Nat) (chars : List Char) :
    scanFrom [] offset chars =
      scanFrom [] (offset + Text.byteSize (chars.takeWhile isGap)) (chars.dropWhile isGap) := by
  cases chars with
  | nil => rfl
  | cons c rest =>
    by_cases gap : isGap c = true
    · have skipped : step [] c rest = ⟨none, (rest.takeWhile isGap).length, []⟩ := if_pos gap
      have taken : (rest.takeWhile isGap ++ rest.dropWhile isGap).take
          (rest.takeWhile isGap).length = rest.takeWhile isGap := List.take_left
      have dropped : (rest.takeWhile isGap ++ rest.dropWhile isGap).drop
          (rest.takeWhile isGap).length = rest.dropWhile isGap := List.drop_left
      rw [List.takeWhile_append_dropWhile] at taken dropped
      rw [scanFrom, List.takeWhile_cons_of_pos gap, List.dropWhile_cons_of_pos gap]
      simp only [skipped, taken, dropped]
    · rw [List.takeWhile_cons_of_neg gap, List.dropWhile_cons_of_neg gap]
      rfl

theorem standsIn_of_mem_scan {source : String} {token : Token} (member : token ∈ scan source) :
    token.StandsIn source.toList :=
  ((scanFrom_places [] 0 source.toList [] rfl).1 token member).1

theorem pairwise_precedes_scan (source : String) : (scan source).Pairwise Precedes :=
  (scanFrom_places [] 0 source.toList [] rfl).2

/-- The tokens of a document stand behind the gap at its start. -/
theorem gap_le_of_mem_scan {source : String} {token : Token} (member : token ∈ scan source) :
    Text.byteSize (source.toList.takeWhile isGap) ≤ token.span.start := by
  rw [scan, scanFrom_gap, Nat.zero_add] at member
  exact ((scanFrom_places [] _ (source.toList.dropWhile isGap)
    (source.toList.takeWhile isGap) rfl).1 token member).2

end Token

end AssertionLint
