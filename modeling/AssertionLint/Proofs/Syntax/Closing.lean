import AssertionLint.Proofs.Syntax.Tokens
import Mathlib.Data.List.Find
import Mathlib.Data.List.Infix

/-!
# Tokens in front of a parenthesis

A parenthesis behind a text can change the tokens of the text only by becoming part of one: of a
literal or a comment that the text leaves open. If it is a token of its own, the text has the same
tokens in front of it as it has alone (`Token.scanFrom_concat`).
-/

namespace AssertionLint.Token

variable {chars : List Char}

theorem takeWhile_concat {accept : Char → Bool} (rejected : accept ')' = false)
    (chars : List Char) : (chars ++ [')']).takeWhile accept = chars.takeWhile accept := by
  induction chars with
  | nil => simp [rejected]
  | cons c rest ih =>
    rw [List.cons_append, List.takeWhile_cons, List.takeWhile_cons, ih]

theorem countWhile_concat {accept : Char → Bool} (rejected : accept ')' = false)
    (chars : List Char) : countWhile accept (chars ++ [')']) = countWhile accept chars := by
  rw [countWhile, takeWhile_concat rejected, countWhile]

/-- What ends in front of the parenthesis ends at the same place without it. -/
theorem countWhile_concat_of_le {accept : Char → Bool}
    (inside : countWhile accept (chars ++ [')']) ≤ chars.length) :
    countWhile accept (chars ++ [')']) = countWhile accept chars := by
  induction chars with
  | nil =>
    cases accepted : accept ')' with
    | true => simp [countWhile, accepted] at inside
    | false => exact countWhile_concat accepted []
  | cons c rest ih =>
    unfold countWhile at inside ih ⊢
    by_cases accepted : accept c = true
    · simp only [List.cons_append, List.takeWhile_cons_of_pos accepted, List.length_cons,
        Nat.add_le_add_iff_right] at inside ⊢
      rw [ih inside]
    · simp [accepted]

theorem escapedLength_concat {ending : Char}
    (inside : escapedLength ending (chars ++ [')']) ≤ chars.length) :
    escapedLength ending (chars ++ [')']) = escapedLength ending chars := by
  have cons_eq (c : Char) (rest : List Char) : escapedLength ending (c :: rest) =
      if c == ending then 1 else if c == '\n' then 0
      else if c == backslash then if rest = [] then 1 else 2 + escapedLength ending rest.tail
      else 1 + escapedLength ending rest := by
    cases rest <;> simp [escapedLength]
  fun_induction escapedLength ending chars with
  | _ => grind

theorem verbatimLength_concat (inside : verbatimLength (chars ++ [')']) ≤ chars.length) :
    verbatimLength (chars ++ [')']) = verbatimLength chars := by
  fun_induction verbatimLength chars with
  | case1 => simp [verbatimLength] at inside
  | case2 rest ih =>
    simp only [List.cons_append, verbatimLength, List.length_cons] at inside ⊢
    rw [ih (by omega)]
  | case3 rest single =>
    cases rest with
    | nil => simp [verbatimLength]
    | cons c rest =>
      rw [List.cons_append, List.cons_append, verbatimLength]
      rintro following same
      exact single rest (by rw [(List.cons.inj same).1])
  | case4 c rest noPair noQuote ih =>
    have rest_eq : verbatimLength (c :: rest ++ [')']) = 1 + verbatimLength (rest ++ [')']) := by
      rw [List.cons_append, verbatimLength]
      · rintro following rfl -
        exact noQuote rfl
      · exact noQuote
    rw [rest_eq, List.length_cons] at inside
    rw [rest_eq, ih (by omega)]

theorem rawLength_concat {quotes seen : Nat}
    (inside : rawLength quotes (chars ++ [')']) seen ≤ chars.length) :
    rawLength quotes (chars ++ [')']) seen = rawLength quotes chars seen := by
  have head?_iff (rest : List Char) :
      ((rest ++ [')']).head? = some '"') ↔ rest.head? = some '"' := by
    cases rest <;> simp
  fun_induction rawLength quotes chars seen with
  | _ => grind [rawLength]

theorem commentLength_concat (inside : commentLength (chars ++ [')']) ≤ chars.length) :
    commentLength (chars ++ [')']) = commentLength chars := by
  fun_induction commentLength chars with
  | case1 => simp [commentLength] at inside
  | case2 => rfl
  | case3 c rest noEnd ih =>
    have rest_eq : commentLength (c :: rest ++ [')']) = 1 + commentLength (rest ++ [')']) := by
      rw [List.cons_append, commentLength]
      rintro following rfl same
      cases rest with
      | nil => cases same
      | cons second rest => exact noEnd rest rfl (by rw [(List.cons.inj same).1])
    rw [rest_eq, List.length_cons] at inside
    rw [rest_eq, ih (by omega)]

/-- Text of an interpolated string that ends in front of the last character has a hole or quotes
behind it, whatever follows. -/
theorem interpolatedLength_concat {style : InterpolationStyle} {inBraces : Bool}
    (inside : interpolatedLength style inBraces (chars ++ [')']) < chars.length) :
    interpolatedLength style inBraces (chars ++ [')']) =
      interpolatedLength style inBraces chars := by
  have quotes (chars : List Char) : countWhile (· == '"') (chars ++ [')']) =
      countWhile (· == '"') chars := countWhile_concat rfl chars
  have braces (chars : List Char) : countWhile (· == '{') (chars ++ [')']) =
      countWhile (· == '{') chars := countWhile_concat rfl chars
  fun_induction interpolatedLength style inBraces chars with
  | case1 => simp at inside
  | case2 inBraces c => simpa using inside
  | _ => grind [interpolatedLength]

theorem isPrefixOf_concat {front : List Char} (apart : ')' ∉ front) (chars : List Char) :
    front.isPrefixOf (chars ++ [')']) = front.isPrefixOf chars := by
  rw [Bool.eq_iff_iff, List.isPrefixOf_iff_prefix, List.isPrefixOf_iff_prefix,
    List.prefix_concat_iff]
  refine or_iff_right ?_
  rintro rfl
  simp at apart

theorem markExtra_concat (chars : List Char) : markExtra (chars ++ [')']) = markExtra chars := by
  have apart : ∀ text ∈ longMarks, ')' ∉ text.toList := by decide
  rw [markExtra, markExtra, List.find?_congr fun text isMark =>
    isPrefixOf_concat (apart text isMark) chars]

theorem integerSuffix_concat (chars : List Char) :
    integerSuffix (chars ++ [')']) = integerSuffix chars := by
  rw [integerSuffix, integerSuffix, countWhile_concat rfl]

theorem exponentLength_concat (chars : List Char) :
    exponentLength (chars ++ [')']) = exponentLength chars := by
  have digits (chars : List Char) : countWhile isDigitPart (chars ++ [')']) =
      countWhile isDigitPart chars := countWhile_concat rfl chars
  rcases chars with _ | ⟨first, _ | ⟨second, _ | ⟨third, rest⟩⟩⟩
  · rfl
  · simp [exponentLength]
  · have alone : second.isDigit = true → countWhile isDigitPart [second, ')'] = 1 := by
      intro isDigit
      simp [countWhile, isDigitPart, isDigit]
    have noDigit : Char.isDigit ')' = false := rfl
    have pair : [first, second] ++ [')'] = [first, second, ')'] := rfl
    rw [pair, exponentLength, exponentLength]
    grind
  · have longer : first :: second :: third :: rest ++ [')'] =
        first :: second :: third :: (rest ++ [')']) := rfl
    have behind := digits (second :: third :: rest)
    rw [longer, exponentLength, exponentLength, digits]
    simp only [List.cons_append] at behind
    rw [behind]

theorem fractionLength_concat (chars : List Char) :
    fractionLength (chars ++ [')']) = fractionLength chars := by
  rcases chars with _ | ⟨first, _ | ⟨second, rest⟩⟩
  · rfl
  · by_cases isDot : first = '.'
    · subst isDot
      rfl
    · simp [fractionLength, isDot]
  · by_cases isDot : first = '.'
    · subst isDot
      simp only [List.cons_append, fractionLength]
      rw [countWhile_concat rfl]
    · simp [fractionLength, isDot]

theorem length_countWhile_le (accept : Char → Bool) (chars : List Char) :
    countWhile accept chars ≤ chars.length :=
  (List.takeWhile_prefix _).length_le

theorem fractionLength_le (chars : List Char) : fractionLength chars ≤ chars.length := by
  fun_cases fractionLength chars with
  | case1 digit rest isDigit =>
    have := length_countWhile_le isDigitPart rest
    simp
    omega
  | _ => simp 

theorem exponentLength_le (chars : List Char) : exponentLength chars ≤ chars.length := by
  have digits_le := length_countWhile_le isDigitPart
  fun_cases exponentLength chars with
  | _ => grind

theorem head?_concat {accept : Char → Bool} (rejected : accept ')' = false) (chars : List Char) :
    (chars ++ [')']).head?.any accept = chars.head?.any accept := by
  cases chars <;> simp [rejected]

theorem decimalLength_concat (chars : List Char) :
    numberLength.decimalLength (chars ++ [')']) = numberLength.decimalLength chars := by
  have whole_le := length_countWhile_le isDigitPart chars
  have fraction_le := fractionLength_le (chars.drop (countWhile isDigitPart chars))
  have exponent_le := exponentLength_le (chars.drop (countWhile isDigitPart chars +
    fractionLength (chars.drop (countWhile isDigitPart chars))))
  rw [List.length_drop] at fraction_le exponent_le
  unfold numberLength.decimalLength
  dsimp only
  rw [countWhile_concat rfl, List.drop_append_of_le_length whole_le, fractionLength_concat,
    List.drop_append_of_le_length (by omega), exponentLength_concat,
    List.drop_append_of_le_length (by omega), head?_concat rfl, integerSuffix_concat]

theorem numberLength_concat (chars : List Char) :
    numberLength (chars ++ [')']) = numberLength chars := by
  have decimal := decimalLength_concat chars
  rcases chars with _ | ⟨first, _ | ⟨second, rest⟩⟩
  · rfl
  · by_cases isZero : first = '0'
    · subst isZero
      rfl
    · simpa [numberLength, isZero] using decimal
  · by_cases isZero : first = '0'
    · subst isZero
      have based (length : Nat) (le : length ≤ rest.length) :
          integerSuffix (('0' :: second :: (rest ++ [')'])).drop (2 + length)) =
            integerSuffix (('0' :: second :: rest).drop (2 + length)) := by
        rw [← integerSuffix_concat (('0' :: second :: rest).drop (2 + length)),
          ← List.drop_append_of_le_length (by simp; omega)]
        rfl
      simp only [List.cons_append] at decimal
      simp only [List.cons_append, numberLength,
        countWhile_concat (show isHexPart ')' = false from rfl),
        countWhile_concat (show isDigitPart ')' = false from rfl),
        based _ (length_countWhile_le _ _), decimal]
    · simp only [List.cons_append] at decimal
      simpa [numberLength, isZero] using decimal

theorem encodingSuffix_concat (chars : List Char) :
    encodingSuffix (chars ++ [')']) = encodingSuffix chars := by
  have suffix_eq (chars : List Char) : encodingSuffix chars =
      if ['u', '8'].isPrefixOf chars || ['U', '8'].isPrefixOf chars then 2 else 0 := by
    unfold encodingSuffix
    split
    · rfl
    · rfl
    · rename_i noLower noUpper
      rw [if_neg]
      rcases chars with _ | ⟨first, _ | ⟨second, rest⟩⟩
      · simp
      · simp
      · simp only [List.isPrefixOf_cons_cons, List.isPrefixOf_nil_left, Bool.and_true,
          Bool.or_eq_true, Bool.and_eq_true, beq_iff_eq]
        rintro (⟨rfl, rfl⟩ | ⟨rfl, rfl⟩)
        · exact noLower rest rfl
        · exact noUpper rest rfl
  rw [suffix_eq, suffix_eq, isPrefixOf_concat (by decide), isPrefixOf_concat (by decide)]

theorem stringLength_concat {c : Char} {rest : List Char}
    (inside : (stringLength (c :: rest ++ [')'])).2 ≤ (c :: rest).length) :
    stringLength (c :: rest ++ [')']) = stringLength (c :: rest) := by
  have quotes_le := length_countWhile_le (· == '"') (c :: rest)
  unfold stringLength at inside ⊢
  dsimp only at inside ⊢
  rw [countWhile_concat rfl] at inside ⊢
  generalize countWhile (· == '"') (c :: rest) = quotes at inside quotes_le ⊢
  rw [List.drop_append_of_le_length quotes_le] at inside ⊢
  split
  · rename_i isRaw
    rw [if_pos isRaw] at inside
    dsimp only at inside
    have length_eq : rawLength quotes ((c :: rest).drop quotes ++ [')']) 0 =
        rawLength quotes ((c :: rest).drop quotes) 0 := by
      refine rawLength_concat ?_
      rw [List.length_drop]
      omega
    rw [length_eq] at inside ⊢
    rw [List.drop_append_of_le_length (by omega), encodingSuffix_concat]
  · rename_i notRaw
    rw [if_neg notRaw] at inside
    simp only [List.cons_append, List.drop_succ_cons, List.drop_zero, List.length_cons] at inside ⊢
    have length_eq : escapedLength '"' (rest ++ [')']) = escapedLength '"' rest :=
      escapedLength_concat (by omega)
    rw [length_eq] at inside ⊢
    rw [← List.cons_append, List.drop_append_of_le_length (by simp; omega), encodingSuffix_concat]

theorem interpolationStart?_concat (chars : List Char) :
    interpolationStart? (chars ++ [')']) = interpolationStart? chars := by
  have dollars_le := length_countWhile_le (· == '$') chars
  unfold interpolationStart?
  dsimp only
  rw [countWhile_concat rfl, List.drop_append_of_le_length dollars_le, countWhile_concat rfl,
    isPrefixOf_concat (by decide), isPrefixOf_concat (by decide)]

theorem startsConditional_concat (chars : List Char) :
    startsConditional (chars ++ [')']) = startsConditional chars := by
  rcases chars with _ | ⟨first, _ | ⟨second, rest⟩⟩
  · rfl
  · simp [startsConditional]
  · rfl

theorem directiveStep_concat {modes : List Mode}
    (inside : (directiveStep modes (chars ++ [')'])).extra ≤ chars.length) :
    directiveStep modes (chars ++ [')']) = directiveStep modes chars := by
  have blanks_le := length_countWhile_le (fun c => c == ' ' || c == '\t') chars
  unfold directiveStep at inside ⊢
  dsimp only at inside ⊢
  rw [countWhile_concat rfl, List.drop_append_of_le_length blanks_le,
    takeWhile_concat rfl] at inside ⊢
  split
  · rfl
  · rename_i noDirective
    rw [if_neg noDirective] at inside
    rw [countWhile_concat_of_le inside]

/-- Two steps that are taken by the same cases are equal if they are in each case. -/
theorem ite_step_eq {condition : Prop} [Decidable condition] {one two one' two' : Step}
    {bound : Nat}
    (inside : (if condition then one else two).extra ≤ bound)
    (first : condition → one.extra ≤ bound → one = one')
    (second : ¬condition → two.extra ≤ bound → two = two') :
    (if condition then one else two) = if condition then one' else two' := by
  split at inside
  · rename_i holds
    rw [if_pos holds, if_pos holds, first holds inside]
  · rename_i fails
    rw [if_neg fails, if_neg fails, second fails inside]

theorem plainStep_concat {modes : List Mode} {c : Char} {rest : List Char}
    (inside : (plainStep modes c (rest ++ [')'])).extra ≤ rest.length) :
    plainStep modes c (rest ++ [')']) = plainStep modes c rest := by
  have chars_eq : c :: (rest ++ [')']) = c :: rest ++ [')'] := rfl
  have quote_eq : ((rest ++ [')']).head? == some '"') = (rest.head? == some '"') := by
    cases rest <;> rfl
  unfold plainStep at inside ⊢
  simp only [chars_eq, quote_eq, isPrefixOf_concat (show ')' ∉ "//".toList by decide),
    isPrefixOf_concat (show ')' ∉ "/*".toList by decide), interpolationStart?_concat,
    numberLength_concat, markExtra_concat, countWhile_concat (show isGap ')' = false by decide),
    countWhile_concat (show isWordPart ')' = false by decide),
    head?_concat (show isWordStart ')' = false by decide),
    head?_concat (show Char.isDigit ')' = false by decide)] at inside ⊢
  refine ite_step_eq inside (fun _ _ => rfl) fun _ inside => ?_
  refine ite_step_eq inside (fun _ inside => ?_) fun _ inside => ?_
  · rw [countWhile_concat_of_le inside]
  refine ite_step_eq inside (fun isComment inside => ?_) fun _ inside => ?_
  · cases rest with
    | nil => simp at isComment
    | cons second rest =>
      simp only [List.cons_append, List.drop_succ_cons, List.drop_zero,
        List.length_cons] at inside ⊢
      rw [commentLength_concat (by omega)]
  refine ite_step_eq inside (fun _ inside => directiveStep_concat inside) fun _ inside => ?_
  split
  · rfl
  · rename_i noStart
    simp only [noStart] at inside
    refine ite_step_eq inside (fun isVerbatim inside => ?_) fun _ inside => ?_
    · cases rest with
      | nil => simp at isVerbatim
      | cons second rest =>
        simp only [List.cons_append, List.drop_succ_cons, List.drop_zero,
          List.length_cons] at inside ⊢
        have length_eq : verbatimLength (rest ++ [')']) = verbatimLength rest :=
          verbatimLength_concat (by omega)
        rw [length_eq] at inside ⊢
        rw [← List.cons_append, List.drop_append_of_le_length (by simp; omega),
          encodingSuffix_concat]
    refine ite_step_eq inside (fun _ inside => ?_) fun _ inside => ?_
    · rw [stringLength_concat (Nat.le_add_of_sub_le inside)]
    refine ite_step_eq inside (fun _ inside => ?_) fun _ inside => ?_
    · rw [escapedLength_concat inside]
    refine ite_step_eq inside (fun _ _ => rfl) fun _ inside => ?_
    refine ite_step_eq inside (fun _ inside => ?_) fun _ inside => rfl
    rw [List.take_append_of_le_length (length_countWhile_le _ _)]

/-- A step that ends in front of the parenthesis is the one without it, but for text of an
interpolated string that goes on to the parenthesis. -/
theorem step_concat {modes : List Mode} {c : Char} {rest : List Char}
    (inside : (step modes c (rest ++ [')'])).extra ≤ rest.length)
    (closed : (step modes c (rest ++ [')'])).extra = rest.length →
      ∀ style outer, (step modes c (rest ++ [')'])).modes ≠ .text style :: outer) :
    step modes c (rest ++ [')']) = step modes c rest := by
  rcases modes with _ | ⟨style | ⟨style, _ | depth, conditionals⟩ | _, outer⟩
  · exact plainStep_concat inside
  · have length_lt : interpolatedLength style false (c :: rest ++ [')']) < (c :: rest).length := by
      by_cases positive : 0 < interpolatedLength style false (c :: rest ++ [')'])
      · have step_eq : step (.text style :: outer) c (rest ++ [')']) = ⟨some .interpolationText,
            interpolatedLength style false (c :: rest ++ [')']) - 1, .text style :: outer⟩ :=
          if_pos positive
        rw [step_eq] at inside closed
        have notWhole := mt (closed · style outer) (not_not.mpr rfl)
        dsimp only at inside notWhole
        rw [List.length_cons]
        omega
      · rw [List.length_cons]
        omega
    have length_eq := interpolatedLength_concat length_lt
    simp only [List.cons_append] at length_eq
    simp only [step, length_eq]
  · have colon_eq : ((rest ++ [')']).head? != some ':') = (rest.head? != some ':') := by
      cases rest <;> rfl
    simp only [step, colon_eq, startsConditional_concat] at inside ⊢
    refine ite_step_eq inside (fun _ _ => rfl) fun _ inside => ?_
    refine ite_step_eq inside (fun _ inside => ?_) fun _ inside => ?_
    · cases conditionals with
      | zero =>
        dsimp only at inside ⊢
        rw [countWhile_concat_of_le inside]
      | succ pending => rfl
    · exact ite_step_eq inside (fun _ _ => rfl) fun _ inside => plainStep_concat inside
  · exact plainStep_concat inside
  · refine ite_step_eq inside (fun _ _ => rfl) fun _ inside => ?_
    exact ite_step_eq inside (fun _ _ => rfl) fun _ inside => plainStep_concat inside

/-- In text of an interpolated string a parenthesis is text. -/
theorem scanFrom_text (style : InterpolationStyle) (outer : List Mode) (offset : Nat) :
    scanFrom (.text style :: outer) offset [')'] =
      [⟨.interpolationText, ")", ⟨offset, offset + 1⟩⟩] := by
  have step_eq : step (.text style :: outer) ')' [] =
      ⟨some .interpolationText, 0, .text style :: outer⟩ := rfl
  have size : Char.utf8Size ')' = 1 := rfl
  simp [scanFrom, step_eq, Text.byteSize, size]

/-- The tokens behind the first step. -/
def following (modes : List Mode) (offset : Nat) (c : Char) (rest : List Char) : List Token :=
  scanFrom (step modes c rest).modes
    (offset + Text.byteSize (c :: rest.take (step modes c rest).extra))
    (rest.drop (step modes c rest).extra)

/-- The token that the first step finds. -/
def first? (modes : List Mode) (offset : Nat) (c : Char) (rest : List Char) : Option Token :=
  let text := c :: rest.take (step modes c rest).extra
  (step modes c rest).kind.map fun kind =>
    ⟨kind, String.ofList text, ⟨offset, offset + Text.byteSize text⟩⟩

theorem scanFrom_cons (modes : List Mode) (offset : Nat) (c : Char) (rest : List Char) :
    scanFrom modes offset (c :: rest) =
      (first? modes offset c rest).toList ++ following modes offset c rest := by
  rw [scanFrom, first?, following]
  cases (step modes c rest).kind <;> rfl

theorem start_of_first? {modes : List Mode} {offset : Nat} {c : Char} {rest : List Char}
    {token : Token} (isFirst : first? modes offset c rest = some token) :
    token.span.start = offset := by
  rcases Option.map_eq_some_iff.mp isFirst with ⟨kind, -, rfl⟩
  rfl

/-- If the parenthesis is a token of its own, the text in front of it has the same tokens as
without it. -/
theorem scanFrom_concat {modes : List Mode} {offset : Nat} {token : Token}
    (isToken : token ∈ scanFrom modes offset (chars ++ [')'])) (isMark : token.kind = .mark)
    (start_eq : token.span.start = offset + Text.byteSize chars) :
    scanFrom modes offset (chars ++ [')']) = scanFrom modes offset chars ++ [token] ∧
      token.text = ")" := by
  induction length_eq : chars.length using Nat.strong_induction_on
    generalizing modes offset chars with
  | _ length ih =>
  cases chars with
  | nil =>
    have nothing : scanFrom modes offset [] = [] := by rw [scanFrom]
    have noneLeft : following modes offset ')' [] = [] := by rw [following, List.drop_nil, scanFrom]
    rw [List.nil_append, scanFrom_cons, noneLeft, List.append_nil, Option.mem_toList] at isToken
    rw [List.nil_append, scanFrom_cons, noneLeft, nothing, isToken]
    rcases Option.map_eq_some_iff.mp isToken with ⟨kind, -, rfl⟩
    exact ⟨rfl, by rw [List.take_nil]⟩
  | cons c rest =>
    have size_pos := Char.utf8Size_pos c
    simp only [Text.byteSize] at start_eq
    rw [List.cons_append, scanFrom_cons, List.mem_append, Option.mem_toList] at isToken
    -- the parenthesis starts behind the first character
    have isLater : token ∈ following modes offset c (rest ++ [')']) := by
      refine isToken.resolve_left fun isFirst => ?_
      have := start_of_first? isFirst
      omega
    have inside : (step modes c (rest ++ [')'])).extra ≤ rest.length := by
      by_contra beyond
      rw [following, List.drop_eq_nil_of_le (by simp; omega), scanFrom] at isLater
      cases isLater
    have size_eq := Text.byteSize_append (rest.take (step modes c (rest ++ [')'])).extra)
      (rest.drop (step modes c (rest ++ [')'])).extra)
    rw [List.take_append_drop] at size_eq
    rw [following] at isLater
    rw [List.take_append_of_le_length inside, List.drop_append_of_le_length inside] at isLater
    have step_eq : step modes c (rest ++ [')']) = step modes c rest := by
      refine step_concat inside fun isWhole style outer isText => ?_
      rw [isText, isWhole, List.drop_length, List.nil_append, scanFrom_text,
        List.mem_singleton] at isLater
      rw [isLater] at isMark
      cases isMark
    rw [step_eq] at isLater inside size_eq
    have behind := ih _ (by rw [← length_eq, List.length_drop, List.length_cons]; omega) isLater
      (by rw [start_eq, Text.byteSize]; omega) rfl
    refine ⟨?_, behind.2⟩
    rw [List.cons_append, scanFrom_cons, scanFrom_cons, List.append_assoc, following, step_eq,
      List.take_append_of_le_length inside, List.drop_append_of_le_length inside, behind.1,
      following, first?, first?, step_eq, List.take_append_of_le_length inside]

end AssertionLint.Token
