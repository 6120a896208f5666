import AssertionLint.Proofs.Format.Item
import AssertionLint.Proofs.Format.Reading

/-!
# From composite formats to interpolated strings

A composite format and the interpolated string that it becomes stand for the same text, whatever the
texts of the arguments in their widths and formats are (`Expr.interpolate?_expandsTo`).
-/

namespace AssertionLint

variable {value : Nat → Option Int → Option (List Char) → List Char} {values : List Expr}

/-- The text that a token of a format stands for, where `value` gives the text of an argument in a
width and a format. -/
inductive FormatToken.ExpandsTo (value : Nat → Option Int → Option (List Char) → List Char) :
    FormatToken → List Char → Prop
  | char (c : Char) : ExpandsTo value (.char c) [c]
  | item {body : List Char} {index : Nat} {width : Option Int} {clause : Option (List Char)} :
      FormatItem.IsReadAs body index width clause →
      ExpandsTo value (.item body) (value index width clause)

/-- The text that a composite format stands for. -/
def CompositeFormat.ExpandsTo (value : Nat → Option Int → Option (List Char) → List Char)
    (written text : List Char) : Prop :=
  ∃ tokens texts, Reads written tokens [] ∧
    List.Forall₂ (FormatToken.ExpandsTo value) tokens texts ∧ text = texts.flatten

/-- An expression stands for an argument in a hole. A conditional expression must be in parentheses,
because its colon would start a format clause. -/
structure Expr.Holds (expr argument : Expr) : Prop where
  same : expr = argument ∨ expr = .parenthesized argument.unparenthesized none
  not_conditional : ∀ condition whenTrue whenFalse span,
    expr ≠ .conditional condition whenTrue whenFalse span

/-- The text that an interpolated string stands for. Its holes hold the arguments with the given
numbers, and in its text a doubled brace is one brace. -/
inductive InterpolationPart.ExpandTo
    (value : Nat → Option Int → Option (List Char) → List Char) (values : List Expr) :
    List InterpolationPart → List Nat → List Char → Prop
  | nil : ExpandTo value values [] [] []
  | text {written : String} {chars rest : List Char} {parts : List InterpolationPart}
      {indices : List Nat} :
      CompositeFormat.Reads written.toList (chars.map .char) [] →
      ExpandTo value values parts indices rest →
      ExpandTo value values (.text written :: parts) indices (chars ++ rest)
  | hole {expr argument : Expr} {alignment format : Option String} {index : Nat}
      {width : Option Int} {rest : List Char} {parts : List InterpolationPart}
      {indices : List Nat} :
      values[index]? = some argument → expr.Holds argument →
      Option.Rel (fun written => Text.IsInteger written.toList) alignment width →
      ExpandTo value values parts indices rest →
      ExpandTo value values (.hole expr alignment format :: parts) (index :: indices)
        (value index width (format.map (·.toList)) ++ rest)

/-- A plain or verbatim string literal with the text between its delimiters. -/
inductive Expr.IsFormat (format : Expr) : Bool → List Char → Prop
  | plain {text : String} {span : Option Span} {body : List Char} :
      format.unparenthesized = .literal ⟨.string, text⟩ span →
      text.toList = '"' :: (body ++ ['"']) → IsFormat format false body
  | verbatim {text : String} {span : Option Span} {body : List Char} :
      format.unparenthesized = .literal ⟨.verbatimString, text⟩ span →
      text.toList = '@' :: '"' :: (body ++ ['"']) → IsFormat format true body

/-- A composite format that does not give an interpolated string of the given number of
arguments. -/
inductive CompositeFormat.IsRefused (count : Nat) (written : List Char) : Prop
  | blocked {tokens : List FormatToken} {rest : List Char} : Reads written tokens rest →
      IsBlocked rest → IsRefused count written
  | item {body : List Char} : HasItem written body → FormatItem.IsFaulty body →
      IsRefused count written
  | argument {body : List Char} {index : Nat} {width : Option Int} {clause : Option (List Char)} :
      HasItem written body → FormatItem.IsReadAs body index width clause → count ≤ index →
      IsRefused count written

theorem FormatToken.rightUnique_expandsTo : Relator.RightUnique (ExpandsTo value) := by
  intro token text other first second
  cases first with
  | char =>
    cases second
    rfl
  | item isReadAs =>
    cases second with
    | item otherIsReadAs =>
      rcases isReadAs.unique otherIsReadAs with ⟨rfl, rfl, rfl⟩
      rfl

theorem CompositeFormat.ExpandsTo.unique {written text other : List Char}
    (first : ExpandsTo value written text) (second : ExpandsTo value written other) :
    text = other := by
  rcases first with ⟨tokens, texts, read, expand, rfl⟩
  rcases second with ⟨otherTokens, otherTexts, otherRead, otherExpand, rfl⟩
  cases read.unique otherRead
  rw [FormatToken.rightUnique_expandsTo.forall₂ expand otherExpand]

theorem InterpolationPart.ExpandTo.unique {parts : List InterpolationPart} {indices : List Nat}
    {text other : List Char} (first : ExpandTo value values parts indices text)
    (second : ExpandTo value values parts indices other) : text = other := by
  induction first generalizing other with
  | nil =>
    cases second
    rfl
  | text read _ ih =>
    cases second with
    | text otherRead otherRest =>
      have same := List.map_injective_iff.mpr (fun _ _ => FormatToken.char.inj)
        (read.unique otherRead)
      rw [same, ih otherRest]
  | hole _ _ isInteger _ ih =>
    cases second with
    | hole _ _ otherIsInteger otherRest =>
      have rightUnique : Relator.RightUnique fun written : String =>
          Text.IsInteger written.toList := fun _ _ _ => (Text.rightUnique_isInteger · ·)
      rw [FormatItem.rightUnique_optionRel rightUnique isInteger otherIsInteger, ih otherRest]

theorem mapM_eq_none_iff {α β : Type} {next : α → Option β} {items : List α} :
    items.mapM next = none ↔ ∃ item ∈ items, next item = none := by
  induction items with
  | nil => simp
  | cons item rest ih =>
    simp only [List.mapM_cons, List.mem_cons, exists_eq_or_imp, ← ih]
    cases next item <;> cases rest.mapM next <;> simp

namespace InterpolationPart

open FormatPiece (Spells)

theorem holds_holeExpr (argument : Expr) : (holeExpr argument).Holds argument := by
  unfold holeExpr
  split
  · rename_i inner
    exact ⟨.inr (by rw [inner]; rfl), nofun⟩
  · rename_i other
    refine ⟨.inl rfl, ?_⟩
    rintro condition whenTrue whenFalse span rfl
    exact other condition whenTrue whenFalse span rfl

theorem isInteger_map_ofList {alignment : Option (List Char)} {width : Option Int}
    (isInteger : Option.Rel Text.IsInteger alignment width) :
    Option.Rel (fun written : String => Text.IsInteger written.toList)
      (alignment.map String.ofList) width := by
  cases isInteger with
  | none => exact .none
  | some isInteger => exact .some (by rwa [String.toList_ofList])

/-- The parts of an interpolated string stand for the same text as the tokens of the format. -/
theorem exists_indices {pieces : List FormatPiece} {lists : List (List FormatToken)}
    {parts : List InterpolationPart} (spells : List.Forall₂ Spells pieces lists)
    (made : pieces.mapM (ofPiece? values) = some parts) :
    ∃ indices, ∀ value, ∃ texts,
      List.Forall₂ (FormatToken.ExpandsTo value) lists.flatten texts ∧
        ExpandTo value values parts indices texts.flatten := by
  -- the numbers do not depend on `value`: equal arguments give equal holes, so a part alone does
  -- not say which argument it holds
  induction spells generalizing parts with
  | nil =>
    cases made
    exact ⟨[], fun _ => ⟨[], .nil, .nil⟩⟩
  | cons first _ ih =>
    rw [List.mapM_cons] at made
    simp only [bind, pure, Option.bind_eq_some_iff, Option.some.injEq] at made
    rcases made with ⟨part, partMade, others, othersMade, rfl⟩
    rcases ih othersMade with ⟨indices, expand⟩
    cases first with
    | @text written chars read =>
      cases partMade
      refine ⟨indices, fun value => ?_⟩
      rcases expand value with ⟨texts, tokensExpand, partsExpand⟩
      refine ⟨chars.map ([·]) ++ texts, List.rel_append ?_ tokensExpand, ?_⟩
      · rw [List.forall₂_map_left_iff, List.forall₂_map_right_iff, List.forall₂_same]
        exact fun c _ => .char c
      · rw [List.flatten_append, ← List.flatMap_def, List.flatMap_singleton']
        exact .text (by rwa [String.toList_ofList]) partsExpand
    | item body =>
      simp only [ofPiece?, bind, pure, Option.bind_eq_some_iff, Option.some.injEq] at partMade
      rcases partMade with ⟨item, itemRead, argument, argumentIs, rfl⟩
      rcases FormatItem.isReadAs_of_ofBody? itemRead with ⟨width, isReadAs, isInteger⟩
      refine ⟨item.index :: indices, fun value => ?_⟩
      rcases expand value with ⟨texts, tokensExpand, partsExpand⟩
      refine ⟨value item.index width item.format :: texts, .cons (.item isReadAs) tokensExpand, ?_⟩
      have clauseIs : (item.format.map String.ofList).map (·.toList) = item.format := by
        simp [Function.comp_def]
      rw [List.flatten_cons]
      nth_rewrite 2 [← clauseIs]
      exact .hole argumentIs (holds_holeExpr argument) (isInteger_map_ofList isInteger) partsExpand

theorem mem_flatten_of_spells {pieces : List FormatPiece} {lists : List (List FormatToken)}
    (spells : List.Forall₂ Spells pieces lists) {body : List Char} :
    .item body ∈ lists.flatten ↔ .item body ∈ pieces := by
  induction spells with
  | nil => simp
  | cons first _ ih => cases first <;> simp [ih]

theorem ofPiece?_eq_none_iff {piece : FormatPiece} :
    ofPiece? values piece = none ↔
      ∃ body, piece = .item body ∧ (FormatItem.IsFaulty body ∨
        ∃ index width clause, FormatItem.IsReadAs body index width clause ∧
          values.length ≤ index) := by
  cases piece with
  | text written => simp [ofPiece?]
  | item body =>
    simp only [ofPiece?, FormatPiece.item.injEq, exists_eq_left', ← FormatItem.ofBody?_eq_none_iff]
    rcases read : FormatItem.ofBody? body with _ | item
    · simp
    · rcases FormatItem.isReadAs_of_ofBody? read with ⟨width, isReadAs, -⟩
      have only : (∃ index width clause, FormatItem.IsReadAs body index width clause ∧
          values.length ≤ index) ↔ values.length ≤ item.index := by
        constructor
        · rintro ⟨index, otherWidth, clause, otherReadAs, missing⟩
          exact (isReadAs.unique otherReadAs).1 ▸ missing
        · exact fun missing => ⟨_, _, _, isReadAs, missing⟩
      rw [only, ← List.getElem?_eq_none_iff]
      rcases argumentIs : values[item.index]? with _ | argument <;> simp [argumentIs]

/-- A format gives no interpolated string if and only if it is refused. -/
theorem ofFormat?_eq_none_iff {written : List Char} :
    ofFormat? values written = none ↔ CompositeFormat.IsRefused values.length written := by
  unfold ofFormat?
  rcases found : FormatPiece.split? written with _ | pieces
  · refine iff_of_true rfl ?_
    rcases FormatPiece.exists_isBlocked_of_split? found with ⟨tokens, rest, read, blocked⟩
    exact .blocked read blocked
  · rcases FormatPiece.exists_reads_of_split? found with ⟨lists, spells, read⟩
    have hasItem {body : List Char} : .item body ∈ pieces ↔ CompositeFormat.HasItem written body :=
      (mem_flatten_of_spells spells).symm.trans read.mem_iff_hasItem
    refine mapM_eq_none_iff.trans ?_
    simp only [ofPiece?_eq_none_iff]
    constructor
    · rintro ⟨_, member, body, rfl, faulty | ⟨index, width, clause, isReadAs, missing⟩⟩
      · exact .item (hasItem.mp member) faulty
      · exact .argument (hasItem.mp member) isReadAs missing
    · rintro (⟨front, blocked⟩ | ⟨item, faulty⟩ | ⟨item, isReadAs, missing⟩)
      · exact (read.not_isBlocked front blocked).elim
      · exact ⟨_, hasItem.mpr item, _, rfl, .inl faulty⟩
      · exact ⟨_, hasItem.mpr item, _, rfl, .inr ⟨_, _, _, isReadAs, missing⟩⟩

end InterpolationPart

namespace Literal

theorem between_eq_some_iff {delimited body : List Char} :
    (match delimited with
      | '"' :: rest => if rest.getLast? = some '"' then some rest.dropLast else none
      | _ => none) = some body ↔ delimited = '"' :: (body ++ ['"']) := by
  split
  · rename_i rest
    rw [Option.ite_none_right_eq_some, Option.some.injEq, List.cons.injEq]
    constructor
    · rintro ⟨isLast, rfl⟩
      exact ⟨rfl, (List.dropLast_append_getLast? _ isLast).symm⟩
    · rintro ⟨-, rfl⟩
      simp
  · rename_i other
    refine iff_of_false (by simp) ?_
    rintro rfl
    exact other _ rfl

theorem stringBody?_eq_some_iff {written : Literal} {verbatim : Bool} {body : List Char} :
    written.stringBody? = some (verbatim, body) ↔
      (written.kind = .string ∧ verbatim = false ∧
        written.text.toList = '"' :: (body ++ ['"'])) ∨
      (written.kind = .verbatimString ∧ verbatim = true ∧
        written.text.toList = '@' :: '"' :: (body ++ ['"'])) := by
  unfold stringBody?
  split
  · rename_i isString
    simp only [isString, Option.map_eq_some_iff, Prod.mk.injEq, true_and, reduceCtorEq, false_and,
      or_false]
    constructor
    · rintro ⟨_, found, rfl, rfl⟩
      exact ⟨rfl, between_eq_some_iff.mp found⟩
    · rintro ⟨rfl, delimited⟩
      exact ⟨body, between_eq_some_iff.mpr delimited, rfl, rfl⟩
  · rename_i isVerbatim
    simp only [isVerbatim, reduceCtorEq, false_and, false_or, true_and]
    split
    · rename_i rest textIs
      simp only [textIs, Option.map_eq_some_iff, Prod.mk.injEq, List.cons.injEq, true_and]
      constructor
      · rintro ⟨_, found, rfl, rfl⟩
        exact ⟨rfl, between_eq_some_iff.mp found⟩
      · rintro ⟨rfl, delimited⟩
        exact ⟨body, between_eq_some_iff.mpr delimited, rfl, rfl⟩
    · rename_i other
      refine iff_of_false (by simp) ?_
      rintro ⟨-, textIs⟩
      exact other _ textIs
  · rename_i notString notVerbatim
    refine iff_of_false (by simp) ?_
    rintro (⟨isString, -⟩ | ⟨isVerbatim, -⟩)
    · exact notString isString
    · exact notVerbatim isVerbatim

end Literal

namespace Expr

theorem isFormat_iff {format : Expr} {verbatim : Bool} {body : List Char} :
    format.IsFormat verbatim body ↔ ∃ written span, format.unparenthesized = .literal written span ∧
      written.stringBody? = some (verbatim, body) := by
  simp only [Literal.stringBody?_eq_some_iff]
  constructor
  · intro isFormat
    cases isFormat with
    | plain isLiteral delimited => exact ⟨_, _, isLiteral, .inl ⟨rfl, rfl, delimited⟩⟩
    | verbatim isLiteral delimited => exact ⟨_, _, isLiteral, .inr ⟨rfl, rfl, delimited⟩⟩
  · rintro ⟨⟨kind, text⟩, span, isLiteral, ⟨rfl, rfl, delimited⟩ | ⟨rfl, rfl, delimited⟩⟩
    · exact .plain isLiteral delimited
    · exact .verbatim isLiteral delimited

theorem IsFormat.unique {format : Expr} {verbatim other : Bool} {body otherBody : List Char}
    (first : format.IsFormat verbatim body) (second : format.IsFormat other otherBody) :
    verbatim = other ∧ body = otherBody := by
  rcases isFormat_iff.mp first with ⟨written, span, isLiteral, bodyIs⟩
  rcases isFormat_iff.mp second with ⟨_, _, otherIsLiteral, otherBodyIs⟩
  cases isLiteral.symm.trans otherIsLiteral
  cases bodyIs.symm.trans otherBodyIs
  exact ⟨rfl, rfl⟩

theorem IsFormat.interpolate?_eq {format : Expr} {verbatim : Bool} {body : List Char}
    (isFormat : format.IsFormat verbatim body) :
    format.interpolate? values =
      (InterpolationPart.ofFormat? values body).map (.interpolatedString verbatim · none) := by
  rcases isFormat_iff.mp isFormat with ⟨written, span, isLiteral, bodyIs⟩
  rw [interpolate?, isLiteral]
  simp only [bodyIs, bind, pure, Option.bind_some]
  cases InterpolationPart.ofFormat? values body <;> rfl

theorem exists_isFormat_of_interpolate? {format result : Expr}
    (found : format.interpolate? values = some result) :
    ∃ verbatim body, format.IsFormat verbatim body := by
  unfold interpolate? at found
  split at found
  · rename_i written span isLiteral
    simp only [bind, Option.bind_eq_some_iff] at found
    rcases found with ⟨⟨verbatim, body⟩, bodyIs, -⟩
    exact ⟨verbatim, body, isFormat_iff.mpr ⟨written, span, isLiteral, bodyIs⟩⟩
  · cases found

/-- A format that becomes an interpolated string is a plain or verbatim literal, and both stand for
the same text whatever the texts of the arguments are. A format becomes no interpolated string if
and only if it is no such literal or it is refused. -/
theorem interpolate?_expandsTo (format : Expr) (values : List Expr) :
    (∀ result, format.interpolate? values = some result → ∃ verbatim body parts indices,
      format.IsFormat verbatim body ∧ result = .interpolatedString verbatim parts none ∧
        ∀ value, ∃ text,
          (∀ other, CompositeFormat.ExpandsTo value body other ↔ other = text) ∧
          ∀ other, InterpolationPart.ExpandTo value values parts indices other ↔ other = text) ∧
    (format.interpolate? values = none ↔
      (¬ ∃ verbatim body, format.IsFormat verbatim body) ∨
        ∃ verbatim body, format.IsFormat verbatim body ∧
          CompositeFormat.IsRefused values.length body) := by
  constructor
  · intro result found
    rcases exists_isFormat_of_interpolate? found with ⟨verbatim, body, isFormat⟩
    rw [isFormat.interpolate?_eq] at found
    rcases Option.map_eq_some_iff.mp found with ⟨parts, made, rfl⟩
    rcases Option.bind_eq_some_iff.mp made with ⟨pieces, split, partsMade⟩
    rcases FormatPiece.exists_reads_of_split? split with ⟨lists, spells, read⟩
    rcases InterpolationPart.exists_indices spells partsMade with ⟨indices, expand⟩
    refine ⟨verbatim, body, parts, indices, isFormat, rfl, fun value => ?_⟩
    rcases expand value with ⟨texts, tokensExpand, partsExpand⟩
    have formatExpands : CompositeFormat.ExpandsTo value body texts.flatten :=
      ⟨_, _, read, tokensExpand, rfl⟩
    refine ⟨texts.flatten, fun other => ⟨(formatExpands.unique · |>.symm), ?_⟩,
      fun other => ⟨(partsExpand.unique · |>.symm), ?_⟩⟩
    · rintro rfl
      exact formatExpands
    · rintro rfl
      exact partsExpand
  · by_cases literal : ∃ verbatim body, format.IsFormat verbatim body
    · rcases literal with ⟨verbatim, body, isFormat⟩
      rw [isFormat.interpolate?_eq, Option.map_eq_none_iff,
        InterpolationPart.ofFormat?_eq_none_iff]
      constructor
      · exact fun refused => .inr ⟨verbatim, body, isFormat, refused⟩
      · rintro (noLiteral | ⟨_, other, otherIsFormat, refused⟩)
        · exact (noLiteral ⟨verbatim, body, isFormat⟩).elim
        · exact (isFormat.unique otherIsFormat).2 ▸ refused
    · refine iff_of_true ?_ (.inl literal)
      by_contra read
      rcases Option.ne_none_iff_exists'.mp read with ⟨result, found⟩
      exact literal (exists_isFormat_of_interpolate? found)

/-- An item between doubled braces, with blanks around its width, two colons and a conditional
expression as its argument. -/
theorem interpolate?_bracedItem :
    let format : Expr := stringLiteral "\"\x7b\x7b\x7b1, +5 :N:0\x7d\x7d\x7d\""
    let choice : Expr := .conditional (identifier "b") (identifier "c") (identifier "d") none
    let values := [identifier "a", choice]
    let result : Expr := .interpolatedString false [.text "\x7b\x7b",
      .hole (.parenthesized choice none) (some "+5") (some "N:0"), .text "\x7d\x7d"] none
    format.interpolate? values = some result ∧ ∃ verbatim body parts indices,
      format.IsFormat verbatim body ∧ result = .interpolatedString verbatim parts none ∧
        ∀ value, ∃ text,
          (∀ other, CompositeFormat.ExpandsTo value body other ↔ other = text) ∧
          ∀ other, InterpolationPart.ExpandTo value values parts indices other ↔ other = text := by
  intro format choice values result
  have isFormat : format.IsFormat false "\x7b\x7b\x7b1, +5 :N:0\x7d\x7d\x7d".toList :=
    .plain rfl rfl
  have split : FormatPiece.split? "\x7b\x7b\x7b1, +5 :N:0\x7d\x7d\x7d".toList =
      some [.text "\x7b\x7b".toList, .item "1, +5 :N:0".toList, .text "\x7d\x7d".toList] := by
    decide +kernel
  have found : format.interpolate? values = some result := by
    rw [isFormat.interpolate?_eq, InterpolationPart.ofFormat?, split]
    rfl
  exact ⟨found, (interpolate?_expandsTo format values).1 result found⟩

end Expr

end AssertionLint
