import AssertionLint.CSharp.Document
import AssertionLint.Proofs.Format.Interpolation
import AssertionLint.Proofs.Position.Syntax
import AssertionLint.Proofs.Syntax.Closing

/-!
# The text in the holes of interpolated strings

The first colon of a hole that stands outside of brackets and literals starts the format clause. An
argument that is a conditional expression is put in parentheses for that reason, and they do hide
its colon (`Text.IsClosed.not_hasBareColon`). Every other
argument is written as it stands in the source, so its hole is cut short if the argument itself has
such a colon, as `global::System.String.Empty` has
(`ParsedDocument.exists_hole_with_bareColon`).
-/

namespace AssertionLint

namespace Token

/-- The token is a mark that starts with one of the characters. -/
def isMarkWith (characters : List Char) (token : Token) : Bool :=
  token.kind = .mark && token.text.toList.head?.any characters.contains

/-- The token opens a bracket. -/
def opens : Token → Bool := isMarkWith ['(', '[', '{']

/-- The token closes a bracket. -/
def closes : Token → Bool := isMarkWith [')', ']', '}']

/-- The token is a colon, or two of them. -/
def isColon : Token → Bool := isMarkWith [':']

/-- The tokens outside of brackets, of which `depth` are open in front of them. -/
def outside (depth : Nat) : List Token → List Token
  | [] => []
  | token :: rest =>
    if token.opens then outside (depth + 1) rest
    else if token.closes then outside (depth - 1) rest
    else if depth = 0 then token :: outside depth rest
    else outside depth rest

/-- Each bracket is closed behind the place where it is opened. -/
inductive IsBalanced : List Token → Prop
  | nil : IsBalanced []
  | other {token : Token} {rest : List Token} : token.opens = false → token.closes = false →
      IsBalanced rest → IsBalanced (token :: rest)
  | brackets {opening closing : Token} {body rest : List Token} : opening.opens = true →
      closing.closes = true → IsBalanced body → IsBalanced rest →
      IsBalanced (opening :: (body ++ closing :: rest))

theorem opens_of_closes {token : Token} (closes : token.closes = true) : token.opens = false := by
  simp only [Token.closes, opens, isMarkWith, Bool.and_eq_true, Option.any_eq_true] at closes ⊢
  rcases closes with ⟨-, first, isFirst, closes⟩
  simp only [isFirst, Option.any_some, Bool.and_eq_false_iff]
  right
  simp only [List.contains_eq_mem, List.mem_cons, List.not_mem_nil, or_false,
    decide_eq_true_eq] at closes
  rcases closes with rfl | rfl | rfl <;> decide

/-- Inside of brackets nothing balanced has tokens outside of them. -/
theorem IsBalanced.outside_append {tokens : List Token} (balanced : IsBalanced tokens)
    (depth : Nat) (rest : List Token) :
    outside (depth + 1) (tokens ++ rest) = outside (depth + 1) rest := by
  induction balanced generalizing depth rest with
  | nil => rfl
  | other notOpens notCloses _ ih => simp [outside, notOpens, notCloses, ih]
  | brackets opens closes _ _ bodyIh restIh =>
    rw [List.cons_append, List.append_assoc, outside, if_pos opens, bodyIh, List.cons_append,
      outside, if_neg (by simp [opens_of_closes closes]), if_pos closes, Nat.add_sub_cancel,
      restIh]

theorem IsBalanced.behind {tokens : List Token} (balanced : IsBalanced tokens) (front : String) :
    IsBalanced (tokens.map (Token.behind front)) := by
  induction balanced with
  | nil => exact .nil
  | other notOpens notCloses _ ih => exact .other notOpens notCloses ih
  | brackets opens closes _ _ bodyIh restIh =>
    rw [List.map_cons, List.map_append, List.map_cons]
    exact .brackets opens closes bodyIh restIh

theorem IsBalanced.outside_brackets {opening closing : Token} {body : List Token}
    (opens : opening.opens = true) (closes : closing.closes = true) (balanced : IsBalanced body) :
    outside 0 (opening :: (body ++ [closing])) = [] := by
  rw [outside, if_pos opens, balanced.outside_append, outside,
    if_neg (by simp [opens_of_closes closes]), if_pos closes]
  rfl

end Token

namespace Text

/-- A colon of the text stands outside of brackets and literals. -/
def HasBareColon (text : String) : Prop :=
  ∃ token ∈ Token.outside 0 (Token.scan text), token.isColon = true

instance (text : String) : Decidable (HasBareColon text) :=
  inferInstanceAs (Decidable (∃ token ∈ Token.outside 0 (Token.scan text), _))

/-- The text is made of whole tokens, in which each bracket is closed. It leaves no literal and no
comment open, so a parenthesis behind it is a token of its own. -/
structure IsClosed (text : String) : Prop where
  balanced : Token.IsBalanced (Token.scan text)
  apart : ∃ token ∈ Token.scan (text ++ ")"),
    token.kind = .mark ∧ token.span.start = byteSize text.toList

/-- In parentheses a text has its own tokens between the parentheses. -/
theorem IsClosed.scan_eq {text : String} (closed : IsClosed text) :
    ∃ opening closing, opening.opens = true ∧ closing.closes = true ∧
      Token.scan ("(" ++ text ++ ")") =
        opening :: ((Token.scan text).map (Token.behind "(") ++ [closing]) := by
  rcases closed.apart with ⟨token, isToken, isMark, start_eq⟩
  rw [Token.scan, String.toList_append] at isToken
  have apart := Token.scanFrom_concat isToken isMark (by rw [start_eq, Nat.zero_add])
  refine ⟨⟨.mark, "(", ⟨0, 1⟩⟩, token.behind "(", rfl, ?_, ?_⟩
  · simp [Token.closes, Token.isMarkWith, Token.behind, isMark, apart.2]
  · have whole : ("(" ++ text ++ ")").toList = '(' :: (text.toList ++ [')']) := by simp
    have behind : Token.following [] 0 '(' (text.toList ++ [')']) =
        (Token.scanFrom [] 0 (text.toList ++ [')'])).map (Token.behind "(") := by
      rw [← Token.scanFrom_behind]
      rfl
    rw [Token.scan, whole, Token.scanFrom_cons, behind, apart.1, List.map_append]
    rfl

/-- Parentheses hide every colon of a text. -/
theorem IsClosed.not_hasBareColon {text : String} (closed : IsClosed text) :
    ¬HasBareColon ("(" ++ text ++ ")") := by
  rcases closed.scan_eq with ⟨opening, closing, opens, closes, tokens⟩
  rintro ⟨token, isOutside, -⟩
  rw [tokens, (closed.balanced.behind "(").outside_brackets opens closes] at isOutside
  cases isOutside

end Text

/-- The expression is a conditional expression, perhaps in parentheses. -/
def Expr.IsConditional (expr : Expr) : Prop :=
  ∃ condition whenTrue whenFalse span,
    expr.unparenthesized = .conditional condition whenTrue whenFalse span

namespace InterpolationPart

variable {values : List Expr} {source : String}

theorem holeExpr_of_isConditional {value : Expr} (isConditional : value.IsConditional) :
    holeExpr value = .inParentheses value.unparenthesized := by
  rcases isConditional with ⟨condition, whenTrue, whenFalse, span, inner⟩
  rw [holeExpr, inner]

theorem holeExpr_of_not_isConditional {value : Expr} (noConditional : ¬value.IsConditional) :
    holeExpr value = value := by
  unfold holeExpr
  split
  · rename_i inner
    exact absurd ⟨_, _, _, _, inner⟩ noConditional
  · rfl

theorem exists_of_mem_mapM {α β : Type} {next : α → Option β} {items : List α} {results : List β}
    (made : items.mapM next = some results) {result : β} (member : result ∈ results) :
    ∃ item ∈ items, next item = some result := by
  induction items generalizing results with
  | nil =>
    cases made
    cases member
  | cons item rest ih =>
    rw [List.mapM_cons] at made
    simp only [bind, pure, Option.bind_eq_some_iff, Option.some.injEq] at made
    rcases made with ⟨first, firstMade, others, othersMade, rfl⟩
    rcases List.mem_cons.mp member with rfl | member
    · exact ⟨item, List.mem_cons_self, firstMade⟩
    · rcases ih othersMade member with ⟨found, isItem, foundMade⟩
      exact ⟨found, List.mem_cons_of_mem _ isItem, foundMade⟩

/-- Every hole holds one of the arguments. -/
theorem exists_of_mem_children {pieces : List FormatPiece} {parts : List InterpolationPart}
    (made : pieces.mapM (ofPiece? values) = some parts) {verbatim : Bool} {span : Option Span}
    {hole : Expr} (member : hole ∈ (Expr.interpolatedString verbatim parts span).children) :
    ∃ value ∈ values, hole = holeExpr value := by
  rcases List.mem_filterMap.mp member with ⟨part, isPart, isHole⟩
  rcases exists_of_mem_mapM made isPart with ⟨piece, -, partMade⟩
  cases piece with
  | text written =>
    cases partMade
    cases isHole
  | item body =>
    simp only [ofPiece?, bind, pure, Option.bind_eq_some_iff, Option.some.injEq] at partMade
    rcases partMade with ⟨item, -, value, valueIs, rfl⟩
    cases isHole
    exact ⟨value, List.mem_of_getElem? valueIs, rfl⟩

theorem render_inParentheses (inner : Expr) :
    (Expr.inParentheses inner).render source = "(" ++ inner.render source ++ ")" := by
  rw [Expr.inParentheses, Expr.render]
  rfl

end InterpolationPart

namespace Expr

/-- A hole has a colon outside of brackets and literals exactly if its argument is no conditional
expression and has one itself: the text of a hole is the text of its argument, around which a
conditional expression gets parentheses. -/
theorem interpolate?_hasBareColon_iff {format : Expr} {values : List Expr} {result : Expr}
    (found : format.interpolate? values = some result) {source : String}
    (closed : ∀ value ∈ values, value.IsConditional →
      Text.IsClosed (value.unparenthesized.render source)) :
    (∃ verbatim parts, result = .interpolatedString verbatim parts none) ∧
      ∀ hole ∈ result.children, ∃ value ∈ values,
        (value.IsConditional →
          hole.render source = "(" ++ value.unparenthesized.render source ++ ")") ∧
        (¬value.IsConditional → hole.render source = value.render source) ∧
        (Text.HasBareColon (hole.render source) ↔
          ¬value.IsConditional ∧ Text.HasBareColon (value.render source)) := by
  rcases exists_isFormat_of_interpolate? found with ⟨verbatim, body, isFormat⟩
  rw [isFormat.interpolate?_eq] at found
  rcases Option.map_eq_some_iff.mp found with ⟨parts, made, rfl⟩
  rcases Option.bind_eq_some_iff.mp made with ⟨pieces, -, partsMade⟩
  refine ⟨⟨verbatim, parts, rfl⟩, fun hole member => ?_⟩
  rcases InterpolationPart.exists_of_mem_children partsMade member with ⟨value, isValue, rfl⟩
  refine ⟨value, isValue, ?_⟩
  by_cases isConditional : value.IsConditional
  · have text_eq : (InterpolationPart.holeExpr value).render source =
        "(" ++ value.unparenthesized.render source ++ ")" := by
      rw [InterpolationPart.holeExpr_of_isConditional isConditional,
        InterpolationPart.render_inParentheses]
    refine ⟨fun _ => text_eq, fun notConditional => absurd isConditional notConditional, ?_⟩
    rw [text_eq]
    exact iff_of_false (closed value isValue isConditional).not_hasBareColon
      fun both => both.1 isConditional
  · rw [InterpolationPart.holeExpr_of_not_isConditional isConditional]
    exact ⟨fun conditional => absurd conditional isConditional, fun _ => rfl,
      (and_iff_right isConditional).symm⟩

/-- A conditional expression gets parentheses, a name behind an alias does not. -/
theorem interpolate?_hasBareColon_alias :
    let source := "flag ? 1 : 2, global::System.String.Empty"
    let choice : Expr := .conditional (identifier "flag") (.literal ⟨.integer, "1"⟩ none)
      (.literal ⟨.integer, "2"⟩ none) (some ⟨0, 12⟩)
    let name : Expr := .other "alias_qualified_name" (some ⟨14, 41⟩)
    let format : Expr := stringLiteral "\"\x7b0\x7d\x7b1\x7d\""
    let result : Expr := .interpolatedString false
      [.hole (.parenthesized choice none) none none, .hole name none none] none
    format.interpolate? [choice, name] = some result ∧
      Text.IsClosed (choice.unparenthesized.render source) ∧
      Text.HasBareColon (name.render source) ∧
      ∀ hole ∈ result.children, ∃ value ∈ [choice, name],
        (value.IsConditional →
          hole.render source = "(" ++ value.unparenthesized.render source ++ ")") ∧
        (¬value.IsConditional → hole.render source = value.render source) ∧
        (Text.HasBareColon (hole.render source) ↔
          ¬value.IsConditional ∧ Text.HasBareColon (value.render source)) := by
  intro source choice name format result
  have isFormat : format.IsFormat false "\x7b0\x7d\x7b1\x7d".toList := .plain rfl rfl
  obtain ⟨split, hasColon, tokens, apart⟩ :
      FormatPiece.split? "\x7b0\x7d\x7b1\x7d".toList =
        some [.item "0".toList, .item "1".toList] ∧
      Text.HasBareColon (name.render source) ∧
      Token.scan (choice.unparenthesized.render source) =
        [⟨.identifier, "flag", ⟨0, 4⟩⟩, ⟨.mark, "?", ⟨5, 6⟩⟩, ⟨.literal .integer, "1", ⟨7, 8⟩⟩,
          ⟨.mark, ":", ⟨9, 10⟩⟩, ⟨.literal .integer, "2", ⟨11, 12⟩⟩] ∧
      ∃ token ∈ Token.scan (choice.unparenthesized.render source ++ ")"), token.kind = .mark ∧
        token.span.start = Text.byteSize (choice.unparenthesized.render source).toList := by
    decide +kernel
  have found : format.interpolate? [choice, name] = some result := by
    rw [isFormat.interpolate?_eq, InterpolationPart.ofFormat?, split]
    rfl
  have closed : Text.IsClosed (choice.unparenthesized.render source) := by
    refine ⟨?_, apart⟩
    rw [tokens]
    exact .other rfl rfl (.other rfl rfl (.other rfl rfl (.other rfl rfl (.other rfl rfl .nil))))
  have noConditional : ¬name.IsConditional := by
    rintro ⟨_, _, _, _, ⟨⟩⟩
  refine ⟨found, closed, hasColon, (interpolate?_hasBareColon_iff found ?_).2⟩
  intro value isValue isConditional
  rcases List.mem_pair.mp isValue with rfl | rfl
  · exact closed
  · exact absurd isConditional noConditional

end Expr

namespace ParsedDocument

/-- A name behind an alias is written into a hole as it is. -/
theorem exists_hole_with_bareColon :
    let source := "F(\"\x7b0\x7d\", global::System.String.Empty);"
    ∃ entry ∈ (ofSource source).tree.invocations, entry.2.hasErrors = false ∧
      ∃ shape ∈ entry.1.asInvocation?, ∃ format ∈ shape.2.arguments[0]?,
        ∃ value ∈ shape.2.arguments[1]?,
          ∃ result ∈ format.expression.interpolate? [value.expression],
            result.render source = "$\"\x7bglobal::System.String.Empty\x7d\"" ∧
            ∃ hole ∈ result.children, Text.HasBareColon (hole.render source) := by
  decide +kernel

end ParsedDocument

end AssertionLint
