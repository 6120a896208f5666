import AssertionLint.Proofs.Grammar.Correspondence

/-!
# Taking tokens side by side

The readers that look at tokens without a rule of the grammar behind them: marks and names, what
lies ahead, brackets whose inside is skipped, and marks that are joined. All of them ask for the
kind and the text of a token only, so they do the same on both documents.
-/

namespace AssertionLint

namespace Grammar

namespace Correspondence

open Reader

variable {left right : Array Token} {C : Correspondence left right} {α β : Type} {position : Nat}

section Tokens

/-- The kind and the text of a token decide. -/
def IsBlind (accept : Token → Bool) : Prop :=
  ∀ (kind : TokenKind) (text : String) (span span' : Span),
    accept ⟨kind, text, span'⟩ = accept ⟨kind, text, span⟩

/-- The same token of both documents, or none on both sides. -/
inductive Peeked : Option Token → Option Token → Prop
  | none : Peeked none none
  | some (kind : TokenKind) (text : String) (span span' : Span) :
      Peeked (some ⟨kind, text, span⟩) (some ⟨kind, text, span'⟩)

/-- The token at a position of both documents. -/
structure Taken (left right : Array Token) (start stop : Nat) (token other : Token) : Prop where
  left_eq : left[start]? = some token
  right_eq : right[start]? = some other
  stop_eq : stop = start + 1

theorem Peeked.any_eq {token other : Option Token} (peeked : Peeked token other)
    {accept : Token → Bool} (blind : IsBlind accept) : other.any accept = token.any accept := by
  cases peeked with
  | none => rfl
  | some kind text span span' => exact blind kind text span span'

/-- The tokens at a position are taken together, or both documents end in front of it. -/
theorem taken_or_end (C : Correspondence left right) (start : Nat) :
    (left[start]? = none ∧ right[start]? = none) ∨
      ∃ token other, Taken left right start (start + 1) token other := by
  by_cases inside : start < left.size
  · have inside' : start < right.size := by
      rw [C.size_eq]
      exact inside
    exact .inr ⟨left[start], right[start], Array.getElem?_eq_getElem inside,
      Array.getElem?_eq_getElem inside', rfl⟩
  · rw [Array.getElem?_eq_none_iff, Array.getElem?_eq_none_iff, C.size_eq]
    omega

theorem Taken.text_eq (C : Correspondence left right) {start stop : Nat} {token other : Token}
    (taken : Taken left right start stop token other) : other.text = token.text :=
  (C.alike taken.left_eq taken.right_eq).2

theorem Taken.kind_eq (C : Correspondence left right) {start stop : Nat} {token other : Token}
    (taken : Taken left right start stop token other) : other.kind = token.kind :=
  (C.alike taken.left_eq taken.right_eq).1

theorem peeked (C : Correspondence left right) (position : Nat) :
    Peeked left[position]? right[position]? := by
  rcases C.taken_or_end position with ⟨one, two⟩ | ⟨token, other, taken⟩
  · rw [one, two]
    exact .none
  · have sameKind := taken.kind_eq C
    have sameText := taken.text_eq C
    rw [taken.left_eq, taken.right_eq]
    rcases token with ⟨kind, text, span⟩
    rcases other with ⟨kind', text', span'⟩
    subst sameKind sameText
    exact .some kind' text' span span'

theorem At.peek {W : Nat → β → β → Prop} (ahead : Nat) {next next' : Option Token → Reader β}
    (then_ : ∀ token other, Peeked token other → C.At position W (next token) (next' other)) :
    C.At position W (peek? ahead >>= next) (peek? ahead >>= next') := by
  have here : C.At position (fun stop x y => stop = position ∧ Peeked x y) (peek? ahead)
      (peek? ahead) :=
    .inr ⟨_, _, position, rfl, rfl, rfl, C.peeked (position + ahead)⟩
  apply here.bind
  rintro stop token other ⟨rfl, peeked⟩
  exact then_ token other peeked

theorem looks_any (C : Correspondence left right) (ahead : Nat) {accept : Token → Bool}
    (blind : IsBlind accept) :
    C.Looks (return (← peek? ahead).any accept) (return (← peek? ahead).any accept) := by
  intro start
  apply At.peek
  intro token other peeked
  exact .pure ⟨rfl, peeked.any_eq blind⟩

theorem isBlind_isOneOf (texts : List String) : IsBlind (·.isOneOf texts) :=
  fun _ _ _ _ => rfl

theorem looks_seesAt (C : Correspondence left right) (ahead : Nat) (texts : List String) :
    C.Looks (seesAt ahead texts) (seesAt ahead texts) :=
  C.looks_any ahead (isBlind_isOneOf texts)

theorem looks_sees (C : Correspondence left right) (text : String) :
    C.Looks (sees text) (sees text) :=
  C.looks_seesAt 0 [text]

theorem looks_seesOneOf (C : Correspondence left right) (texts : List String) :
    C.Looks (seesOneOf texts) (seesOneOf texts) :=
  C.looks_seesAt 0 texts

theorem looks_seesNameAt (C : Correspondence left right) (ahead : Nat) :
    C.Looks (seesNameAt ahead) (seesNameAt ahead) :=
  C.looks_any ahead fun _ _ _ _ => rfl

theorem looks_seesTypeAt (C : Correspondence left right) (ahead : Nat) :
    C.Looks (seesTypeAt ahead) (seesTypeAt ahead) :=
  C.looks_any ahead fun _ _ _ _ => rfl

theorem Reads.holds {V : Nat → Nat → α → α → Prop} {reader other : Reader α}
    (reads : C.Reads V reader other) : C.Looks (holds reader) (holds other) := by
  intro start
  refine .inr ⟨_, _, start, rfl, rfl, rfl, ?_⟩
  rcases reads start with ⟨one, two⟩ | ⟨x, y, stop, one, two, -⟩ <;> rw [one, two]
  rfl

theorem bracketLength_go_eq (C : Correspondence left right) (start rest here depth : Nat) :
    bracketLength.go right start rest here depth =
      bracketLength.go left start rest here depth := by
  induction rest generalizing here depth with
  | zero => rfl
  | succ rest ih =>
    unfold bracketLength.go
    have peeked := C.peeked here
    generalize left[here]? = token at peeked
    generalize right[here]? = other at peeked
    cases peeked with
    | none => rfl
    | some kind text span span' =>
      simp only [ih]
      rfl

theorem bracketLength_eq (C : Correspondence left right) (start : Nat) :
    bracketLength right start = bracketLength left start := by
  unfold bracketLength
  rw [C.size_eq]
  exact C.bracketLength_go_eq start _ _ _

theorem brokenLength_go_eq (C : Correspondence left right) (start rest here : Nat) :
    brokenLength.go right start rest here = brokenLength.go left start rest here := by
  induction rest generalizing here with
  | zero => rfl
  | succ rest ih =>
    unfold brokenLength.go
    have peeked := C.peeked here
    generalize left[here]? = token at peeked
    generalize right[here]? = other at peeked
    cases peeked with
    | none => rfl
    | some kind text span span' =>
      simp only [ih, C.bracketLength_eq]
      rfl

theorem brokenLength_eq (C : Correspondence left right) (start : Nat) :
    brokenLength right start = brokenLength left start := by
  unfold brokenLength
  rw [C.size_eq]
  exact C.brokenLength_go_eq start _ _

theorem bracketLength_go_bound {tokens : Array Token} {start rest here depth length : Nat}
    (found : bracketLength.go tokens start rest here depth = some length) (behind : start ≤ here) :
    here < start + length ∧ start + length ≤ tokens.size := by
  induction rest generalizing here depth with
  | zero => cases found
  | succ rest ih =>
    unfold bracketLength.go at found
    split at found
    · cases found
    · rename_i token isToken
      have inside := (Array.getElem?_eq_some_iff.mp isToken).1
      split at found
      · have := ih found (by omega)
        omega
      · split at found
        · split at found
          · cases found
          · split at found
            · cases found
              omega
            · have := ih found (by omega)
              omega
        · split at found
          · cases found
          · have := ih found (by omega)
            omega

theorem bracketLength_bound {tokens : Array Token} {start length : Nat}
    (found : bracketLength tokens start = some length) :
    0 < length ∧ start + length ≤ tokens.size := by
  have := bracketLength_go_bound found (Nat.le_refl _)
  omega

theorem brokenLength_go_bound {tokens : Array Token} {start rest here : Nat}
    (behind : start ≤ here) (inside : here ≤ tokens.size) :
    start + brokenLength.go tokens start rest here ≤ tokens.size := by
  induction rest generalizing here with
  | zero =>
    unfold brokenLength.go
    omega
  | succ rest ih =>
    unfold brokenLength.go
    split
    · omega
    · rename_i token isToken
      have := (Array.getElem?_eq_some_iff.mp isToken).1
      split
      · omega
      · split
        · omega
        · split
          · rename_i length found
            split at found
            · have := bracketLength_bound found
              split
              · omega
              · exact ih (by omega) (by omega)
            · cases found
          · exact ih (by omega) (by omega)

theorem brokenLength_bound {tokens : Array Token} {start : Nat} (inside : start ≤ tokens.size) :
    start + brokenLength tokens start ≤ tokens.size :=
  brokenLength_go_bound (Nat.le_refl _) inside

theorem brokenLength_eq_zero {tokens : Array Token} {start : Nat} (outside : tokens.size ≤ start) :
    brokenLength tokens start = 0 := by
  unfold brokenLength
  rw [Nat.sub_eq_zero_of_le outside]
  simp [brokenLength.go]

end Tokens

section Parts

variable {start stop : Nat} {x y : Node} {xs ys : List Node} {form : Form} {text : String}

/-- Nodes that may stand where an expression is looked for. -/
structure Operand (C : Correspondence left right) (start stop : Nat) (x y : Node) : Prop where
  part : C.Part start stop x y
  isOperand : x.IsOperand

/-- The keyword or mark of the given text. -/
structure Mark (C : Correspondence left right) (text : String) (start stop : Nat) (x y : Node) :
    Prop extends C.Operand start stop x y where
  isMark : x.form = .token text
  isBare : x.children = []
  role_eq : x.role = none

/-- Lists of arguments in parentheses. -/
structure Listed (C : Correspondence left right) (start stop : Nat) (x y : Node) :
    Prop extends C.Operand start stop x y where
  isList : x.form = .argumentList

/-- Nodes that can be a type. -/
structure TypePart (C : Correspondence left right) (start stop : Nat) (x y : Node) :
    Prop extends C.Operand start stop x y where
  isType : x.form.isType = true

/-- Nodes that can be a part of a type. -/
structure InnerPart (C : Correspondence left right) (start stop : Nat) (x y : Node) : Prop where
  part : C.Part start stop x y
  untyped : x.form ≠ .token "="

/-- Nodes in front of the collection of a loop. -/
structure HeadPart (C : Correspondence left right) (start stop : Nat) (x y : Node) : Prop where
  part : C.Part start stop x y
  isHead : x.IsLoopHead

/-- Parts that are not all missing. -/
structure Parts (C : Correspondence left right) (start stop : Nat) (xs ys : List Node) : Prop where
  chain : Chain C.Part start stop xs ys
  nonempty : xs ≠ []

theorem Parts.length_pos (parts : C.Parts start stop xs ys) : 0 < xs.length :=
  List.length_pos_iff.mpr parts.nonempty

theorem Mark.inner (mark : C.Mark text start stop x y) (other : text ≠ "=") :
    C.InnerPart start stop x y := by
  refine ⟨mark.part, ?_⟩
  rw [mark.isMark]
  simpa using other

theorem Mark.head (mark : C.Mark text start stop x y) : C.HeadPart start stop x y := by
  refine ⟨mark.part, ?_⟩
  simp [Node.IsLoopHead, mark.role_eq]

theorem TypePart.inner (type : C.TypePart start stop x y) : C.InnerPart start stop x y := by
  refine ⟨type.part, ?_⟩
  intro same
  have isType := type.isType
  rw [same] at isType
  cases isType

theorem Operand.withRole (operand : C.Operand start stop x y) (role : Role) :
    C.Operand start stop (x.withRole role) (y.withRole role) :=
  ⟨C.withRole role operand.part fun _ => operand.isOperand, operand.isOperand.withRole role⟩

/-- A part without a role. -/
theorem Operand.headOfRole (operand : C.Operand start stop x y) (noRole : x.role = none) :
    C.HeadPart start stop x y := by
  refine ⟨operand.part, ?_⟩
  simp [Node.IsLoopHead, noRole]

/-- A part in the role of a type or of a variable. -/
theorem Operand.head (operand : C.Operand start stop x y) (role : Role)
    (isHead : role ≠ .right ∧ role ≠ .body) :
    C.HeadPart start stop (x.withRole role) (y.withRole role) := by
  refine ⟨(operand.withRole role).part, ?_⟩
  simpa [Node.IsLoopHead] using isHead

theorem TypePart.withRole (type : C.TypePart start stop x y) (role : Role) :
    C.TypePart start stop (x.withRole role) (y.withRole role) := by
  refine ⟨type.toOperand.withRole role, ?_⟩
  rw [Node.form_withRole]
  exact type.isType

/-- A node whose parts are not looked at one by one. -/
theorem part_of_isFree (C : Correspondence left right) (free : form.isFree = true)
    (nonempty : xs ≠ []) (chain : Chain C.Part start stop xs ys) :
    C.Part start stop (.branch form xs) (.branch form ys) :=
  C.branch chain (.of_isFree free nonempty)

theorem Parts.group (parts : C.Parts start stop xs ys) :
    C.Part start stop (.branch .group xs) (.branch .group ys) :=
  C.part_of_isFree rfl parts.nonempty parts.chain

theorem operand_of_isPlain (C : Correspondence left right) (plain : form.isPlain = true)
    (more : 2 ≤ xs.length) (chain : Chain C.Part start stop xs ys) :
    C.Operand start stop (.branch form xs) (.branch form ys) :=
  ⟨C.branch chain (.of_isPlain plain more), .of_length (Form.notAccessor_of_isPlain plain) more⟩

/-- A node whose only part is a mark. -/
theorem Mark.alone (mark : C.Mark text start stop x y) (plain : form.isPlain = true)
    (other : form ≠ .lambda) : C.Operand start stop (.branch form [x]) (.branch form [y]) := by
  have isOperand : (Node.branch form [x]).IsOperand := by
    refine ⟨?_, Form.notAccessor_of_isPlain plain⟩
    intro only same
    cases same
    exact ⟨mark.isBare, by rw [mark.isMark]; rfl, other⟩
  exact ⟨C.branch (.single mark.part) (.of_isOperand plain (by simp) isOperand), isOperand⟩

/-- A node whose parts are looked up as expressions. -/
theorem operand_of_operands (C : Correspondence left right) (holds : form.holdsOperands = true)
    (simple : form ≠ .argument ∧ form ≠ .invocation) (more : 2 ≤ xs.length)
    (chain : Chain C.Operand start stop xs ys) :
    C.Operand start stop (.branch form xs) (.branch form ys) :=
  ⟨C.branch (chain.mono (·.part))
      (.of_holdsOperands holds simple (List.ne_nil_of_length_pos (by omega)) (fun _ => more)
        (chain.forall_mem (·.isOperand))),
    .of_length (Form.notAccessor_of_holdsOperands holds) more⟩

/-- A call of an operand. -/
theorem operand_of_call (C : Correspondence left right) {middle : Nat} {target target' : Node}
    (called : C.Operand start middle target target') (arguments : C.Listed middle stop x y) :
    C.Operand start stop (.branch .invocation [target, x]) (.branch .invocation [target', y]) :=
  ⟨C.branch (.cons called.part (.single arguments.part))
      (.of_invocation called.isOperand arguments.isOperand arguments.isList),
    .of_length (by simp) (by simp)⟩

/-- A loop over a collection. -/
theorem operand_of_loop (C : Correspondence left right) {one two three : Nat}
    {collection collection' closing closing' body body' : Node}
    (front : Chain C.HeadPart start one xs ys) (value : C.Operand one two collection collection')
    (closes : C.Mark ")" two three closing closing') (runs : C.Operand three stop body body') :
    C.Operand start stop
      (.branch .foreachStatement
        (xs ++ [collection.withRole .right, closing, body.withRole .body]))
      (.branch .foreachStatement
        (ys ++ [collection'.withRole .right, closing', body'.withRole .body])) := by
  have chain : Chain C.Part start stop
      (xs ++ [collection.withRole .right, closing, body.withRole .body])
      (ys ++ [collection'.withRole .right, closing', body'.withRole .body]) :=
    (front.mono (·.part)).append (.cons (value.withRole .right).part
      (.cons closes.part (.single (runs.withRole .body).part)))
  refine ⟨C.branch chain (.of_foreachStatement ?_), .of_length (by simp) (by simp)⟩
  exact .intro (front.forall_mem (·.isHead)) Node.role_withRole closes.role_eq Node.role_withRole

/-- A block, or an expression behind an arrow. -/
theorem operand_of_opened (C : Correspondence left right) {middle : Nat}
    (opened : form = .block ∨ form = .arrowClause) (mark : C.Mark text start middle x y)
    (nonempty : xs ≠ []) (chain : Chain C.Part middle stop xs ys) :
    C.Operand start stop (.branch form (x :: xs)) (.branch form (y :: ys)) := by
  refine ⟨C.branch (chain.cons mark.part) (.of_opened opened ?_), .of_length ?_ ?_⟩
  · exact ⟨x, xs, rfl, mark.isBare, by rw [mark.isMark]; rfl⟩
  · rcases opened with rfl | rfl <;> simp
  · exact Nat.succ_le_succ (List.length_pos_iff.mpr nonempty)

/-- A body behind what stands in front of it in a lambda. -/
theorem operand_of_lambda (C : Correspondence left right) {middle : Nat} (nonempty : xs ≠ [])
    (front : Chain C.HeadPart start middle xs ys) (body : C.Operand middle stop x y) :
    C.Operand start stop (.branch .lambda (xs ++ [x])) (.branch .lambda (ys ++ [y])) := by
  have more : 2 ≤ (xs ++ [x]).length := by
    rw [List.length_append]
    exact Nat.succ_le_succ (List.length_pos_iff.mpr nonempty)
  refine ⟨C.branch ((front.mono (·.part)).append (.single body.part)) (.of_lambda more ?_),
    .of_length (by simp) more⟩
  exact ⟨xs, x, rfl, nonempty, fun part isPart => (front.forall_mem (·.isHead) part isPart).2⟩

/-- A variable with its value. -/
theorem declarator_of_operands (C : Correspondence left right) (nonempty : xs ≠ [])
    (chain : Chain C.Operand start stop xs ys) :
    C.Part start stop (.branch .declarator xs) (.branch .declarator ys) :=
  C.branch (chain.mono (·.part))
    (.of_holdsOperands rfl (by simp) nonempty nofun (chain.forall_mem (·.isOperand)))

theorem type_of_inner (C : Correspondence left right) (isType : form.isType = true)
    (more : 2 ≤ xs.length) (chain : Chain C.InnerPart start stop xs ys) :
    C.TypePart start stop (.branch form xs) (.branch form ys) :=
  ⟨⟨C.branch (chain.mono (·.part)) (.of_isType isType more (chain.forall_mem (·.untyped))),
    .of_length (Form.notAccessor_of_isType isType) more⟩, isType⟩

end Parts

section Leaves

theorem coverOf_of_taken {tokens : Array Token} {start : Nat} {token : Token}
    (taken : tokens[start]? = some token) : coverOf tokens start (start + 1) = token.span := by
  simp [coverOf, taken]

/-- A leaf over one token. -/
theorem Taken.operand (C : Correspondence left right) {start stop : Nat} {token other : Token}
    (taken : Taken left right start stop token other) {form : Form}
    (text_eq : form.text? = some token.text) :
    C.Operand start stop (.leaf form token.span) (.leaf form other.span) := by
  rcases taken with ⟨one, two, rfl⟩
  have notAccessor : form ≠ .accessorList ∧ form ≠ .accessor := by
    constructor <;> rintro rfl <;> cases text_eq
  rw [← coverOf_of_taken one, ← coverOf_of_taken two]
  exact ⟨C.leaf (.single one) text_eq, .of_leaf notAccessor⟩

theorem Taken.mark (C : Correspondence left right) {start stop : Nat} {token other : Token}
    (taken : Taken left right start stop token other) :
    C.Mark token.text start stop (.ofToken token) (.ofToken other) := by
  refine ⟨?_, rfl, rfl, rfl⟩
  unfold Node.ofToken
  rw [taken.text_eq C]
  exact taken.operand C rfl

theorem reads_take (C : Correspondence left right) {accept : Token → Bool}
    (blind : IsBlind accept) :
    C.Reads
      (fun start stop token other =>
        Taken left right start stop token other ∧ accept token = true)
      (take accept) (take accept) := by
  intro start
  rcases C.taken_or_end start with ⟨one, two⟩ | ⟨token, other, taken⟩
  · exact .inl ⟨by simp [take, one], by simp [take, two]⟩
  · have same : accept other = accept token := by
      have peeked := C.peeked start
      rw [taken.left_eq, taken.right_eq] at peeked
      cases peeked with | some kind text span span' => exact blind kind text span span'
    cases accepted : accept token with
    | false =>
      rw [accepted] at same
      exact .inl ⟨by simp [take, taken.left_eq, accepted], by simp [take, taken.right_eq, same]⟩
    | true =>
      rw [accepted] at same
      exact .inr ⟨token, other, start + 1, by simp [take, taken.left_eq, accepted],
        by simp [take, taken.right_eq, same], taken, accepted⟩

theorem text_of_is {token : Token} {text : String} (is : token.is text = true) :
    token.text = text := by
  unfold Token.is at is
  split at is <;> simp_all

theorem reads_mark (C : Correspondence left right) (text : String) :
    C.Reads (C.Mark text) (mark text) (mark text) := by
  intro start
  refine (C.reads_take fun _ _ _ _ => rfl).bind fun stop token other taken => ?_
  rw [← text_of_is taken.2]
  exact .pure (taken.1.mark C)

theorem reads_markOneOf (C : Correspondence left right) (texts : List String) :
    C.Reads C.Operand (markOneOf texts) (markOneOf texts) := by
  intro start
  refine (C.reads_take (isBlind_isOneOf texts)).bind fun stop token other taken => ?_
  exact .pure (taken.1.mark C).toOperand

theorem reads_directive (C : Correspondence left right) (names : List String) :
    C.Reads C.Operand (directive names) (directive names) := by
  intro start
  refine (C.reads_take fun _ _ _ _ => rfl).bind fun stop token other taken => ?_
  exact .pure (taken.1.mark C).toOperand

theorem reads_name (C : Correspondence left right) : C.Reads C.TypePart name name := by
  intro start
  refine (C.reads_take fun _ _ _ _ => rfl).bind fun stop token other taken => ?_
  rw [taken.1.text_eq C]
  exact .pure ⟨taken.1.operand C rfl, rfl⟩

theorem reads_lineEnd (C : Correspondence left right) :
    C.Reads (Chain C.Part) lineEnd lineEnd := by
  intro start
  rcases C.taken_or_end start with ⟨one, two⟩ | ⟨token, other, taken⟩
  · exact .inr ⟨[], [], start, by simp [lineEnd, one], by simp [lineEnd, two], .nil⟩
  · have same := taken.kind_eq C
    by_cases ends : token.kind = .lineEnd
    · rw [ends] at same
      exact .inr ⟨[.ofToken token], [.ofToken other], start + 1,
        by simp [lineEnd, taken.left_eq, ends], by simp [lineEnd, taken.right_eq, same],
        .single (taken.mark C).part⟩
    · have ends' : other.kind ≠ .lineEnd := by
        rw [same]
        exact ends
      exact .inl ⟨by simp [lineEnd, taken.left_eq, ends], by simp [lineEnd, taken.right_eq, ends']⟩

theorem toList_toSubarray {tokens : Array Token} {start length : Nat}
    (inside : start + length ≤ tokens.size) :
    (tokens.toSubarray start (start + length)).toArray.toList =
      (tokens.toList.drop start).take length := by
  have array_eq : (tokens.toSubarray start (start + length)).array = tokens := by
    simp [Array.toSubarray, inside, Subarray.array]
  have start_eq : (tokens.toSubarray start (start + length)).start = start := by
    simp [Array.toSubarray, inside, Subarray.start]
  have stop_eq : (tokens.toSubarray start (start + length)).stop = start + length := by
    simp [Array.toSubarray, inside, Subarray.stop]
  rw [Subarray.toList_toArray, Subarray.toList_eq_drop_take, array_eq, start_eq, stop_eq,
    List.drop_take, Nat.add_sub_cancel_left]

/-- The tokens of a range as marks. -/
theorem chain_ofToken (C : Correspondence left right) {start length : Nat}
    (inside : start + length ≤ left.size) :
    Chain C.Part start (start + length)
      (((left.toList.drop start).take length).map .ofToken)
      (((right.toList.drop start).take length).map .ofToken) := by
  induction length generalizing start with
  | zero =>
    simp only [List.take_zero, List.map_nil, Nat.add_zero]
    exact .nil
  | succ length ih =>
    rcases C.taken_or_end start with ⟨one, -⟩ | ⟨token, other, taken⟩
    · rw [Array.getElem?_eq_none_iff] at one
      omega
    · have left_eq := List.drop_eq_getElem?_toList_append (l := left.toList) (i := start)
      have right_eq := List.drop_eq_getElem?_toList_append (l := right.toList) (i := start)
      rw [Array.getElem?_toList, taken.left_eq] at left_eq
      rw [Array.getElem?_toList, taken.right_eq] at right_eq
      rw [left_eq, right_eq]
      simp only [Option.toList_some, List.singleton_append, List.take_succ_cons, List.map_cons]
      have rest := @ih (start + 1) (by omega)
      rw [show start + 1 + length = start + (length + 1) by omega] at rest
      exact .cons (taken.mark C).part rest

theorem isOperand_of_ofToken {form : Form} {tokens : List Token} (free : form.isFree = true)
    (notAccessor : form ≠ .accessorList ∧ form ≠ .accessor) :
    (Node.branch form (tokens.map .ofToken)).IsOperand := by
  refine ⟨?_, notAccessor⟩
  intro only same
  have isMark : only ∈ tokens.map Node.ofToken := by
    rw [Node.children_branch] at same
    simp [same]
  rcases List.mem_map.mp isMark with ⟨token, -, rfl⟩
  refine ⟨rfl, rfl, ?_⟩
  rintro rfl
  cases free

/-- A range of tokens that fits no other rule. -/
theorem operand_ofToken (C : Correspondence left right) (form : Form) {start length : Nat}
    (free : form.isFree = true) (notAccessor : form ≠ .accessorList ∧ form ≠ .accessor)
    (positive : 0 < length) (inside : start + length ≤ left.size) :
    C.Operand start (start + length)
      (.branch form ((left.toSubarray start (start + length)).toArray.toList.map .ofToken))
      (.branch form ((right.toSubarray start (start + length)).toArray.toList.map .ofToken)) := by
  have inside' : start + length ≤ right.size := by
    rw [C.size_eq]
    exact inside
  rw [toList_toSubarray inside, toList_toSubarray inside']
  refine ⟨C.branch (C.chain_ofToken inside) (.of_isFree free ?_),
    isOperand_of_ofToken free notAccessor⟩
  intro none
  have length_eq := congrArg List.length none
  simp only [List.length_map, List.length_take, List.length_drop, Array.length_toList,
    List.length_nil] at length_eq
  omega

theorem reads_bracketed (C : Correspondence left right) {form : Form} (free : form.isFree = true)
    (notAccessor : form ≠ .accessorList ∧ form ≠ .accessor) :
    C.Reads C.Operand (bracketed form) (bracketed form) := by
  intro start
  have same := C.bracketLength_eq start
  cases found : bracketLength left start with
  | none =>
    rw [found] at same
    exact .inl ⟨by simp [bracketed, found], by simp [bracketed, same]⟩
  | some length =>
    rw [found] at same
    rcases bracketLength_bound found with ⟨positive, inside⟩
    exact .inr ⟨_, _, _, by simp [bracketed, found], by simp [bracketed, same],
      C.operand_ofToken form free notAccessor positive inside⟩

theorem reads_broken (C : Correspondence left right) : C.Reads C.Operand broken broken := by
  intro start
  have same := C.brokenLength_eq start
  by_cases zero : brokenLength left start = 0
  · rw [zero] at same
    exact .inl ⟨by simp [broken, zero], by simp [broken, same]⟩
  · have within : start ≤ left.size := by
      apply Nat.le_of_not_le
      intro outside
      exact zero (brokenLength_eq_zero outside)
    have parts := C.operand_ofToken .error rfl (by simp) (Nat.pos_of_ne_zero zero)
      (brokenLength_bound within)
    refine .inr ⟨_, _, _, ?_, ?_, parts⟩
    · simp only [broken, if_neg zero]
    · simp only [broken, same, if_neg zero]

theorem At.behindBrackets {W : Nat → β → β → Prop} {next next' : Option Token → Reader β}
    (then_ : ∀ token other, Peeked token other → C.At position W (next token) (next' other)) :
    C.At position W (behindBrackets? >>= next) (behindBrackets? >>= next') := by
  have here : C.At position (fun stop x y => stop = position ∧ Peeked x y) behindBrackets?
      behindBrackets? := by
    refine .inr ⟨_, _, position, rfl, rfl, rfl, ?_⟩
    rw [C.bracketLength_eq]
    cases bracketLength left position with
    | none => exact .none
    | some length => exact C.peeked (position + length)
  apply here.bind
  rintro stop token other ⟨rfl, peeked⟩
  exact then_ token other peeked

/-- Items with marks between them are a chain of whatever both are. -/
theorem Reads.separated {W : Nat → Nat → Node → Node → Prop} {separator : String}
    {item item' : Reader Node} (reads : C.Reads W item item')
    (marks : ∀ {start stop : Nat} {x y : Node}, C.Mark separator start stop x y →
      W start stop x y) :
    C.Reads (Chain W) (separated separator item) (separated separator item') := by
  intro start
  refine reads.bind fun _ _ _ first => ?_
  refine (Reads.many (V := Chain W) fun position => ?_).bind fun _ _ _ following => ?_
  · refine (C.reads_mark separator).bind fun _ _ _ between => ?_
    refine reads.bind fun _ _ _ next => ?_
    exact .pure (.cons (marks between) (.single next))
  · exact .pure (.cons first following.flatten)

theorem reads_trailing (C : Correspondence left right) (separator : String) :
    C.Reads (Chain C.Operand) (trailing separator) (trailing separator) := by
  intro start
  refine (C.reads_mark separator).maybe.bind fun _ _ _ possible => ?_
  exact .pure (possible.toList.mono (·.toOperand))

theorem reads_mapM_take (C : Correspondence left right) (texts : List String) :
    C.Reads (fun start stop tokens others =>
        Chain (Taken left right) start stop tokens others ∧ tokens.map (·.text) = texts)
      (texts.mapM fun text => take (·.is text)) (texts.mapM fun text => take (·.is text)) := by
  induction texts with
  | nil => exact fun _ => .pure ⟨.nil, rfl⟩
  | cons text texts ih =>
    intro start
    simp only [List.mapM_cons]
    refine (C.reads_take fun _ _ _ _ => rfl).bind fun _ _ _ taken => ?_
    refine ih.bind fun _ _ _ rest => ?_
    exact .pure ⟨.cons taken.1 rest.1, by rw [List.map_cons, text_of_is taken.2, rest.2]⟩

theorem touching_of_chain (C : Correspondence left right) {start stop : Nat}
    {tokens others : List Token} (chain : Chain (Taken left right) start stop tokens others) :
    ((others.zip (others.drop 1)).all fun (one, two) => one.span.stop == two.span.start) =
      ((tokens.zip (tokens.drop 1)).all fun (one, two) => one.span.stop == two.span.start) := by
  induction chain with
  | nil => rfl
  | cons first following ih =>
    cases following with
    | nil => rfl
    | cons second rest =>
      have stop_eq := first.stop_eq
      subst stop_eq
      have here := C.touching first.left_eq second.left_eq first.right_eq second.right_eq
      simp only [List.drop_succ_cons, List.drop_zero, List.zip_cons_cons, List.all_cons] at ih ⊢
      rw [ih]
      congr 1
      rw [Bool.eq_iff_iff, beq_iff_eq, beq_iff_eq]
      exact here

theorem bounds_of_chain {start stop : Nat} {tokens others : List Token}
    (chain : Chain (Taken left right) start stop tokens others) (nonempty : tokens ≠ []) :
    left[start]? = tokens.head? ∧ left[stop - 1]? = tokens.getLast? ∧
      right[start]? = others.head? ∧ right[stop - 1]? = others.getLast? := by
  induction chain with
  | nil => exact absurd rfl nonempty
  | @cons start middle stop token other tokens others first following ih =>
    have stop_eq := first.stop_eq
    subst stop_eq
    cases following with
    | nil => simp [first.left_eq, first.right_eq]
    | cons second rest =>
      rcases ih (by simp) with ⟨-, last, -, last'⟩
      refine ⟨first.left_eq, ?_, first.right_eq, ?_⟩
      · simpa using last
      · simpa using last'

/-- Tokens without a gap between them spell the texts of all of them. -/
theorem spelled_of_chain {start stop : Nat} {tokens others : List Token}
    (chain : Chain (Taken left right) start stop tokens others) (nonempty : tokens ≠ [])
    (touches : (tokens.zip (tokens.drop 1)).all (fun (one, two) => one.span.stop == two.span.start)
      = true) :
    Spelled left start stop (String.join (tokens.map (·.text))) := by
  induction chain with
  | nil => exact absurd rfl nonempty
  | @cons start middle stop token other tokens others first following ih =>
    have stop_eq := first.stop_eq
    subst stop_eq
    cases following with
    | nil =>
      rw [List.map_singleton, String.join_cons, String.join_nil, String.append_empty]
      exact .single first.left_eq
    | cons second rest =>
      simp only [List.drop_succ_cons, List.drop_zero, List.zip_cons_cons, List.all_cons,
        Bool.and_eq_true, beq_iff_eq] at touches
      rw [List.map_cons, String.join_cons]
      exact .cons first.left_eq second.left_eq touches.1 (ih (by simp) touches.2)

theorem reads_joined (C : Correspondence left right) {texts : List String} (nonempty : texts ≠ []) :
    C.Reads C.Operand (joined texts) (joined texts) := by
  intro start
  refine (C.reads_mapM_take texts).bind fun stop tokens others read => ?_
  rcases read with ⟨chain, texts_eq⟩
  refine .check (C.touching_of_chain chain) fun touches => ?_
  have some : tokens ≠ [] := by
    rintro rfl
    exact nonempty texts_eq.symm
  have spelled := spelled_of_chain chain some touches
  rw [texts_eq] at spelled
  rcases bounds_of_chain chain some with ⟨first, last, first', last'⟩
  rw [← first, ← last, ← first', ← last']
  exact .pure ⟨C.leaf spelled rfl, .of_leaf (by simp)⟩

end Leaves


end Correspondence

end Grammar

end AssertionLint
