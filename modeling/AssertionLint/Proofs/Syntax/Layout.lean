import AssertionLint.Proofs.Grammar.Declarations
import AssertionLint.Proofs.Syntax.Tokens

/-!
# Layout of the concrete syntax

The parts of a node stand one behind the other within the span of the node, which starts and ends
at boundaries of the source and covers at least one character. A document is a list of items that
are laid out (`Node.IsDocument`); what is proved of documents is proved of every such node, wherever
it comes from. What the own grammar builds is one: what a node is built from is a range of tokens,
so a document that is read beside itself corresponds to itself through laid out nodes
(`Grammar.layout`).
-/

namespace AssertionLint

namespace Node

/-- The first node ends where the second one starts or in front of it. -/
def EndsBefore (left right : Node) : Prop :=
  left.span.stop ≤ right.span.start

/-- The node and its parts stand in the source as their spans say, and each form has the parts that
it admits. -/
inductive IsLaidOut (source : String) : Node → Prop
  | intro {node : Node} (fits : node.span.FitsIn source) (covers : node.span.start < node.span.stop)
      (within : ∀ part ∈ node.children, node.span.start ≤ part.span.start ∧
        part.span.stop ≤ node.span.stop)
      (ordered : node.children.Pairwise EndsBefore)
      (admits : node.children ≠ [] → node.form.Admits node.children)
      (inRole : ∀ role, node.role = some role → role.holdsOperand = true → node.IsOperand)
      (written : node.children = [] → node.form.text? = some (node.span.text source))
      (covered : node.children ≠ [] → node.span = cover node.children)
      (parts : ∀ part ∈ node.children, part.IsLaidOut source) : IsLaidOut source node

namespace IsLaidOut

variable {source : String} {node : Node}

theorem fits (laidOut : node.IsLaidOut source) : node.span.FitsIn source := by
  cases laidOut
  assumption

theorem covers (laidOut : node.IsLaidOut source) : node.span.start < node.span.stop := by
  cases laidOut
  assumption

theorem within (laidOut : node.IsLaidOut source) : ∀ part ∈ node.children,
    node.span.start ≤ part.span.start ∧ part.span.stop ≤ node.span.stop := by
  cases laidOut
  assumption

theorem ordered (laidOut : node.IsLaidOut source) :
    node.children.Pairwise EndsBefore := by
  cases laidOut
  assumption

theorem admits (laidOut : node.IsLaidOut source) (some : node.children ≠ []) :
    node.form.Admits node.children := by
  cases laidOut with | intro _ _ _ _ admits => exact admits some

theorem inRole (laidOut : node.IsLaidOut source) {role : Role} (isRole : node.role = some role)
    (holds : role.holdsOperand = true) : node.IsOperand := by
  cases laidOut with | intro _ _ _ _ _ inRole => exact inRole role isRole holds

/-- A leaf stands for the text that it covers. -/
theorem written (laidOut : node.IsLaidOut source) (bare : node.children = []) :
    node.form.text? = some (node.span.text source) := by
  cases laidOut with | intro _ _ _ _ _ _ written => exact written bare

theorem covered (laidOut : node.IsLaidOut source) (some : node.children ≠ []) :
    node.span = cover node.children := by
  cases laidOut with | intro _ _ _ _ _ _ _ covered => exact covered some

theorem parts (laidOut : node.IsLaidOut source) :
    ∀ part ∈ node.children, part.IsLaidOut source := by
  cases laidOut
  assumption

theorem leaf {form : Form} {span : Span} (fits : span.FitsIn source)
    (covers : span.start < span.stop) (written : form.text? = some (span.text source)) :
    (Node.leaf form span).IsLaidOut source :=
  .intro fits covers (by simp) .nil (fun some => absurd rfl some) nofun (fun _ => written)
    (fun some => absurd rfl some) (by simp)

end IsLaidOut

end Node

namespace Grammar

open Correspondence

/-- The tokens stand in the source as their spans say, one behind the other. -/
structure StandIn (tokens : Array Token) (source : String) : Prop where
  stands : ∀ {position : Nat} {token : Token}, tokens[position]? = some token →
    token.StandsIn source.toList
  ordered : ∀ {one two : Nat} {token other : Token}, one < two → tokens[one]? = some token →
    tokens[two]? = some other → token.span.stop ≤ other.span.start

theorem standIn_scan (source : String) : StandIn (Token.scan source).toArray source := by
  constructor
  · intro position token isToken
    rw [List.getElem?_toArray] at isToken
    exact Token.standsIn_of_mem_scan (List.mem_of_getElem? isToken)
  · intro one two token other lt isToken isOther
    rw [List.getElem?_toArray] at isToken isOther
    rcases List.getElem?_eq_some_iff.mp isToken with ⟨inside, rfl⟩
    rcases List.getElem?_eq_some_iff.mp isOther with ⟨inside', rfl⟩
    have ordered := List.pairwise_iff_getElem.mp (Token.pairwise_precedes_scan source)
    exact ordered one two inside inside' lt

section Ranges

variable {source : String} {tokens : Array Token} {start stop : Nat}

theorem coverOf_start_le (stand : StandIn tokens source) {further stop' : Nat}
    (le : start ≤ further) (inside : further < tokens.size) :
    (coverOf tokens start stop).start ≤ (coverOf tokens further stop').start := by
  have one := Array.getElem?_eq_getElem (Nat.lt_of_le_of_lt le inside)
  have two := Array.getElem?_eq_getElem inside
  simp only [coverOf, one, two, Option.map_some, Option.getD_some]
  rcases Nat.eq_or_lt_of_le le with rfl | lt
  · exact Nat.le_refl _
  · have before := stand.ordered lt one two
    have := (stand.stands one).start_lt_stop
    omega

theorem coverOf_stop_le_start (stand : StandIn tokens source) {further stop' : Nat}
    (positive : 0 < stop) (le : stop ≤ further) (inside : further < tokens.size) :
    (coverOf tokens start stop).stop ≤ (coverOf tokens further stop').start := by
  have before : stop - 1 < tokens.size := by omega
  have one := Array.getElem?_eq_getElem before
  have two := Array.getElem?_eq_getElem inside
  simp only [coverOf, one, two, Option.map_some, Option.getD_some]
  exact stand.ordered (by omega) one two

theorem coverOf_start_lt_stop (stand : StandIn tokens source) (lt : start < stop)
    (le : stop ≤ tokens.size) :
    (coverOf tokens start stop).start < (coverOf tokens start stop).stop := by
  have one := Array.getElem?_eq_getElem (Nat.lt_of_lt_of_le lt le)
  have two := Array.getElem?_eq_getElem (show stop - 1 < tokens.size by omega)
  simp only [coverOf, one, two, Option.map_some, Option.getD_some]
  have last := (stand.stands two).start_lt_stop
  rcases Nat.eq_or_lt_of_le (show start ≤ stop - 1 by omega) with same | earlier
  · subst same
    exact last
  · have before := stand.ordered earlier one two
    have := (stand.stands one).start_lt_stop
    omega

theorem coverOf_stop_le (stand : StandIn tokens source) {start' stop' : Nat}
    (positive : 0 < stop) (le : stop ≤ stop') (inside : stop' ≤ tokens.size) :
    (coverOf tokens start stop).stop ≤ (coverOf tokens start' stop').stop := by
  rcases Nat.eq_or_lt_of_le le with rfl | lt
  · exact Nat.le_refl _
  · have before : (coverOf tokens start stop).stop ≤ (coverOf tokens (stop' - 1) stop').start :=
      coverOf_stop_le_start stand positive (by omega) (by omega)
    have := coverOf_start_lt_stop stand (show stop' - 1 < stop' by omega) inside
    simp only [coverOf] at *
    omega

theorem fitsIn_coverOf (stand : StandIn tokens source) (lt : start < stop)
    (le : stop ≤ tokens.size) : (coverOf tokens start stop).FitsIn source := by
  have one := Array.getElem?_eq_getElem (Nat.lt_of_lt_of_le lt le)
  have two := Array.getElem?_eq_getElem (show stop - 1 < tokens.size by omega)
  refine ⟨Nat.le_of_lt (coverOf_start_lt_stop stand lt le), ?_, ?_⟩
  · simpa only [coverOf, one, Option.map_some, Option.getD_some]
      using (stand.stands one).fitsIn.start
  · simpa only [coverOf, two, Option.map_some, Option.getD_some]
      using (stand.stands two).fitsIn.stop

/-- Tokens without a gap between them cover the text that they spell. -/
theorem text_coverOf (stand : StandIn tokens source) {text : String}
    (spelled : Spelled tokens start stop text) :
    (coverOf tokens start stop).text source = text := by
  induction spelled with
  | single isToken => rw [coverOf_of_taken isToken, (stand.stands isToken).text_span]
  | @cons start stop token next text isToken isNext touches rest ih =>
    rcases rest.range with ⟨lt, le⟩
    have stands := stand.stands isToken
    have back_eq : coverOf tokens (start + 1) stop =
        ⟨token.span.stop, (coverOf tokens (start + 1) stop).stop⟩ := by
      simp [coverOf, isNext, touches]
    have whole_eq : coverOf tokens start stop =
        ⟨token.span.start, (coverOf tokens (start + 1) stop).stop⟩ := by
      simp [coverOf, isToken]
    have fits := fitsIn_coverOf stand lt le
    rw [back_eq] at fits ih
    rw [whole_eq, ← Span.text_append stands.fitsIn fits, stands.text_span, ih]

end Ranges

/-- The node is built from the tokens of a range. -/
structure BuiltFrom (source : String) (tokens : Array Token) (start stop : Nat) (node : Node) :
    Prop where
  lt : start < stop
  le : stop ≤ tokens.size
  span_eq : node.span = coverOf tokens start stop
  laidOut : node.IsLaidOut source

/-- A node corresponds to itself if it is built from the tokens of the range. -/
def BuiltBeside (source : String) (tokens : Array Token) (start stop : Nat) (x y : Node) : Prop :=
  y = x ∧ BuiltFrom source tokens start stop x

section Chains

variable {source : String} {tokens : Array Token} {start stop : Nat} {xs ys : List Node}

theorem eq_of_chain (chain : Chain (BuiltBeside source tokens) start stop xs ys) : ys = xs := by
  induction chain with
  | nil => rfl
  | cons first _ ih => rw [first.1, ih]

theorem le_of_chain (chain : Chain (BuiltBeside source tokens) start stop xs ys) :
    start ≤ stop := by
  induction chain with
  | nil => exact Nat.le_refl _
  | cons first _ ih =>
    have := first.2.lt
    omega

theorem builtFrom_of_mem_chain (chain : Chain (BuiltBeside source tokens) start stop xs ys) :
    ∀ x ∈ xs, ∃ one two, start ≤ one ∧ two ≤ stop ∧ BuiltFrom source tokens one two x := by
  induction chain with
  | nil => simp
  | cons first following ih =>
    have le := le_of_chain following
    have lt := first.2.lt
    rw [List.forall_mem_cons]
    refine ⟨⟨_, _, Nat.le_refl _, le, first.2⟩, ?_⟩
    intro x member
    rcases ih x member with ⟨one, two, low, high, built⟩
    exact ⟨one, two, by omega, high, built⟩

theorem pairwise_of_chain (stand : StandIn tokens source)
    (chain : Chain (BuiltBeside source tokens) start stop xs ys) :
    xs.Pairwise Node.EndsBefore := by
  induction chain with
  | nil => exact .nil
  | cons first following ih =>
    rw [List.pairwise_cons]
    refine ⟨?_, ih⟩
    intro x member
    rcases builtFrom_of_mem_chain following x member with ⟨one, two, low, -, built⟩
    unfold Node.EndsBefore
    rw [first.2.span_eq, built.span_eq]
    have := first.2.lt
    have := built.lt
    have := built.le
    exact coverOf_stop_le_start stand (by omega) low (by omega)

theorem cover_of_chain (chain : Chain (BuiltBeside source tokens) start stop xs ys)
    (some : xs ≠ []) :
    start < stop ∧ stop ≤ tokens.size ∧ Node.cover xs = coverOf tokens start stop := by
  induction chain with
  | nil => exact absurd rfl some
  | @cons start middle stop x y xs ys first following ih =>
    have lt := first.2.lt
    have spanIs := first.2.span_eq
    cases following with
    | nil => exact ⟨lt, first.2.le, by simp [Node.cover, spanIs, coverOf]⟩
    | cons second rest =>
      rcases ih (by simp) with ⟨lt', le, covers⟩
      refine ⟨by omega, le, ?_⟩
      have last := congrArg Span.stop covers
      simp only [Node.cover, coverOf, List.getLast?_cons_cons] at last ⊢
      rw [last]
      simp [spanIs, coverOf]

theorem builtFrom_branch (stand : StandIn tokens source) {form : Form}
    (chain : Chain (BuiltBeside source tokens) start stop xs ys) (admits : form.Admits xs) :
    BuiltFrom source tokens start stop (.branch form xs) := by
  rcases cover_of_chain chain admits.nonempty with ⟨lt, le, covers⟩
  refine ⟨lt, le, covers, ?_⟩
  constructor
  · rw [Node.span_branch, covers]
    exact fitsIn_coverOf stand lt le
  · rw [Node.span_branch, covers]
    exact coverOf_start_lt_stop stand lt le
  · intro x member
    rcases builtFrom_of_mem_chain chain x member with ⟨one, two, low, high, built⟩
    rw [Node.span_branch, covers, built.span_eq]
    have := built.lt
    have := built.le
    exact ⟨coverOf_start_le stand low (by omega), coverOf_stop_le stand (by omega) high le⟩
  · exact pairwise_of_chain stand chain
  · exact fun _ => admits
  · exact nofun
  · exact fun none => absurd none admits.nonempty
  · exact fun _ => rfl
  · intro x member
    rcases builtFrom_of_mem_chain chain x member with ⟨one, two, -, -, built⟩
    exact built.laidOut

end Chains

theorem builtFrom_withRole {source : String} {tokens : Array Token} {start stop : Nat}
    {node : Node} (built : BuiltFrom source tokens start stop node) (role : Role)
    (isOperand : role.holdsOperand = true → node.IsOperand) :
    BuiltFrom source tokens start stop (node.withRole role) := by
  rcases built with ⟨lt, le, spanIs, laidOut⟩
  refine ⟨lt, le, by rw [Node.span_withRole, spanIs], ?_⟩
  rcases node with ⟨_, form, span, children⟩
  refine .intro laidOut.fits laidOut.covers laidOut.within laidOut.ordered laidOut.admits ?_
    laidOut.written laidOut.covered laidOut.parts
  intro role' same holds
  cases same
  exact (isOperand holds).withRole role

/-- An operator in front of an operand that starts where the operator ends or further behind. -/
theorem isLaidOut_prefixUnary {source text : String} (operator : Span) {node : Node}
    (fits : operator.FitsIn source) (covers : operator.start < operator.stop)
    (written : operator.text source = text) (behind : operator.stop ≤ node.span.start)
    (laidOut : node.IsLaidOut source) (isOperand : node.IsOperand) :
    (Node.branch .prefixUnary [.leaf (.token text) operator, node]).IsLaidOut source := by
  have covers' := laidOut.covers
  constructor
  · refine ⟨?_, fits.start, laidOut.fits.stop⟩
    simp only [Node.span_branch, Node.cover, List.head?_cons, Option.map_some, Option.getD_some,
      Node.span_leaf, List.getLast?_cons_cons, List.getLast?_singleton]
    omega
  · simp only [Node.span_branch, Node.cover, List.head?_cons, Option.map_some, Option.getD_some,
      Node.span_leaf, List.getLast?_cons_cons, List.getLast?_singleton]
    omega
  · simp only [Node.children_branch, Node.span_branch, Node.cover, List.head?_cons,
      Option.map_some, Option.getD_some, Node.span_leaf, List.getLast?_cons_cons,
      List.getLast?_singleton, List.forall_mem_cons, List.not_mem_nil, false_implies,
      implies_true, and_true]
    omega
  · simpa [Node.EndsBefore] using behind
  · intro _
    refine .of_holdsOperands rfl (by simp) (by simp) (by simp) ?_
    simp only [Node.children_branch, List.forall_mem_cons, List.not_mem_nil, false_implies,
      implies_true, and_true]
    exact ⟨.of_leaf (by simp), isOperand⟩
  · exact nofun
  · exact nofun
  · exact fun _ => rfl
  · simp only [Node.children_branch, List.forall_mem_cons, List.not_mem_nil, false_implies,
      implies_true, and_true]
    exact ⟨.leaf fits covers (by rw [written]; rfl), laidOut⟩

/-- The token `&&` in front of an operand stands for two operators, each of which takes one of its
characters. -/
theorem builtFrom_doubled {source : String} {tokens : Array Token} {start stop : Nat}
    {token : Token} {node : Node} (stand : StandIn tokens source)
    (isToken : tokens[start]? = some token) (is : token.is "&&" = true)
    (built : BuiltFrom source tokens (start + 1) stop node) (isOperand : node.IsOperand) :
    BuiltFrom source tokens start stop
      (.branch .prefixUnary [.leaf (.token "&") ⟨token.span.start, token.span.start + 1⟩,
        .branch .prefixUnary
          [.leaf (.token "&") ⟨token.span.start + 1, token.span.stop⟩, node]]) := by
  have stands := stand.stands isToken
  have text_eq : token.text.toList = ['&', '&'] := by rw [text_of_is is]; rfl
  have stop_eq : token.span.stop = token.span.start + 2 := by
    rw [stands.stop_eq, text_eq]
    rfl
  rcases stands.covered with ⟨before, after, whole, size⟩
  have size' : Text.byteSize (before ++ ['&']) = token.span.start + 1 := by
    rw [Text.byteSize_append, size]
    rfl
  have first : source.toList = before ++ ['&'] ++ '&' :: after := by simp [whole, text_eq]
  have second : source.toList = before ++ ['&'] ++ ['&'] ++ after := by simp [whole, text_eq]
  have middle : Text.IsBoundary source.toList (token.span.start + 1) :=
    ⟨before ++ ['&'], '&' :: after, first, size'⟩
  have behind : token.span.stop ≤ node.span.start := by
    rw [built.span_eq, ← coverOf_of_taken isToken]
    have := built.lt
    have := built.le
    exact coverOf_stop_le_start stand (by omega) (Nat.le_refl _) (by omega)
  have lt := built.lt
  have inner := isLaidOut_prefixUnary ⟨token.span.start + 1, token.span.stop⟩
    ⟨by simp only; omega, middle, stands.fitsIn.stop⟩ (by simp only; omega)
    (Span.text_eq_of_covered second size' stop_eq.symm) behind built.laidOut isOperand
  have outer := isLaidOut_prefixUnary ⟨token.span.start, token.span.start + 1⟩
    ⟨by simp only; omega, stands.fitsIn.start, middle⟩ (by simp only; omega)
    (Span.text_eq_of_covered first size rfl) (by simp [Node.cover]) inner
    (.of_length (by simp) (by simp))
  refine ⟨by omega, built.le, ?_, outer⟩
  simp [Node.cover, built.span_eq, coverOf, isToken]

/-- A document beside itself. -/
def layout {source : String} {tokens : Array Token} (stand : StandIn tokens source) :
    Correspondence tokens tokens where
  Part := BuiltBeside source tokens
  size_eq := rfl
  alike one two := by
    rw [one] at two
    cases two
    exact ⟨rfl, rfl⟩
  touching one one' two two' := by
    rw [one] at two
    rw [one'] at two'
    cases two
    cases two'
    exact Iff.rfl
  leaf spelled text_eq := by
    rcases spelled.range with ⟨lt, le⟩
    refine ⟨rfl, lt, le, rfl, ?_⟩
    apply Node.IsLaidOut.leaf (fitsIn_coverOf stand lt le) (coverOf_start_lt_stop stand lt le)
    rw [text_coverOf stand spelled, text_eq]
  branch chain admits := by
    rw [eq_of_chain chain]
    exact ⟨rfl, builtFrom_branch stand chain admits⟩
  withRole role _ _ _ _ part isOperand := by
    rcases part with ⟨rfl, built⟩
    exact ⟨rfl, builtFrom_withRole built role isOperand⟩
  doubled one two is part isOperand := by
    rw [one] at two
    cases two
    rcases part with ⟨rfl, built⟩
    exact ⟨rfl, builtFrom_doubled stand one is built isOperand⟩
  form_eq part := by rw [part.1]
  isAssignable_eq part := by rw [part.1]

end Grammar

namespace Node

/-- The node is the concrete syntax of the source: a list of items that are laid out one behind the
other within its span. -/
structure IsDocument (node : Node) (source : String) : Prop where
  form_eq : node.form = .declarationList
  laidOut : ∀ item ∈ node.children, item.IsLaidOut source
  ordered : node.children.Pairwise EndsBefore
  within : ∀ item ∈ node.children, node.span.start ≤ item.span.start ∧
    item.span.stop ≤ node.span.stop

/-- What a parser gives for a source: unless there is an error in it, the node is the concrete
syntax of the source. -/
def IsTreeOf (node : Node) (source : String) : Prop :=
  node.hasError = false → node.IsDocument source

/-- The items between the gap at the start of a source and its end. -/
theorem isDocument_ofSource (source : String) : (ofSource source).IsDocument source := by
  have stand := Grammar.standIn_scan source
  rcases (Grammar.layout stand).chain_itemsOf with ⟨stop, chain⟩
  have built := Grammar.builtFrom_of_mem_chain chain
  refine ⟨rfl, ?_, Grammar.pairwise_of_chain stand chain, ?_⟩
  · intro item isItem
    rcases built item isItem with ⟨one, two, -, -, built⟩
    exact built.laidOut
  · intro item isItem
    rcases built item isItem with ⟨first, _, -, -, built⟩
    have inside : first < (Token.scan source).toArray.size :=
      Nat.lt_of_lt_of_le built.lt built.le
    have isToken := Array.getElem?_eq_getElem inside
    have start_eq : item.span.start = (Token.scan source).toArray[first].span.start := by
      rw [built.span_eq, Grammar.coverOf, isToken]
      rfl
    have behindGap := Token.gap_le_of_mem_scan (List.mem_toArray.mp (Array.getElem_mem inside))
    rcases built.laidOut.fits.stop with ⟨before, after, cut, size⟩
    have size_eq := congrArg Text.byteSize cut
    rw [Text.byteSize_append, size] at size_eq
    have whole : (ofSource source).span = ⟨Text.byteSize (source.toList.takeWhile Token.isGap),
        Text.byteSize source.toList⟩ := rfl
    rw [start_eq, whole]
    exact ⟨behindGap, by dsimp only; omega⟩

theorem isTreeOf_ofSource (source : String) : (ofSource source).IsTreeOf source :=
  fun _ => isDocument_ofSource source

end Node

end AssertionLint
