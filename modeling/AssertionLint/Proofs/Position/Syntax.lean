import AssertionLint.Proofs.Grammar.Declarations
import AssertionLint.Proofs.Position.Text
import AssertionLint.Proofs.Syntax.Tokens

/-!
# Concrete syntax behind blanks

Blanks in front of a document belong to the gap in front of its first token. So the document has the
same tokens behind them, at other places, and the grammar, which asks for kinds and texts only,
reads the same nodes: the two documents correspond (`Grammar.moved`).
-/

namespace AssertionLint

namespace Token

/-- The same token once a text stands in front of the source. -/
def behind (front : String) (token : Token) : Token :=
  { token with span := token.span.behind front }

theorem scanFrom_behind (front : String) (modes : List Mode) (offset : Nat) (chars : List Char) :
    scanFrom modes (Text.behind front offset) chars =
      (scanFrom modes offset chars).map (behind front) := by
  fun_induction scanFrom modes offset chars with
  | case1 modes offset => rw [scanFrom, List.map_nil]
  | case2 modes offset c rest found text stop following kind isToken ih =>
    rw [scanFrom]
    simp only [found] at isToken
    simp only [isToken]
    rw [List.map_cons, ← ih]
    simp only [behind, Span.behind, Text.behind_add, stop]
    rfl
  | case3 modes offset c rest found text stop following noToken ih =>
    rw [scanFrom]
    simp only [found] at noToken
    simp only [noToken]
    rw [← ih, Text.behind_add]

variable {front : String}

/-- Blanks in front of a document move its tokens. -/
theorem scan_behind (blank : ∀ c ∈ front.toList, Text.isBlank c = true) (source : String) :
    scan (front ++ source) = (scan source).map (behind front) := by
  have gap : ∀ c ∈ front.toList, isGap c = true := by
    intro c member
    simp [isGap, blank c member]
  unfold scan
  rw [String.toList_append, scanFrom_gap, List.takeWhile_append_of_pos gap,
    List.dropWhile_append_of_pos gap, Text.byteSize_append, scanFrom_gap 0 source.toList,
    ← scanFrom_behind]
  congr 1
  simp only [Text.behind, Nat.zero_add]

end Token

namespace Node

mutual

/-- The same node once a text stands in front of the source. -/
def behind (front : String) : Node → Node
  | mk role form span children => mk role form (span.behind front) (behindAll front children)

/-- The same nodes once a text stands in front of the source. -/
def behindAll (front : String) : List Node → List Node
  | [] => []
  | node :: rest => node.behind front :: behindAll front rest

end

variable (front : String)

theorem behindAll_eq_map (nodes : List Node) :
    behindAll front nodes = nodes.map (behind front) := by
  induction nodes with
  | nil => rfl
  | cons node rest ih => rw [behindAll, ih, List.map_cons]

section

variable (node : Node)

@[simp]
theorem role_behind : (node.behind front).role = node.role := by
  cases node
  rfl

@[simp]
theorem form_behind : (node.behind front).form = node.form := by
  cases node
  rfl

@[simp]
theorem span_behind : (node.behind front).span = node.span.behind front := by
  cases node
  rfl

@[simp]
theorem children_behind : (node.behind front).children = node.children.map (behind front) := by
  cases node
  exact behindAll_eq_map front _

@[simp]
theorem isToken_behind (text : String) : (node.behind front).isToken text = node.isToken text := by
  simp only [isToken, form_behind]

theorem behind_withRole (role : Role) :
    (node.withRole role).behind front = (node.behind front).withRole role := by
  cases node
  rfl

end

/-- What holds of a node once it holds of its parts holds of every node. -/
theorem inductionOnChildren {motive : Node → Prop}
    (step : ∀ node : Node, (∀ child ∈ node.children, motive child) → motive node) (node : Node) :
    motive node :=
  step node fun child _ => inductionOnChildren step child
termination_by sizeOf node
decreasing_by exact sizeOf_lt_of_mem_children ‹_›

theorem any_behind {front : String} {nodes : List Node} {holds : Node → Bool}
    (same : ∀ node ∈ nodes, holds (node.behind front) = holds node) :
    (nodes.map (behind front)).any holds = nodes.any holds := by
  rw [List.any_map, Bool.eq_iff_iff, List.any_eq_true, List.any_eq_true]
  apply exists_congr
  intro node
  apply and_congr_right
  intro member
  rw [Function.comp_apply, same node member]

theorem behind_leaf (form : Form) (span : Span) :
    (leaf form span).behind front = leaf form (span.behind front) := rfl

theorem cover_behind {nodes : List Node} (nonempty : nodes ≠ []) :
    cover (nodes.map (behind front)) = (cover nodes).behind front := by
  have first := List.head?_eq_some_head nonempty
  have last := List.getLast?_eq_some_getLast nonempty
  simp only [cover, List.head?_map, List.getLast?_map, first, last, Option.map_some,
    Option.getD_some, span_behind]
  rfl

theorem behind_branch (form : Form) {nodes : List Node} (nonempty : nodes ≠ []) :
    (branch form nodes).behind front = branch form (nodes.map (behind front)) := by
  rw [branch, behind, behindAll_eq_map, branch, cover_behind front nonempty]

end Node

namespace Grammar

open Correspondence

theorem isAssignable_behind (front : String) (node : Node) :
    isAssignable (node.behind front) = isAssignable node := by
  induction node using Node.inductionOnChildren with
  | step node ih =>
    unfold isAssignable
    simp only [Node.form_behind, Node.children_behind, List.any_subtype, List.unattach_attach]
    split
    · rfl
    · rfl
    · rfl
    · rfl
    · exact Node.any_behind ih
    · rw [List.head?_map, Option.any_map]
      congr 1
      funext child
      exact Node.isToken_behind front child "*"
    · rfl
    · rfl

variable {front : String} {tokens : Array Token}

theorem coverOf_behind {start stop : Nat} (lt : start < stop) (le : stop ≤ tokens.size) :
    coverOf (tokens.map (Token.behind front)) start stop =
      (coverOf tokens start stop).behind front := by
  have first := Array.getElem?_eq_getElem (Nat.lt_of_lt_of_le lt le)
  have last := Array.getElem?_eq_getElem (show stop - 1 < tokens.size by omega)
  simp only [coverOf, Array.getElem?_map, first, last, Option.map_some, Option.getD_some]
  rfl

theorem eq_map_of_chain {start stop : Nat} {xs ys : List Node}
    (chain : Chain (fun _ _ x y => y = x.behind front) start stop xs ys) :
    ys = xs.map (Node.behind front) := by
  induction chain with
  | nil => rfl
  | cons first _ ih => rw [first, ih, List.map_cons]

/-- Tokens beside the same tokens behind a text. -/
def moved (front : String) (tokens : Array Token) :
    Correspondence tokens (tokens.map (Token.behind front)) where
  Part _ _ x y := y = x.behind front
  size_eq := Array.size_map
  alike one two := by
    rw [Array.getElem?_map, one] at two
    cases two
    exact ⟨rfl, rfl⟩
  touching one one' two two' := by
    rw [Array.getElem?_map, one] at two
    rw [Array.getElem?_map, one'] at two'
    cases two
    cases two'
    exact Text.behind_inj
  leaf spelled _ := by
    rw [coverOf_behind spelled.range.1 spelled.range.2, Node.behind_leaf]
  branch chain admits := by rw [eq_map_of_chain chain, Node.behind_branch front _ admits.nonempty]
  withRole role _ _ _ _ part _ := by rw [part, Node.behind_withRole]
  doubled one two _ part _ := by
    rw [Array.getElem?_map, one] at two
    cases two
    rw [part, Node.behind_branch front _ (by simp), List.map_cons, List.map_singleton,
      Node.behind_branch front _ (by simp), List.map_cons, List.map_singleton]
    rfl
  form_eq part := by rw [part, Node.form_behind]
  isAssignable_eq part := by
    rw [part, isAssignable_behind]

theorem itemsOf_behind (front : String) (tokens : Array Token) :
    itemsOf (tokens.map (Token.behind front)) = (itemsOf tokens).map (Node.behind front) := by
  rcases (moved front tokens).chain_itemsOf with ⟨stop, chain⟩
  exact eq_map_of_chain chain

end Grammar

namespace Node

/-- Blanks in front of a document move its concrete syntax. -/
theorem ofSource_behind {front : String} (blank : ∀ c ∈ front.toList, Text.isBlank c = true)
    (source : String) : ofSource (front ++ source) = (ofSource source).behind front := by
  have gap : ∀ c ∈ front.toList, Token.isGap c = true := by
    intro c member
    simp [Token.isGap, blank c member]
  unfold ofSource
  rw [Token.scan_behind blank, ← List.map_toArray, Grammar.itemsOf_behind, String.toList_append,
    List.takeWhile_append_of_pos gap, behind, behindAll_eq_map]
  simp only [Text.byteSize_append]
  rfl

end Node

end AssertionLint
