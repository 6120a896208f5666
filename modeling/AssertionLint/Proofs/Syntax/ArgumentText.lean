import Mathlib.Algebra.GroupWithZero.Nat
import Mathlib.Algebra.Order.BigOperators.Group.List
import Mathlib.Algebra.Order.Group.Nat
import Mathlib.Data.List.Perm.Basic
import AssertionLint.CSharp.Expr.Render
import AssertionLint.Proofs.Syntax.Nesting

/-!
# The text of argument lists

An argument list is converted argument by argument, each with the text up to the marks around it as
trivia, so that nothing of the list is lost but the marks. The list cuts its text at the commas
(`Node.exists_texts_of_isLaidOut`), and what is written out again are the pieces of the arguments
that have a value. A keyword is no value: an argument that is nothing but `this` or `base` behind
its label is dropped together with its trivia and a comma. So the text of a list comes back exactly
if each of its arguments has a value (`ParsedDocument.writtenText_eq_iff`).
-/

namespace AssertionLint

/-- The source text of an argument between the trivia around it. -/
def Argument.writtenText (source : String) (argument : Argument) : String :=
  argument.leading ++ ((argument.span.map (·.text source)).getD "") ++ argument.trailing

/-- The arguments with the trivia around them, separated by commas, in parentheses. -/
def ArgumentList.writtenText (source : String) (list : ArgumentList) : String :=
  "(" ++ ",".intercalate (list.arguments.map (·.writtenText source)) ++ ")"

/-- The expression passes the arguments of a list. -/
inductive Expr.HasArguments : Expr → ArgumentList → Prop
  | invocation (target : Expr) (list : ArgumentList) (span : Option Span) :
      HasArguments (.invocation target list span) list
  | objectCreation (type : TypeExpr) (list : ArgumentList) (span : Option Span) :
      HasArguments (.objectCreation type (some list) span) list

theorem Argument.render_eq_writtenText {source : String} {argument : Argument} {span : Span}
    (span_eq : argument.span = some span) (fits : span.FitsIn source) :
    argument.render source = argument.writtenText source := by
  cases argument
  cases span_eq
  simp [render, writtenText, copyOr, fits.textWithin?_eq]

theorem Argument.append_renderFollowing (source : String) (first : Argument)
    (rest : List Argument) :
    first.render source ++ Argument.renderFollowing source rest =
      ",".intercalate ((first :: rest).map (·.render source)) := by
  induction rest generalizing first with
  | nil => simp [renderFollowing]
  | cons second rest ih =>
    rw [renderFollowing, String.append_assoc, ih]
    simp only [List.map_cons, String.intercalate_cons_cons, String.append_assoc]

/-- A list without a span of its own is written argument by argument. -/
theorem ArgumentList.render_mk_none (source : String) (arguments : List Argument) :
    (ArgumentList.mk arguments none).render source =
      "(" ++ ",".intercalate (arguments.map (·.render source)) ++ ")" := by
  cases arguments with
  | nil => rfl
  | cons first rest =>
    rw [← Argument.append_renderFollowing]
    rfl

/-- The length of texts with a comma behind each of them. -/
def lengthWithCommas (texts : List String) : Nat := (texts.map fun text => text.length + 1).sum

/-- The last comma is not written. -/
theorem length_intercalate_comma (texts : List String) :
    (",".intercalate texts).length = lengthWithCommas texts - 1 := by
  induction texts with
  | nil => rfl
  | cons text texts ih =>
    cases texts with
    | nil => simp [lengthWithCommas]
    | cons next texts =>
      rw [String.intercalate_cons_cons, String.length_append, String.length_append, ih]
      simp only [lengthWithCommas, List.map_cons, List.sum_cons, show ",".length = 1 from rfl]
      omega

/-- Without one of its texts a list is shorter. -/
theorem length_intercalate_filter_lt {α : Type} {kept : α → Bool} {text : α → String}
    {items : List α} {item : α} (member : item ∈ items) (dropped : kept item = false)
    (nonempty : text item ≠ "") :
    (",".intercalate ((items.filter kept).map text)).length <
      (",".intercalate (items.map text)).length := by
  have split : lengthWithCommas (items.map text) =
      lengthWithCommas ((items.filter kept).map text) +
        lengthWithCommas ((items.filter fun x => !kept x).map text) := by
    unfold lengthWithCommas
    rw [← List.sum_append, ← List.map_append, ← List.map_append]
    exact (((List.filter_append_perm kept items).symm.map text).map _).sum_eq
  have isLost : item ∈ items.filter fun x => !kept x := by
    rw [List.mem_filter]
    exact ⟨member, by simp [dropped]⟩
  have lost : (text item).length + 1 ≤
      lengthWithCommas ((items.filter fun x => !kept x).map text) :=
    List.single_le_sum (fun _ _ => Nat.zero_le _) _
      (List.mem_map_of_mem (List.mem_map_of_mem isLost))
  have positive : (text item).length ≠ 0 := by
    rwa [ne_eq, String.length_eq_zero_iff]
  rw [length_intercalate_comma, length_intercalate_comma]
  omega

namespace Node

variable {source : String} {list child next : Node} {start : Nat}

/-- The arguments that a list is written with. -/
def writtenArguments (list : Node) : List Node := list.children.filter (·.form == .argument)

/-- The arguments of a list that have a value, as they are converted. -/
def toArguments (source : String) (views : List ArgumentView) : List Argument :=
  views.map fun view => toArgument source view (view.value.toExpr source)

/-- The expression of the argument is `this` or `base` and nothing else. -/
def IsBareInstance (argument : Node) : Prop :=
  ∃ keyword, argument.children.getLast? = some keyword ∧
    (keyword.form = .token "this" ∨ keyword.form = .token "base")

/-- A node without children is a word, so an argument and a list have some. -/
theorem children_ne_nil (laidOut : child.IsLaidOut source) (noText : child.form.text? = none) :
    child.children ≠ [] := by
  intro bare
  rw [laidOut.written bare] at noText
  cases noText

/-- Of all arguments only a bare `this` or `base` has no value. -/
theorem isSome_argumentValue?_iff (laidOut : child.IsLaidOut source)
    (isArgument : child.form = .argument) :
    child.argumentValue?.isSome = true ↔ ¬child.IsBareInstance := by
  have branches := children_ne_nil laidOut (by rw [isArgument]; rfl)
  rcases (laidOut.admits branches).valued isArgument with ⟨front, value, same, isValue, beside⟩
  have noFront : (front.filter fun part => part.form.isNamed && part.role != some .name) = [] := by
    rw [List.filter_eq_nil_iff]
    intro part member
    rcases beside part member with unnamed | named
    · simp [unnamed]
    · simp [named]
  rw [argumentValue?, IsBareInstance, same, List.filter_append, noFront, List.nil_append,
    List.getLast?_concat]
  cases named : value.form.isNamed with
  | true =>
    have noKeyword (text : String) : value.form ≠ .token text := by
      intro same
      simp [same, Form.isNamed] at named
    simp [named, isValue.role_eq, noKeyword]
  | false =>
    have keyword := isValue.keyword named
    simp [named, keyword]

theorem IsMark.text_span {text : String} (isMark : child.IsMark text)
    (laidOut : child.IsLaidOut source) : child.span.text source = text := by
  have written := laidOut.written isMark.bare
  rw [isMark.form_eq] at written
  exact (Option.some.inj written).symm

theorem arguments_go_mark {following : List Node} (noArgument : child.form ≠ .argument) :
    arguments.go start (child :: following) = arguments.go child.span.stop following := by
  simp [arguments.go, noArgument]

theorem arguments_go_argument {following : List Node}
    (isArgument : child.form = .argument) :
    arguments.go start (child :: next :: following) =
      (child.argumentValue?.map fun value =>
        ArgumentView.mk child value start (some next.span.start)).toList ++
        arguments.go start (next :: following) := by
  rw [arguments.go, isArgument]
  cases child.argumentValue? <;> rfl

theorem arguments_eq_nil (none : list.writtenArguments = []) : list.arguments = [] := by
  rw [List.eq_nil_iff_forall_not_mem]
  intro view member
  have isWritten : view.node ∈ list.writtenArguments :=
    List.mem_filter.mpr ⟨(mem_arguments_go member).1, by simp [form_of_mem_arguments_go member]⟩
  rw [none] at isWritten
  cases isWritten

/-- The trivia of an argument reaches from mark to mark. -/
theorem writtenText_toArgument {value : Node} (expression : Expr)
    (front : (Span.mk start child.span.start).FitsIn source) (fits : child.span.FitsIn source)
    (back : (Span.mk child.span.stop next.span.start).FitsIn source) :
    (toArgument source ⟨child, value, start, some next.span.start⟩ expression).writtenText source =
      (Span.mk start next.span.start).text source :=
  Span.text_around front fits back

/-- Arguments with the texts between the marks around them: the texts make up the whole, and those
of the arguments that have a value are the texts of the converted arguments. -/
structure AreTexts (source : String) (items : List Node) (converted : List Argument)
    (whole : String) (texts : List (Node × String)) : Prop where
  nodes : texts.map (·.1) = items.filter (·.form == .argument)
  nonempty : ∀ text ∈ texts, text.2 ≠ ""
  whole_eq : whole = ",".intercalate (texts.map (·.2))
  converted_eq : converted.map (·.writtenText source) =
    (texts.filter (·.1.argumentValue?.isSome)).map (·.2)

namespace AreTexts

variable {items items' : List Node} {converted converted' : List Argument}
  {whole whole' : String} {texts texts' : List (Node × String)}

/-- One argument up to the mark behind it. -/
theorem single (isArgument : child.form = .argument) (covers : child.span.start < child.span.stop)
    (front : (Span.mk start child.span.start).FitsIn source) (fits : child.span.FitsIn source)
    (back : (Span.mk child.span.stop next.span.start).FitsIn source) :
    AreTexts source [child]
      (toArguments source
        (child.argumentValue?.map fun value =>
          ArgumentView.mk child value start (some next.span.start)).toList)
      ((Span.mk start next.span.start).text source)
      [(child, (Span.mk start next.span.start).text source)] := by
  have wide : start < next.span.start :=
    Nat.lt_of_le_of_lt front.ordered (Nat.lt_of_lt_of_le covers back.ordered)
  refine ⟨by simp [isArgument], ?_, by simp, ?_⟩
  · simp only [List.mem_singleton, forall_eq]
    exact (front.around fits back).text_ne_empty wide
  · cases value_eq : child.argumentValue? with
    | none => simp [toArguments, value_eq]
    | some value => simp [toArguments, value_eq, writtenText_toArgument _ front fits back]

/-- Arguments in front of a comma and behind it. -/
theorem append (first : AreTexts source items converted whole texts)
    (second : AreTexts source items' converted' whole' texts') (some : texts ≠ [])
    (some' : texts' ≠ []) (noArgument : next.form ≠ .argument) :
    AreTexts source (items ++ next :: items') (converted ++ converted') (whole ++ "," ++ whole')
      (texts ++ texts') := by
  refine ⟨?_, ?_, ?_, ?_⟩
  · simp [first.nodes, second.nodes, noArgument]
  · intro text member
    rcases List.mem_append.mp member with member | member
    · exact first.nonempty text member
    · exact second.nonempty text member
  · rw [first.whole_eq, second.whole_eq, List.map_append,
      String.intercalate_append_of_ne_nil (by simpa using some) (by simpa using some')]
  · rw [List.map_append, first.converted_eq, second.converted_eq, List.filter_append,
      List.map_append]

end AreTexts

theorem exists_texts {items : List Node} {closing : Node} (areArguments : AreArguments items)
    (noArgument : closing.form ≠ .argument)
    (laidOut : ∀ part ∈ items ++ [closing], part.IsLaidOut source)
    (ordered : (items ++ [closing]).Pairwise EndsBefore)
    (boundary : Text.IsBoundary source.toList start)
    (le : ∀ part ∈ items, start ≤ part.span.start) :
    ∃ texts, texts ≠ [] ∧
      AreTexts source items (toArguments source (arguments.go start (items ++ [closing])))
        ((Span.mk start closing.span.start).text source) texts := by
  -- `start` is where the trivia of the first argument begins: behind the mark in front of it
  induction areArguments generalizing start with
  | @single argument isArgument =>
    have isLaidOut := laidOut argument (by simp)
    have front : (Span.mk start argument.span.start).FitsIn source :=
      ⟨le argument (by simp), boundary, isLaidOut.fits.start⟩
    have back : (Span.mk argument.span.stop closing.span.start).FitsIn source :=
      ⟨(List.pairwise_cons.mp ordered).1 closing (by simp), isLaidOut.fits.stop,
        (laidOut closing (by simp)).fits.start⟩
    have only := AreTexts.single isArgument isLaidOut.covers front isLaidOut.fits back
    rw [List.singleton_append, arguments_go_argument isArgument, arguments_go_mark noArgument,
      arguments.go, List.append_nil]
    exact ⟨_, List.cons_ne_nil _ _, only⟩
  | @cons argument comma following isArgument isComma rest ih =>
    have isLaidOut := laidOut argument (by simp)
    have commaLaidOut := laidOut comma (by simp)
    rw [List.cons_append, List.cons_append, List.pairwise_cons, List.pairwise_cons] at ordered
    rcases ordered with ⟨behindArgument, behindComma, ordered⟩
    have front : (Span.mk start argument.span.start).FitsIn source :=
      ⟨le argument (by simp), boundary, isLaidOut.fits.start⟩
    have between : (Span.mk argument.span.stop comma.span.start).FitsIn source :=
      ⟨behindArgument comma (by simp), isLaidOut.fits.stop, commaLaidOut.fits.start⟩
    have back : (Span.mk comma.span.stop closing.span.start).FitsIn source :=
      ⟨behindComma closing (by simp), commaLaidOut.fits.stop,
        (laidOut closing (by simp)).fits.start⟩
    rcases ih (fun part member => laidOut part (by simp_all)) ordered commaLaidOut.fits.stop
      (fun part member => behindComma part (by simp [member])) with ⟨texts, some, areTexts⟩
    have noComma : comma.form ≠ .argument := by simp [isComma.form_eq]
    have whole := Span.text_around (front.around isLaidOut.fits between) commaLaidOut.fits back
    rw [isComma.text_span commaLaidOut] at whole
    have first := AreTexts.single isArgument isLaidOut.covers front isLaidOut.fits between
    have both := first.append areTexts (by simp) some noComma
    rw [List.cons_append, List.cons_append, arguments_go_argument isArgument,
      arguments_go_mark noComma, toArguments, List.map_append, ← whole]
    exact ⟨_, List.cons_ne_nil _ _, both⟩

/-- A list that is written with arguments is cut into their texts. -/
theorem exists_texts_of_isLaidOut (laidOut : list.IsLaidOut source)
    (isList : list.form = .argumentList) (some : list.writtenArguments ≠ []) :
    ∃ texts whole, AreTexts source list.children (toArguments source list.arguments) whole texts ∧
      list.span.text source = "(" ++ whole ++ ")" := by
  have branches := children_ne_nil laidOut (by rw [isList]; rfl)
  have enclosed := (laidOut.admits branches).enclosed isList
  have parts := laidOut.parts
  have ordered := laidOut.ordered
  have covered := laidOut.covered branches
  rw [arguments, covered]
  unfold writtenArguments at some
  generalize list.children = children at enclosed parts ordered some
  cases enclosed with
  | @intro opening closing items opens areArguments closes =>
    have noOpening : opening.form ≠ .argument := by simp [opens.form_eq]
    have noClosing : closing.form ≠ .argument := by simp [closes.form_eq]
    have openingLaidOut := parts opening (by simp)
    have closingLaidOut := parts closing (by simp)
    have nonempty : items ≠ [] := by
      rintro rfl
      simp [noOpening, noClosing] at some
    rw [List.cons_append, List.pairwise_cons] at ordered
    rcases exists_texts (areArguments nonempty) noClosing
      (fun part member => parts part (List.mem_cons_of_mem _ member)) ordered.2
      openingLaidOut.fits.stop
      (fun part member => ordered.1 part (List.mem_append_left _ member))
      with ⟨texts, -, areTexts⟩
    have inner : (Span.mk opening.span.stop closing.span.start).FitsIn source :=
      ⟨ordered.1 closing (by simp), openingLaidOut.fits.stop, closingLaidOut.fits.start⟩
    have whole : opening.span.text source ++
        (Span.mk opening.span.stop closing.span.start).text source ++ closing.span.text source =
        (Span.mk opening.span.start closing.span.stop).text source :=
      @Span.text_around source opening.span.start closing.span.stop
        ⟨opening.span.stop, closing.span.start⟩ openingLaidOut.fits inner closingLaidOut.fits
    have cover_eq : cover (opening :: items ++ [closing]) =
        ⟨opening.span.start, closing.span.stop⟩ := by
      rw [cover, List.getLast?_concat]
      rfl
    refine ⟨texts, _, ⟨?_, areTexts.nonempty, areTexts.whole_eq, ?_⟩, ?_⟩
    · simpa [noOpening, noClosing] using areTexts.nodes
    · rw [List.cons_append, arguments_go_mark noOpening]
      exact areTexts.converted_eq
    · rw [cover_eq, ← whole, opens.text_span openingLaidOut, closes.text_span closingLaidOut]

/-- The text of a list comes back from its arguments exactly if each of them has a value. -/
theorem writtenText_toArguments_eq_iff (laidOut : list.IsLaidOut source)
    (isList : list.form = .argumentList) (some : list.writtenArguments ≠ []) :
    (ArgumentList.mk (toArguments source list.arguments) list.span).writtenText source =
      list.span.text source ↔
      ∀ argument ∈ list.writtenArguments, ¬argument.IsBareInstance := by
  rcases exists_texts_of_isLaidOut laidOut isList some with ⟨texts, whole, areTexts, text_eq⟩
  have values : (∀ argument ∈ list.writtenArguments, ¬argument.IsBareInstance) ↔
      ∀ argument ∈ list.writtenArguments, argument.argumentValue?.isSome = true := by
    apply forall₂_congr
    intro argument member
    rcases List.mem_filter.mp member with ⟨isChild, isArgument⟩
    rw [isSome_argumentValue?_iff (laidOut.parts argument isChild) (by simpa using isArgument)]
  have nodes : texts.map (·.1) = list.writtenArguments := areTexts.nodes
  rw [ArgumentList.writtenText, areTexts.converted_eq, text_eq, areTexts.whole_eq, values, ← nodes,
    List.forall_mem_map]
  constructor
  · intro same text member
    by_contra noValue
    have shorter : (",".intercalate ((texts.filter (·.1.argumentValue?.isSome)).map (·.2))).length <
        (",".intercalate (texts.map (·.2))).length :=
      length_intercalate_filter_lt member (Bool.eq_false_iff.mpr noValue)
        (areTexts.nonempty text member)
    have lengths := congrArg String.length same
    simp only [String.length_append] at lengths
    omega
  · intro all
    rw [List.filter_eq_self.mpr all]

theorem render_toArguments (laidOut : list.IsLaidOut source) (span : Option Span) :
    (ArgumentList.mk (toArguments source list.arguments) none).render source =
      (ArgumentList.mk (toArguments source list.arguments) span).writtenText source := by
  rw [ArgumentList.render_mk_none, ArgumentList.writtenText]
  congr 3
  simp only [toArguments, List.map_map]
  apply List.map_congr_left
  intro view member
  exact Argument.render_eq_writtenText rfl
    (laidOut.parts view.node (mem_arguments_go member).1).fits

/-- The list of a converted expression is the conversion of a list among the parts of the node. -/
theorem exists_list_of_hasArguments {arguments : ArgumentList} (laidOut : child.IsLaidOut source)
    (has : (child.toExpr source).HasArguments arguments) :
    ∃ list ∈ child.children, list.form = .argumentList ∧
      arguments = ⟨toArguments source list.arguments, list.span⟩ := by
  rw [toExpr] at has
  split at has
  case h_4 target list view_eq =>
    cases hasView_of_view_eq view_eq with
    | invocation form_eq children_eq =>
      rcases (laidOut.admits (by simp [children_eq])).called form_eq with
        ⟨target', list', same, isList⟩
      rw [children_eq] at same ⊢
      cases same
      cases has
      exact ⟨list, by simp, isList, by simp [toArguments]⟩
  case h_12 type list view_eq =>
    have found := childOfForm?_of_view view_eq
    cases list with
    | none => cases has
    | some list =>
      cases has
      refine ⟨list, childOfForm?_mem found.symm, ?_, by simp [toArguments]⟩
      simpa using List.find?_some found.symm
  all_goals cases has

end Node

namespace ParsedDocument

variable {source : String} {node : Node} {expr : Expr}

/-- The arguments that an expression of a document without errors passes are those of a list in its
concrete syntax. If there are any, they give back the text of the list, byte for byte, exactly if
none of them is a bare `this` or `base`: a keyword is no named part of an argument, so such an
argument is lost with the trivia around it. Written without its own span the list has the same
text. -/
theorem writtenText_eq_iff (isTree : node.IsTreeOf source) (noErrors : node.hasError = false)
    {arguments : ArgumentList} (member : expr ∈ (ofNode source node).tree.expressions)
    (has : expr.HasArguments arguments) :
    ∃ list, node.HasPart list ∧ list.form = .argumentList ∧
      arguments = ⟨Node.toArguments source list.arguments, list.span⟩ ∧
      (ArgumentList.mk arguments.arguments none).render source = arguments.writtenText source ∧
      (list.writtenArguments ≠ [] →
        (arguments.writtenText source = list.span.text source ↔
          ∀ argument ∈ list.writtenArguments, ¬argument.IsBareInstance)) := by
  have isDocument := isTree noErrors
  rcases exists_hasPart_of_mem_expressions isDocument member with ⟨part, isPart, rfl⟩
  rcases Node.exists_list_of_hasArguments (isDocument.isLaidOut isPart) has with
    ⟨list, isChild, isList, rfl⟩
  have isInside := isPart.deeper isChild
  have laidOut := isDocument.isLaidOut isInside
  exact ⟨list, isInside, isList, rfl, Node.render_toArguments laidOut _,
    Node.writtenText_toArguments_eq_iff laidOut isList⟩

/-- The texts of the lists of the outermost calls, by their arguments and by their spans. -/
def callTexts (source : String) : List (String × String) :=
  ((Node.ofSource source).rootsIn source (.declaration none (Node.ofSource source).span)).filterMap
    fun root => root.expression.asInvocation?.map fun call =>
      (call.2.writtenText source, (call.2.span.map (·.text source)).getD "")

theorem exists_of_mem_callTexts {texts : String × String} (found : texts ∈ callTexts source) :
    ∃ expr ∈ (ofSource source).tree.expressions, ∃ arguments, expr.HasArguments arguments ∧
      arguments.writtenText source = texts.1 ∧
      (arguments.span.map (·.text source)).getD "" = texts.2 := by
  rcases List.mem_filterMap.mp found with ⟨root, isRoot, isCall⟩
  have member : root.expression ∈ (ofSource source).tree.expressions :=
    SyntaxTree.mem_expressions.mpr
      ⟨root, List.mem_mergeSort.mpr isRoot, Expr.mem_walk_self root.expression⟩
  generalize root.expression = expr at isCall member
  cases expr with
  | invocation target arguments span =>
    cases isCall
    exact ⟨_, member, arguments, .invocation target arguments span, rfl, rfl⟩
  | _ => cases isCall

theorem callTexts_bareInstance :
    let source := "class F \x7b void M() \x7b Use(this, 1); Use( a /* one */, b ); \x7d \x7d"
    (Node.ofSource source).hasError = false ∧
      ("( 1)", "(this, 1)") ∈ callTexts source ∧
      ("( a /* one */, b )", "( a /* one */, b )") ∈ callTexts source := by
  decide +kernel

/-- In the first call the argument `this` is lost with the comma behind it, while the second one
keeps its blanks and its comment. -/
theorem writtenText_of_bareInstance :
    let source := "class F \x7b void M() \x7b Use(this, 1); Use( a /* one */, b ); \x7d \x7d"
    (Node.ofSource source).hasError = false ∧
    (∃ list, (Node.ofSource source).HasPart list ∧ list.span.text source = "(this, 1)" ∧
      ∃ argument ∈ list.writtenArguments, argument.IsBareInstance) ∧
    ∃ list, (Node.ofSource source).HasPart list ∧ list.span.text source = "( a /* one */, b )" ∧
      ∀ argument ∈ list.writtenArguments, ¬argument.IsBareInstance := by
  intro source
  rcases callTexts_bareInstance with ⟨noErrors, isLost, isKept⟩
  have isTree := Node.isTreeOf_ofSource source
  have nonempty {list : Node} {span : Option Span} {text : String} (other : text ≠ "()")
      (written : (ArgumentList.mk (Node.toArguments source list.arguments) span).writtenText source
        = text) : list.writtenArguments ≠ [] := by
    intro none
    rw [Node.arguments_eq_nil none] at written
    exact other written.symm
  refine ⟨noErrors, ?_, ?_⟩
  · rcases exists_of_mem_callTexts isLost with ⟨expr, member, arguments, has, written, covered⟩
    rcases writtenText_eq_iff isTree noErrors member has with ⟨list, isPart, -, rfl, -, lossless⟩
    have spanText : list.span.text source = "(this, 1)" := covered
    refine ⟨list, isPart, spanText, ?_⟩
    by_contra noBare
    simp only [not_exists, not_and] at noBare
    have same := (lossless (nonempty (by simp) written)).mpr noBare
    rw [written, spanText] at same
    simp at same
  · rcases exists_of_mem_callTexts isKept with ⟨expr, member, arguments, has, written, covered⟩
    rcases writtenText_eq_iff isTree noErrors member has with ⟨list, isPart, -, rfl, -, lossless⟩
    have spanText : list.span.text source = "( a /* one */, b )" := covered
    refine ⟨list, isPart, spanText, (lossless (nonempty (by simp) written)).mp ?_⟩
    rw [written, spanText]

/-- A call in a source without errors passes `(this, 1)`, and its arguments give `( 1)`. -/
theorem exists_call_without_argument :
    ∃ source, (Node.ofSource source).hasError = false ∧
      ∃ expr ∈ (ofSource source).tree.expressions, ∃ arguments span,
        expr.HasArguments arguments ∧ arguments.arguments ≠ [] ∧
        arguments.span = some span ∧ span.text source = "(this, 1)" ∧
        arguments.writtenText source = "( 1)" := by
  rcases callTexts_bareInstance with ⟨noErrors, isLost, -⟩
  rcases exists_of_mem_callTexts isLost with ⟨expr, member, ⟨arguments, span⟩, has, written, text⟩
  refine ⟨_, noErrors, expr, member, ⟨arguments, span⟩, ?_⟩
  have nonempty : arguments ≠ [] := by
    rintro rfl
    simp [ArgumentList.writtenText] at written
  cases span with
  | none => simp at text
  | some span => exact ⟨span, has, nonempty, rfl, text, written⟩

end ParsedDocument

end AssertionLint
