import AssertionLint.Proofs.Position.Outline
import AssertionLint.Proofs.Syntax.Declared
import AssertionLint.Proofs.Syntax.Nesting

/-!
# Documents behind a text

What a document declares and the expressions found in it are the same at other places once its
concrete syntax is moved behind a text (`ParsedDocument.ofNode_behind`).
-/

namespace AssertionLint

variable (front : String)

namespace Node

variable (source : String) (node : Node)

@[simp]
theorem declaredType_behind (fallback : String) :
    (node.behind front).declaredType (front ++ source) fallback =
      (node.declaredType source fallback).behind front := by
  simp only [declaredType, child?_behind]
  cases node.child? .type with
  | none => rfl
  | some type => exact toType_behind front source type

theorem toMethod?_behind (owner : TypeDecl) :
    (node.behind front).toMethod? (front ++ source) (owner.behind front) =
      (node.toMethod? source owner).map (MethodDecl.behind front) := by
  simp only [toMethod?, form_behind]
  split
  · simp [Function.comp_def, MethodDecl.behind]
  · simp [MethodDecl.behind, TypeExpr.behind]
  · simp [Function.comp_def, MethodDecl.behind]
  · rfl

theorem toProperty?_behind (owner : TypeDecl) :
    (node.behind front).toProperty? (front ++ source) (owner.behind front) =
      (node.toProperty? source owner).map (PropertyDecl.behind front) := by
  simp only [toProperty?, form_behind, declaredName?_behind, child?_behind]
  split
  · cases node.declaredName? with
    | none => rfl
    | some name => cases node.child? .type <;> simp [PropertyDecl.behind]
  · rfl

theorem toFields_behind (owner : TypeDecl) :
    (node.behind front).toFields (front ++ source) (owner.behind front) =
      (node.toFields source owner).map (FieldDecl.behind front) := by
  simp only [toFields, form_behind, childOfForm?_behind]
  cases node.childOfForm? .variableDeclaration with
  | none => cases node.form <;> rfl
  | some declaration =>
    cases node.form with
    | fieldDeclaration =>
      simp only [Option.map_some, child?_behind, wordsBefore_behind]
      cases declaration.child? .type with
      | none => rfl
      | some type =>
        simp [List.filter_map, List.filterMap_map, List.map_filterMap, Function.comp_def,
          FieldDecl.behind]
    | _ => rfl

theorem toConversion?_behind :
    (node.behind front).toConversion? (front ++ source) =
      (node.toConversion? source).map (ConversionDecl.behind front) := by
  simp only [toConversion?, form_behind, child?_behind, declaredParameters_behind]
  split
  · cases node.child? .type with
    | none => rfl
    | some target =>
      cases node.declaredParameters source with
      | nil => rfl
      | cons parameter rest =>
        cases typeIs : parameter.type with
        | none => simp [typeIs]
        | some type => simp [typeIs, ConversionDecl.behind, Function.comp_def]
  · rfl

theorem toConstants_behind (owner : TypeDecl) :
    (node.behind front).toConstants (owner.behind front) =
      (node.toConstants owner).map (FieldDecl.behind front) := by
  simp [toConstants, List.filter_map, List.filterMap_map, List.map_filterMap, Function.comp_def,
    FieldDecl.behind, TypeExpr.behind]

theorem toBases_behind :
    (node.behind front).toBases (front ++ source) =
      (node.toBases source).map (TypeExpr.behind front) := by
  simp only [toBases, childOfForm?_behind]
  cases node.childOfForm? .baseList with
  | none => rfl
  | some list =>
    simp only [Option.map_some, namedChildren_behind, List.filterMap_map, List.map_filterMap]
    apply List.filterMap_congr
    intro base _
    simp only [Function.comp_apply, form_behind, children_behind, List.find?_map]
    split <;> simp [Function.comp_def]

theorem toTypeHead?_behind (enclosing : String) (outer : Option Nat) (kind : TypeKind) :
    (node.behind front).toTypeHead? (front ++ source) enclosing outer kind =
      (node.toTypeHead? source enclosing outer kind).map (TypeDecl.behind front) := by
  simp only [toTypeHead?, declaredName?_behind, toBases_behind]
  cases node.declaredName? <;> simp [TypeDecl.behind, TypeDecl.empty]

theorem listed_behind (node : Node) :
    (node.behind front).listed = node.listed.map (behind front) := by
  rw [listed, listed]
  simp only [List.flatMap_subtype, List.unattach_attach, children_behind, List.flatMap_map,
    List.map_flatMap, form_behind]
  apply List.flatMap_congr
  intro child isChild
  split
  · exact listed_behind child
  · rfl
termination_by sizeOf node
decreasing_by exact sizeOf_lt_of_mem_children isChild

theorem toTypeDecl?_behind (enclosing : String) (outer : Option Nat) (kind : TypeKind) :
    (node.behind front).toTypeDecl? (front ++ source) enclosing outer kind =
      (node.toTypeDecl? source enclosing outer kind).map (TypeDecl.behind front) := by
  simp only [toTypeDecl?, toTypeHead?_behind, child?_behind, Option.map_map]
  congr 1
  funext type
  cases node.child? .body with
  | none => rfl
  | some body =>
    simp only [Function.comp_apply, Option.map_some]
    split
    · simp only [TypeDecl.behind_kind, *, toConstants_behind]
      rfl
    · simp only [listed_behind, List.filterMap_map, List.flatMap_map, Function.comp_def,
        toMethod?_behind, toProperty?_behind, toFields_behind, toConversion?_behind,
        ← List.map_filterMap, ← List.map_flatMap]
      rfl

@[simp]
theorem dottedText_behind :
    (node.behind front).dottedText (front ++ source) = node.dottedText source := by
  simp [dottedText]

theorem usedNamespace?_behind :
    (node.behind front).usedNamespace? (front ++ source) = node.usedNamespace? source := by
  simp [usedNamespace?, Function.comp_def]

end Node

namespace Declarations

variable (declarations : Declarations)

theorem behind_addUsing (path : String) :
    (declarations.addUsing path).behind front = (declarations.behind front).addUsing path := by
  simp only [addUsing, behind_usings]
  split <;> rfl

theorem behind_addNamespace (path : String) :
    (declarations.addNamespace path).behind front =
      (declarations.behind front).addNamespace path := rfl

theorem behind_addType (type : TypeDecl) :
    (declarations.addType type).behind front =
      (declarations.behind front).addType (type.behind front) := by
  simp [behind, addType]

end Declarations

namespace Node

variable (source : String)

/-- Parts that are moved one by one are moved all together. -/
theorem foldl_behind {α : Type} {front : String} {nodes : List Node} {move : α → α}
    {step step' : α → Node → α}
    (same : ∀ node ∈ nodes, ∀ state, step' (move state) (node.behind front) =
      move (step state node)) (state : α) :
    (nodes.map (behind front)).foldl step' (move state) = move (nodes.foldl step state) := by
  induction nodes generalizing state with
  | nil => rfl
  | cons node rest ih =>
    rw [List.forall_mem_cons] at same
    rw [List.map_cons, List.foldl_cons, List.foldl_cons, same.1, ih same.2]

theorem declareStep_behind (outer : Option Nat) (enclosing : String) (found : Declarations)
    (child : Node)
    (ih : ∀ list : Node, list.IsListOf child → ∀ outer enclosing found,
      (list.behind front).declare (front ++ source) outer enclosing (found.behind front) =
        (list.declare source outer enclosing found).behind front) :
    declareStep (front ++ source) outer (enclosing, found.behind front) (child.behind front) =
      ((declareStep source outer (enclosing, found) child).1,
        (declareStep source outer (enclosing, found) child).2.behind front) := by
  unfold declareStep
  simp only [form_behind, usedNamespace?_behind, declaredName?_behind, toTypeHead?_behind,
    toTypeDecl?_behind, children_behind]
  split
  · cases child.usedNamespace? source with
    | none => rfl
    | some path => rw [Declarations.behind_addUsing]
  · cases child.declaredName? with
    | none => rfl
    | some name =>
      simp only [Option.map_some, dottedText_behind, ← Declarations.behind_addNamespace]
      rw [foldl_behind]
      intro body isChild state
      rw [role_behind]
      split
      · rename_i isBody
        exact ih body (.inr (mem_bodies.mpr ⟨isChild, eq_of_beq isBody⟩)) _ _ _
      · rfl
  · cases child.declaredName? <;> simp [Declarations.behind_addNamespace]
  · cases child.toTypeHead? source enclosing outer .delegate <;> simp [Declarations.behind_addType]
  · rename_i kind _
    cases child.toTypeDecl? source enclosing outer kind with
    | none => rfl
    | some type =>
      simp only [Option.map_some, ← Declarations.behind_addType, Declarations.behind_types,
        List.length_map]
      rw [foldl_behind]
      intro body isChild state
      rw [role_behind]
      split
      · rename_i isBody
        have role_eq := eq_of_beq (Bool.and_eq_true_iff.mp isBody).1
        exact ih body (.inr (mem_bodies.mpr ⟨isChild, role_eq⟩)) _ _ _
      · rfl
  · rw [ih child (.inl rfl)]
  · rfl

/-- A list of declarations behind a text declares the same behind the text. -/
theorem declare_behind (outer : Option Nat) (enclosing : String) (found : Declarations)
    (node : Node) :
    (node.behind front).declare (front ++ source) outer enclosing (found.behind front) =
      (node.declare source outer enclosing found).behind front := by
  induction node using declare_induction generalizing outer enclosing found with
  | step node ih =>
    rw [declare_eq_foldl, declare_eq_foldl, children_behind]
    have moved := @foldl_behind (String × Declarations) front node.children
      (fun state => (state.1, state.2.behind front)) (declareStep source outer)
      (declareStep (front ++ source) outer) ?_ (enclosing, found)
    · exact congrArg Prod.snd moved
    · rintro child isChild ⟨enclosing, found⟩
      apply declareStep_behind
      intro list isList outer enclosing found
      exact ih child isChild list isList outer enclosing found

theorem exists_span_of_mem_rootsIn (region : Region) (node : Node) {found : RootExpression}
    (member : found ∈ node.rootsIn source region) : ∃ span, found.expression.span = some span := by
  induction region, node using outline_induction source with
  | step region node ih =>
    rcases exists_visit_of_mem_rootsIn member with ⟨_, -, isRoot⟩ | ⟨inner, part, visited, deeper⟩
    · rw [expression_of_mem_rootItems isRoot]
      exact ⟨_, span_toExpr source node⟩
    · exact ih inner part visited deeper

end Node

/-- The same tree once a text stands in front of the source. -/
@[simps]
def SyntaxTree.behind (tree : SyntaxTree) : SyntaxTree where
  source := front ++ tree.source
  roots := tree.roots.map (RootExpression.behind front)

/-- The same document once a text stands in front of it. -/
@[simps]
def ParsedDocument.behind (document : ParsedDocument) : ParsedDocument where
  tree := document.tree.behind front
  declarations := document.declarations.behind front

theorem RootExpression.span_behind {root : RootExpression} {span : Span}
    (spanIs : root.expression.span = some span) :
    (root.behind front).span = root.span.behind front := by
  simp [RootExpression.span, spanIs]

theorem RootExpression.notBehind_behind {left right : RootExpression} {one other : Span}
    (spanIs : left.expression.span = some one) (otherIs : right.expression.span = some other) :
    (left.behind front).notBehind (right.behind front) = left.notBehind right := by
  have sameStart : (Text.behind front left.span.start == Text.behind front right.span.start) =
      (left.span.start == right.span.start) := by
    rw [Bool.eq_iff_iff]
    simp
  simp [notBehind, span_behind front spanIs, span_behind front otherIs, sameStart]

/-- Findings of one kind that are moved one by one are moved all together. -/
theorem OutlineItem.filterMap_behind {α : Type} {front : String} (move : α → α)
    {kind : OutlineItem → Option α} (items : List OutlineItem)
    (same : ∀ item, kind (item.behind front) = (kind item).map move) :
    (items.map (behind front)).filterMap kind = (items.filterMap kind).map move := by
  rw [List.filterMap_map, List.map_filterMap]
  apply List.filterMap_congr
  intro item _
  exact same item

namespace ParsedDocument

theorem ofNode_behind (source : String) (node : Node) :
    ofNode (front ++ source) (node.behind front) = (ofNode source node).behind front := by
  have items : (node.behind front).outline (front ++ source)
        (.declaration none (node.behind front).span) =
      (node.outline source (.declaration none node.span)).map (OutlineItem.behind front) := by
    rw [Node.span_behind]
    exact node.outline_behind front source (.declaration none node.span)
  have declared : (node.behind front).declare (front ++ source) none "" Declarations.empty =
      (node.declare source none "" Declarations.empty).behind front :=
    node.declare_behind front source none "" Declarations.empty
  have roots : ((node.rootsIn source (.declaration none node.span)).map
        (RootExpression.behind front)).mergeSort RootExpression.notBehind =
      ((node.rootsIn source (.declaration none node.span)).mergeSort
        RootExpression.notBehind).map (RootExpression.behind front) := by
    symm
    apply List.map_mergeSort
    intro left isLeft right isRight
    obtain ⟨_, spanIs⟩ := Node.exists_span_of_mem_rootsIn source _ node isLeft
    obtain ⟨_, otherIs⟩ := Node.exists_span_of_mem_rootsIn source _ node isRight
    rw [RootExpression.notBehind_behind front spanIs otherIs]
  unfold Node.rootsIn at roots
  simp only [ofNode, items, declared]
  rw [OutlineItem.filterMap_behind (RootExpression.behind front) _ (by rintro (_ | _ | _) <;> rfl),
    OutlineItem.filterMap_behind (BodyScope.behind front) _ (by rintro (_ | _ | _) <;> rfl),
    OutlineItem.filterMap_behind (LocalDecl.behind front) _ (by rintro (_ | _ | _) <;> rfl), roots]
  rfl

end ParsedDocument

end AssertionLint
