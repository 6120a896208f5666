import AssertionLint.CSharp.Document
import AssertionLint.Proofs.Syntax.Layout
import AssertionLint.Proofs.Syntax.Outline
import Mathlib.Data.List.Basic

/-!
# Declarations one by one

What a list of declarations declares is collected from one declaration after the other, and each of
them adds a type, the types in its body, both or none (`Node.adding_declareStep`). Every type that a
document declares is of a kind that can be declared (`ParsedDocument.areDeclared`), since the
concrete syntax of a document names no other kinds.
-/

namespace AssertionLint

namespace Node

variable (source : String)

/-- What one declaration of a list adds: the namespace for the declarations behind it, and all that
is declared so far. -/
def declareStep (outer : Option Nat) (state : String × Declarations) (child : Node) :
    String × Declarations :=
  match child.form with
  | .usingDirective =>
    (state.1,
      match child.usedNamespace? source with
      | some path => state.2.addUsing path
      | none => state.2)
  | .namespaceDeclaration =>
    match child.declaredName? with
    | some name =>
      let path := joinNamespace state.1 (name.dottedText source)
      (state.1, child.children.foldl (fun found body =>
        if body.role == some .body then body.declare source none path found else found)
        (state.2.addNamespace path))
    | none => state
  | .fileScopedNamespace =>
    match child.declaredName? with
    | some name =>
      let path := joinNamespace state.1 (name.dottedText source)
      (path, state.2.addNamespace path)
    | none => state
  | .delegateDeclaration =>
    match child.toTypeHead? source state.1 outer .delegate with
    | some type => (state.1, state.2.addType type)
    | none => state
  | .typeDeclaration kind =>
    match child.toTypeDecl? source state.1 outer kind with
    | some type =>
      (state.1, child.children.foldl (fun found body =>
        if body.role == some .body && kind != .enum then
          body.declare source (some state.2.types.length) state.1 found
        else found) (state.2.addType type))
    | none => state
  | .error => (state.1, child.declare source outer state.1 state.2)
  | _ => state

theorem declare_eq_foldl (outer : Option Nat) (enclosing : String) (found : Declarations)
    (node : Node) :
    node.declare source outer enclosing found =
      (node.children.foldl (declareStep source outer) (enclosing, found)).2 := by
  rw [declare]
  simp only [List.foldl_subtype, List.unattach_attach]
  rfl

variable {source} {node child body : Node} {enclosing : String} {outer : Option Nat}
  {kind : TypeKind} {type : TypeDecl} {state : String × Declarations}

/-- The nodes that hold what the node declares inside of it. -/
def bodies (node : Node) : List Node :=
  node.children.filter (·.role == some .body)

theorem mem_bodies : body ∈ node.bodies ↔ body ∈ node.children ∧ body.role = some .body := by
  simp [bodies]

/-- The list is one of those that a declaration holds: a body of it, or the declaration itself if it
is an error. -/
def IsListOf (list node : Node) : Prop :=
  list = node ∨ list ∈ node.bodies

theorem IsListOf.isLaidOut {list : Node} (isList : list.IsListOf node)
    (laidOut : node.IsLaidOut source) : list.IsLaidOut source := by
  rcases isList with rfl | isBody
  · exact laidOut
  · exact laidOut.parts list (mem_bodies.mp isBody).1

theorem IsListOf.holds {list : Node} (isList : list.IsListOf node) : node.Holds list := by
  rcases isList with rfl | isBody
  · exact .inl rfl
  · exact .inr (.child (mem_bodies.mp isBody).1)

/-- What a list passes on from the lists of its declarations holds of every list. -/
theorem declare_induction {motive : Node → Prop}
    (step : ∀ node, (∀ child ∈ node.children, ∀ list : Node, list.IsListOf child → motive list) →
      motive node) (node : Node) : motive node := by
  apply step
  intro child isChild list isList
  exact declare_induction step list
termination_by sizeOf node
decreasing_by
  have outer := sizeOf_lt_of_mem_children isChild
  rcases isList with rfl | isBody
  · exact outer
  · have inner := sizeOf_lt_of_mem_children (mem_bodies.mp isBody).1
    omega

/-- The type is what the node declares, inside of `outer`. -/
structure Declares (node : Node) (outer : Option Nat) (enclosing : String) (kind : TypeKind)
    (type : TypeDecl) : Prop where
  kind_eq : type.kind = kind
  span_eq : type.span = node.span
  outer_eq : type.outer = outer
  enclosing_eq : type.enclosing = enclosing

theorem declares_of_toTypeHead?
    (isType : node.toTypeHead? source enclosing outer kind = some type) :
    node.Declares outer enclosing kind type := by
  rw [toTypeHead?, Option.map_eq_some_iff] at isType
  rcases isType with ⟨name, -, rfl⟩
  exact ⟨rfl, rfl, rfl, rfl⟩

theorem declares_of_toTypeDecl?
    (isType : node.toTypeDecl? source enclosing outer kind = some type) :
    node.Declares outer enclosing kind type := by
  rw [toTypeDecl?, Option.map_eq_some_iff] at isType
  rcases isType with ⟨head, isHead, rfl⟩
  rcases declares_of_toTypeHead? isHead with ⟨kind_eq, span_eq, outer_eq, enclosing_eq⟩
  split
  · exact ⟨kind_eq, span_eq, outer_eq, enclosing_eq⟩
  · split
    · exact ⟨kind_eq, span_eq, outer_eq, enclosing_eq⟩
    · exact ⟨kind_eq, span_eq, outer_eq, enclosing_eq⟩

/-- What one declaration of a list can add to the types. -/
inductive Adding (source : String) (outer : Option Nat) (state : String × Declarations)
    (child : Node) : String × Declarations → Prop
  /-- A directive, a member or a statement. -/
  | nothing {found : Declarations} (types_eq : found.types = state.2.types) :
      Adding source outer state child (state.1, found)
  /-- A namespace for what comes behind. -/
  | fileScoped {path : String} {found : Declarations} (form_eq : child.form = .fileScopedNamespace)
      (types_eq : found.types = state.2.types) : Adding source outer state child (path, found)
  /-- A namespace with a body. -/
  | inNamespace {path : String} {found : Declarations}
      (form_eq : child.form = .namespaceDeclaration) (types_eq : found.types = state.2.types) :
      Adding source outer state child
        (state.1, child.bodies.foldl (fun found body => body.declare source none path found) found)
  /-- A delegate or an enumeration. -/
  | single {kind : TypeKind} {type : TypeDecl} (isDeclared : kind.isDeclared = true)
      (declares : child.Declares outer state.1 kind type) :
      Adding source outer state child (state.1, state.2.addType type)
  /-- Another type with the types in its body. -/
  | withBody {kind : TypeKind} {type : TypeDecl} (form_eq : child.form = .typeDeclaration kind)
      (declares : child.Declares outer state.1 kind type) :
      Adding source outer state child
        (state.1, child.bodies.foldl (fun found body =>
          body.declare source (some state.2.types.length) state.1 found) (state.2.addType type))
  /-- An error with declarations among what fits no rule. -/
  | inError (form_eq : child.form = .error) :
      Adding source outer state child (state.1, child.declare source outer state.1 state.2)

theorem adding_declareStep (source : String) (outer : Option Nat)
    (state : String × Declarations) (child : Node) :
    Adding source outer state child (declareStep source outer state child) := by
  unfold declareStep
  split
  · refine .nothing ?_
    unfold Declarations.addUsing
    split
    · split <;> rfl
    · rfl
  · rename_i form_eq
    split
    · dsimp only
      rw [← List.foldl_filter]
      exact .inNamespace form_eq rfl
    · exact .nothing rfl
  · rename_i form_eq
    split
    · exact .fileScoped form_eq rfl
    · exact .nothing rfl
  · split
    · rename_i type isType
      exact .single rfl (declares_of_toTypeHead? isType)
    · exact .nothing rfl
  · rename_i kind form_eq
    split
    · rename_i type isType
      have declares := declares_of_toTypeDecl? isType
      by_cases isEnum : kind = .enum
      · simp only [isEnum, bne_self_eq_false, Bool.and_false, Bool.false_eq_true, if_false,
          List.foldl_fixed]
        exact .single rfl (isEnum ▸ declares)
      · simp only [bne_iff_ne.mpr isEnum, Bool.and_true]
        rw [← List.foldl_filter]
        exact .withBody form_eq declares
    · exact .nothing rfl
  · rename_i form_eq
    exact .inError form_eq
  · exact .nothing rfl

theorem IsLaidOut.isDeclared (laidOut : node.IsLaidOut source)
    (form_eq : node.form = .typeDeclaration kind) : kind.isDeclared = true := by
  have nonempty : node.children ≠ [] := by
    intro bare
    have written := laidOut.written bare
    rw [form_eq] at written
    cases written
  exact ((laidOut.admits nonempty).typed kind form_eq).1

end Node

/-- All types are of kinds that can be declared. -/
def Declarations.AreDeclared (declarations : Declarations) : Prop :=
  ∀ type ∈ declarations.types, type.kind.isDeclared = true

theorem Declarations.AreDeclared.addType {declarations : Declarations} {type : TypeDecl}
    (before : declarations.AreDeclared) (isDeclared : type.kind.isDeclared = true) :
    (declarations.addType type).AreDeclared := by
  intro other isOther
  rcases List.mem_append.mp isOther with isOld | isNew
  · exact before other isOld
  · rwa [List.mem_singleton.mp isNew]

namespace Node

variable {source : String}

theorem areDeclared_declareStep {child : Node} (laidOut : child.IsLaidOut source)
    (deeper : ∀ list : Node, list.IsListOf child → ∀ outer enclosing found,
      Declarations.AreDeclared found → (list.declare source outer enclosing found).AreDeclared)
    (outer : Option Nat) (state : String × Declarations) (before : state.2.AreDeclared) :
    (declareStep source outer state child).2.AreDeclared := by
  have unchanged {found : Declarations} (types_eq : found.types = state.2.types) :
      found.AreDeclared := by
    unfold Declarations.AreDeclared
    rwa [types_eq]
  have inBodies (outer : Option Nat) (enclosing : String) {found : Declarations}
      (before : found.AreDeclared) : (child.bodies.foldl (fun found body =>
        body.declare source outer enclosing found) found).AreDeclared :=
    List.foldlRecOn _ _ before fun found holds body isBody =>
      deeper body (.inr isBody) _ _ found holds
  have adding := adding_declareStep source outer state child
  generalize declareStep source outer state child = next at adding ⊢
  cases adding with
  | nothing types_eq => exact unchanged types_eq
  | fileScoped _ types_eq => exact unchanged types_eq
  | inNamespace _ types_eq => exact inBodies _ _ (unchanged types_eq)
  | single isDeclared declares => exact before.addType (declares.kind_eq ▸ isDeclared)
  | withBody form_eq declares =>
    exact inBodies _ _ (before.addType (declares.kind_eq ▸ laidOut.isDeclared form_eq))
  | inError => exact deeper child (.inl rfl) _ _ _ before

theorem areDeclared_declare {node : Node}
    (laidOut : ∀ child ∈ node.children, child.IsLaidOut source) (outer : Option Nat)
    (enclosing : String) (found : Declarations) (before : found.AreDeclared) :
    (node.declare source outer enclosing found).AreDeclared := by
  induction node using declare_induction generalizing outer enclosing found with
  | step node ih =>
    rw [declare_eq_foldl]
    refine List.foldlRecOn (motive := fun state : String × Declarations => state.2.AreDeclared) _ _
      before fun state holds child isChild => ?_
    refine areDeclared_declareStep (laidOut child isChild) ?_ outer state holds
    intro list isList outer enclosing found
    exact ih child isChild list isList (isList.isLaidOut (laidOut child isChild)).parts outer
      enclosing found

end Node

/-- Each type that a document declares is of a kind that can be declared. -/
theorem ParsedDocument.areDeclared {source : String} {node : Node}
    (isDocument : node.IsDocument source) : (ofNode source node).declarations.AreDeclared :=
  Node.areDeclared_declare isDocument.laidOut none "" .empty (fun _ isType => by cases isType)

theorem ParsedDocument.areDeclared_ofSource (source : String) :
    (ofSource source).declarations.AreDeclared :=
  areDeclared (Node.isDocument_ofSource source)

end AssertionLint
