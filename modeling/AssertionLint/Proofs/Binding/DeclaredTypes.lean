import AssertionLint.Proofs.Binding.Locals
import AssertionLint.Proofs.Syntax.Declared

/-!
# Nested types

The types of a document that stand around an offset come one inside the other: each one starts
behind the start of the one in front of it in the list of types, and refers to it as the type
around it (`Node.addsNested_declare`). The declarations of a list stand one behind the other, so
only one of them can be around the offset; a type is added in front of the types in its body, and
the body comes behind the keyword. A namespace inside a type would cut the chain, because the types
in it do not refer to the type around the namespace; and a type would stand in another namespace
than the type around it if the body of that one changed the namespace for what comes behind.
-/

namespace AssertionLint

/-- The types around an offset with their places. -/
def typesAround (offset : Nat) (types : List TypeDecl) : List (TypeDecl × Nat) :=
  types.zipIdx.filter fun entry => entry.1.span.encloses offset

/-- The type stands in the body of the other one, in the same namespace. -/
structure TypeDecl.StandsIn (inner outer : TypeDecl) : Prop where
  behind : outer.span.start < inner.span.start
  contains : outer.span.contains inner.span = true
  enclosing_eq : inner.enclosing = outer.enclosing

/-- Types with their places, each of them inside the one in front of it and referring to it. The
first one refers to `outer`. -/
inductive AreNested : Option Nat → List (TypeDecl × Nat) → Prop
  | nil {outer : Option Nat} : AreNested outer []
  | cons {outer : Option Nat} {type : TypeDecl} {index : Nat} {rest : List (TypeDecl × Nat)}
      (isOuter : type.outer = outer) (inside : ∀ inner ∈ rest, inner.1.StandsIn type)
      (deeper : AreNested (some index) rest) : AreNested outer ((type, index) :: rest)

/-- Of the types that were added, those around the offset are nested, and each of them stands
within one of the nodes. If they stand in the type `outer`, then in the given namespace as well. -/
def AddsNested (offset : Nat) (outer : Option Nat) (enclosing : String) (nodes : List Node)
    (before after : List TypeDecl) : Prop :=
  ∃ nested, typesAround offset after = typesAround offset before ++ nested ∧
    AreNested outer nested ∧ ∀ entry ∈ nested,
      (∃ node ∈ nodes, node.span.contains entry.1.span = true) ∧
        (outer.isSome = true → entry.1.enclosing = enclosing)

section Around

variable {offset : Nat} {outer : Option Nat} {enclosing : String} {nodes : List Node}
  {types before after : List TypeDecl} {type : TypeDecl}

theorem typesAround_concat (encloses : type.span.encloses offset = true) :
    typesAround offset (types ++ [type]) = typesAround offset types ++ [(type, types.length)] := by
  rw [typesAround, List.zipIdx_append, List.filter_append]
  simp [typesAround, encloses]

theorem typesAround_concat_of_away (away : type.span.encloses offset = false) :
    typesAround offset (types ++ [type]) = typesAround offset types := by
  rw [typesAround, List.zipIdx_append, List.filter_append]
  simp [typesAround, away]

theorem Span.away_of_contains {outer inner : Span} (contains : outer.contains inner = true)
    (away : outer.encloses offset = false) : inner.encloses offset = false := by
  rw [Span.contains_iff] at contains
  rw [← Bool.not_eq_true, Span.encloses_iff] at away ⊢
  omega

namespace AddsNested

theorem of_same (same : typesAround offset after = typesAround offset before) :
    AddsNested offset outer enclosing nodes before after :=
  ⟨[], by rw [same, List.append_nil], .nil, List.forall_mem_nil _⟩

theorem congr {before' after' : List TypeDecl}
    (adds : AddsNested offset outer enclosing nodes before after)
    (before_eq : typesAround offset before' = typesAround offset before)
    (after_eq : typesAround offset after' = typesAround offset after) :
    AddsNested offset outer enclosing nodes before' after' := by
  unfold AddsNested
  rw [before_eq, after_eq]
  exact adds

/-- The nodes may be replaced by nodes around them. -/
theorem widen {others : List Node} (adds : AddsNested offset outer enclosing nodes before after)
    (wider : ∀ node ∈ nodes, ∃ other ∈ others, other.span.contains node.span = true) :
    AddsNested offset outer enclosing others before after := by
  rcases adds with ⟨nested, after_eq, areNested, within⟩
  refine ⟨nested, after_eq, areNested, fun entry isNested => ?_⟩
  rcases within entry isNested with ⟨⟨node, isNode, contains⟩, enclosing_eq⟩
  rcases wider node isNode with ⟨other, isOther, contains'⟩
  exact ⟨⟨other, isOther, Span.contains_trans contains' contains⟩, enclosing_eq⟩

theorem rename {other : String} (adds : AddsNested offset outer other nodes before after)
    (same : outer.isSome = true → other = enclosing) :
    AddsNested offset outer enclosing nodes before after := by
  rcases adds with ⟨nested, after_eq, areNested, within⟩
  refine ⟨nested, after_eq, areNested, fun entry isNested => ?_⟩
  rcases within entry isNested with ⟨inNode, enclosing_eq⟩
  exact ⟨inNode, fun inType => (enclosing_eq inType).trans (same inType)⟩

end AddsNested

end Around

namespace Node

variable {source : String} {offset : Nat} {enclosing : String} {outer : Option Nat}
  {nodes : List Node} {node child body : Node} {kind : TypeKind} {type : TypeDecl}
  {found : Declarations} {state : String × Declarations}

section Folds

variable {σ : Type} (types : σ → List TypeDecl) {step : σ → Node → σ} (keeps : σ → Prop)

theorem typesAround_foldl_of_away (away : ∀ node ∈ nodes, ∀ state,
      typesAround offset (types (step state node)) = typesAround offset (types state)) (state : σ) :
    typesAround offset (types (nodes.foldl step state)) = typesAround offset (types state) :=
  List.foldlRecOn (motive := fun folded =>
    typesAround offset (types folded) = typesAround offset (types state)) nodes step rfl
    fun folded same node isNode => (away node isNode folded).trans same

/-- Of nodes one behind the other at most one is around the offset, so the types around it are those
that this one adds. -/
theorem addsNested_foldl (ordered : nodes.Pairwise EndsBefore)
    (away : ∀ node ∈ nodes, node.span.encloses offset = false → ∀ state,
      typesAround offset (types (step state node)) = typesAround offset (types state))
    (kept : ∀ node ∈ nodes, node.span.stop ≤ offset → ∀ state, keeps state →
      keeps (step state node))
    (around : ∀ node ∈ nodes, node.span.encloses offset = true → ∀ state, keeps state →
      AddsNested offset outer enclosing [node] (types state) (types (step state node)))
    {state : σ} (isKept : keeps state) :
    AddsNested offset outer enclosing nodes (types state) (types (nodes.foldl step state)) := by
  induction nodes generalizing state with
  | nil => exact .of_same rfl
  | cons first rest ih =>
    rw [List.forall_mem_cons] at away kept around
    rw [List.pairwise_cons] at ordered
    rw [List.foldl_cons]
    -- the first node stands in front of the offset, or all others stand behind it
    by_cases passed : first.span.stop ≤ offset
    · have isAway : first.span.encloses offset = false := by
        rw [← Bool.not_eq_true, Span.encloses_iff]
        omega
      refine ((ih ordered.2 away.2 kept.2 around.2 (kept.1 passed state isKept)).congr
        (away.1 isAway state).symm rfl).widen fun node isNode => ?_
      exact ⟨node, List.mem_cons_of_mem _ isNode, Span.contains_self _⟩
    · have same : typesAround offset (types (rest.foldl step (step state first))) =
          typesAround offset (types (step state first)) := by
        refine typesAround_foldl_of_away types (fun node isNode => away.2 node isNode ?_) _
        have behind := ordered.1 node isNode
        unfold EndsBefore at behind
        rw [← Bool.not_eq_true, Span.encloses_iff]
        omega
      cases encloses : first.span.encloses offset with
      | false => exact .of_same (same.trans (away.1 encloses state))
      | true =>
        refine ((around.1 encloses state isKept).congr rfl same).widen fun node isNode => ?_
        rw [List.mem_singleton.mp isNode]
        exact ⟨first, List.mem_cons_self, Span.contains_self _⟩

end Folds

theorem typesAround_declareStep_of_away (away : child.span.encloses offset = false)
    (deeper : ∀ list : Node, list.IsListOf child → ∀ outer enclosing found,
      typesAround offset (list.declare source outer enclosing found).types =
        typesAround offset found.types)
    (outer : Option Nat) (state : String × Declarations) :
    typesAround offset (declareStep source outer state child).2.types =
      typesAround offset state.2.types := by
  have addType {kind : TypeKind} {type : TypeDecl}
      (declares : child.Declares outer state.1 kind type) :
      typesAround offset (state.2.addType type).types = typesAround offset state.2.types :=
    typesAround_concat_of_away (declares.span_eq ▸ away)
  have inBodies (outer : Option Nat) (enclosing : String) (found : Declarations) :
      typesAround offset (child.bodies.foldl (fun found body =>
        body.declare source outer enclosing found) found).types = typesAround offset found.types :=
    typesAround_foldl_of_away Declarations.types
      (fun body isBody => deeper body (.inr isBody) outer enclosing) found
  have adding := adding_declareStep source outer state child
  generalize declareStep source outer state child = next at adding ⊢
  cases adding with
  | nothing types_eq => rw [types_eq]
  | fileScoped _ types_eq => rw [types_eq]
  | inNamespace _ types_eq => rw [inBodies, types_eq]
  | single _ declares => exact addType declares
  | withBody _ declares => rw [inBodies, addType declares]
  | inError => exact deeper child (.inl rfl) outer state.1 state.2

theorem IsListOf.away {list : Node} (isList : list.IsListOf child)
    (laidOut : child.IsLaidOut source) (away : child.span.encloses offset = false) :
    list.span.encloses offset = false := by
  rcases isList with rfl | isBody
  · exact away
  · exact Span.away_of_contains (laidOut.contains (mem_bodies.mp isBody).1) away

/-- Declarations away from the offset add no types around it. -/
theorem typesAround_declare_of_away {node : Node} (laidOut : node.IsLaidOut source)
    (away : node.span.encloses offset = false) (outer : Option Nat) (enclosing : String)
    (found : Declarations) :
    typesAround offset (node.declare source outer enclosing found).types =
      typesAround offset found.types := by
  induction node using declare_induction generalizing outer enclosing found with
  | step node ih =>
    rw [declare_eq_foldl]
    refine typesAround_foldl_of_away (fun state : String × Declarations => state.2.types)
      (fun child isChild => ?_) (enclosing, found)
    have childLaidOut := laidOut.parts child isChild
    have childAway := Span.away_of_contains (laidOut.contains isChild) away
    refine typesAround_declareStep_of_away childAway (fun list isList => ?_) outer
    exact ih child isChild list isList (isList.isLaidOut childLaidOut)
      (isList.away childLaidOut childAway)

/-- The node is a namespace around the offset, or it starts one for what comes behind it. -/
def opensNamespaceAt (offset : Nat) (node : Node) : Bool :=
  match node.form with
  | .namespaceDeclaration => node.span.encloses offset
  | .fileScopedNamespace => node.span.stop ≤ offset
  | _ => false

/-- Nothing in the node opens a namespace at the offset. -/
def KeepsNamespace (offset : Nat) (node : Node) : Prop :=
  ∀ part, node.HasPart part → part.opensNamespaceAt offset = false

/-- Nothing in a type around the offset opens a namespace there. -/
def KeepsTypes (offset : Nat) (node : Node) : Prop :=
  ∀ type kind, node.HasPart type → type.form = .typeDeclaration kind →
    type.span.encloses offset = true → type.KeepsNamespace offset

theorem addsNested_foldl_bodies (laidOut : child.IsLaidOut source)
    (each : ∀ body ∈ child.bodies, ∀ found, AddsNested offset outer enclosing body.children
      found.types (body.declare source outer enclosing found).types) (found : Declarations) :
    AddsNested offset outer enclosing child.bodies found.types
      (child.bodies.foldl (fun found body => body.declare source outer enclosing found)
        found).types := by
  have bodyLaidOut : ∀ body ∈ child.bodies, body.IsLaidOut source :=
    fun body isBody => laidOut.parts body (mem_bodies.mp isBody).1
  refine addsNested_foldl Declarations.types (fun _ => True) (laidOut.ordered.filter _) ?_ ?_ ?_
    trivial
  · exact fun body isBody away => typesAround_declare_of_away (bodyLaidOut body isBody) away _ _
  · exact fun _ _ _ _ _ => trivial
  · intro body isBody _ found _
    refine (each body isBody found).widen fun part isPart => ?_
    exact ⟨body, List.mem_singleton_self body, (bodyLaidOut body isBody).contains isPart⟩

/-- The types in the body of a type stand behind the start of the type. -/
theorem standsIn_of_contains {inner : TypeDecl} (laidOut : node.IsLaidOut source)
    (form_eq : node.form = .typeDeclaration kind)
    (declares : node.Declares outer enclosing kind type)
    (isBody : body ∈ node.bodies) (contains : body.span.contains inner.span = true)
    (enclosing_eq : inner.enclosing = enclosing) : inner.StandsIn type := by
  rcases mem_bodies.mp isBody with ⟨isChild, role_eq⟩
  have starts := ((laidOut.admits (List.ne_nil_of_mem isChild)).typed kind form_eq).2
  have behind := laidOut.start_lt_body starts isChild role_eq
  have within := laidOut.contains isChild
  rw [← declares.span_eq] at behind within
  refine ⟨?_, Span.contains_trans within contains, by rw [enclosing_eq, declares.enclosing_eq]⟩
  have := (Span.contains_iff.mp contains).1
  omega

/-- A type around the offset, together with the types in its body. -/
theorem addsNested_of_declares {types after : List TypeDecl} {nested : List (TypeDecl × Nat)}
    (declares : child.Declares outer enclosing kind type)
    (encloses : child.span.encloses offset = true)
    (after_eq : typesAround offset after = typesAround offset (types ++ [type]) ++ nested)
    (areNested : AreNested (some types.length) nested)
    (inside : ∀ entry ∈ nested, entry.1.StandsIn type) :
    AddsNested offset outer enclosing [child] types after := by
  rw [typesAround_concat (declares.span_eq ▸ encloses), List.append_assoc] at after_eq
  have own : child.span.contains type.span = true := by simp [declares.span_eq]
  refine ⟨(type, types.length) :: nested, after_eq, .cons declares.outer_eq inside areNested, ?_⟩
  intro entry isEntry
  rcases List.mem_cons.mp isEntry with rfl | isNested
  · exact ⟨⟨child, List.mem_singleton_self child, own⟩, fun _ => declares.enclosing_eq⟩
  · have standsIn := inside entry isNested
    exact ⟨⟨child, List.mem_singleton_self child, Span.contains_trans own standsIn.contains⟩,
      fun _ => standsIn.enclosing_eq.trans declares.enclosing_eq⟩

theorem addsNested_declareStep (laidOut : child.IsLaidOut source)
    (encloses : child.span.encloses offset = true)
    (keeps : ∀ kind, child.form = .typeDeclaration kind → child.KeepsNamespace offset)
    (deeper : ∀ list : Node, list.IsListOf child → ∀ outer enclosing found,
      (outer.isSome = true → child.KeepsNamespace offset) →
        AddsNested offset outer enclosing list.children found.types
          (list.declare source outer enclosing found).types)
    (outside : outer.isSome = true → child.opensNamespaceAt offset = false)
    (inside : outer.isSome = true → child.KeepsNamespace offset)
    (same : outer.isSome = true → state.1 = enclosing) :
    AddsNested offset outer enclosing [child] state.2.types
      (declareStep source outer state child).2.types := by
  refine AddsNested.rename ?_ same
  have adding := adding_declareStep source outer state child
  generalize declareStep source outer state child = next at adding ⊢
  cases adding with
  | nothing types_eq => exact .of_same (by rw [types_eq])
  | fileScoped _ types_eq => exact .of_same (by rw [types_eq])
  | @inNamespace path found form_eq types_eq =>
    have noType : outer = none := by
      rw [← Option.not_isSome_iff_eq_none]
      intro inType
      have closed := outside inType
      simp [opensNamespaceAt, form_eq, encloses] at closed
    subst noType
    have inBodies := addsNested_foldl_bodies laidOut
      (fun body isBody found => deeper body (.inr isBody) none path found (by simp)) found
    rw [types_eq] at inBodies
    refine (inBodies.rename (by simp)).widen fun body isBody => ?_
    exact ⟨child, List.mem_singleton_self child, laidOut.contains (mem_bodies.mp isBody).1⟩
  | single _ declares =>
    exact addsNested_of_declares declares encloses (List.append_nil _).symm .nil
      (List.forall_mem_nil _)
  | @withBody kind type form_eq declares =>
    have inBodies := addsNested_foldl_bodies laidOut (fun body isBody found =>
      deeper body (.inr isBody) (some state.2.types.length) state.1 found
        fun _ => keeps kind form_eq) (state.2.addType type)
    rcases inBodies with ⟨nested, after_eq, areNested, within⟩
    refine addsNested_of_declares declares encloses after_eq areNested fun entry isNested => ?_
    rcases within entry isNested with ⟨⟨body, isBody, contains⟩, enclosing_eq⟩
    exact standsIn_of_contains laidOut form_eq declares isBody contains (enclosing_eq rfl)
  | inError =>
    refine (deeper child (.inl rfl) outer state.1 state.2 inside).widen fun part isPart => ?_
    exact ⟨child, List.mem_singleton_self child, laidOut.contains isPart⟩

/-- The types that are added around an offset are nested, unless a namespace is opened inside of
them. -/
theorem addsNested_declare {node : Node} (laidOut : ∀ child ∈ node.children, child.IsLaidOut source)
    (ordered : node.children.Pairwise EndsBefore) (keeps : node.KeepsTypes offset)
    (outer : Option Nat) (enclosing : String) (found : Declarations)
    (inside : outer.isSome = true → node.KeepsNamespace offset) :
    AddsNested offset outer enclosing node.children found.types
      (node.declare source outer enclosing found).types := by
  induction node using declare_induction generalizing outer enclosing found with
  | step node ih =>
    rw [declare_eq_foldl]
    refine addsNested_foldl (fun state : String × Declarations => state.2.types)
      (fun state => outer.isSome = true → state.1 = enclosing) ordered ?_ ?_ ?_ (fun _ => rfl)
    · intro child isChild away state
      refine typesAround_declareStep_of_away away (fun list isList => ?_) outer state
      exact typesAround_declare_of_away (isList.isLaidOut (laidOut child isChild))
        (isList.away (laidOut child isChild) away)
    · intro child isChild passed state same inType
      have closed := inside inType child (.child isChild)
      have adding := adding_declareStep source outer state child
      generalize declareStep source outer state child = next at adding ⊢
      cases adding with
      | fileScoped form_eq => simp [opensNamespaceAt, form_eq, passed] at closed
      | _ => exact same inType
    · intro child isChild encloses state same
      have childInside (inType : outer.isSome = true) : child.KeepsNamespace offset :=
        fun part isPart => inside inType part ((HasPart.child isChild).trans isPart)
      refine addsNested_declareStep (laidOut child isChild) encloses ?_ ?_ ?_ childInside same
      · exact fun kind form_eq => keeps child kind (.child isChild) form_eq encloses
      · intro list isList outer enclosing found inside
        have listLaidOut := isList.isLaidOut (laidOut child isChild)
        refine ih child isChild list isList listLaidOut.parts listLaidOut.ordered ?_ outer enclosing
          found ?_
        · exact fun type kind isType =>
            keeps type kind ((HasPart.child isChild).of_holds isList.holds |>.trans isType)
        · exact fun inType part isInner => inside inType part (isList.holds.hasPart isInner)
      · exact fun inType => inside inType child (.child isChild)

end Node

end AssertionLint
