import AssertionLint.Proofs.Binding.DeclaredTypes
import AssertionLint.Proofs.Binding.Innermost
import AssertionLint.Proofs.Syntax.Malformed

/-!
# Scopes of types

A type name in a body is looked up in the types around it, the one that starts last first. A type
name in the signature of a member is looked up in the type of the member, in the type that this one
refers to, and so on. Inside of the innermost type these are the same types in the same order, so
both names are looked up alike (`ParsedDocument.scopeAt_eq_memberScope`), unless there is a
namespace with a body inside of a type. The grammar lets one stand there, and a type in it can use
the types around the namespace in its bodies, but not in the signatures of its members
(`ParsedDocument.exists_type_in_namespace_in_type`).
-/

namespace AssertionLint

/-- Of nested types each one stands in all those in front of it. -/
theorem AreNested.pairwise {outer : Option Nat} {nested : List (TypeDecl × Nat)}
    (areNested : AreNested outer nested) :
    nested.Pairwise fun left right => right.1.StandsIn left.1 := by
  induction areNested with
  | nil => exact .nil
  | cons _ inside _ ih => exact .cons inside ih

namespace Declarations

/-- The places of types from one type outwards, each one referring to the next one. -/
inductive LeadsOut (declarations : Declarations) : Option Nat → List Nat → Prop
  | outside : LeadsOut declarations none []
  | inside {index : Nat} {type : TypeDecl} {further : List Nat}
      (isType : declarations.types[index]? = some type)
      (leadsOut : LeadsOut declarations type.outer further) :
      LeadsOut declarations (some index) (index :: further)

/-- The type is around the offset, and it stands inside of all other ones around it. -/
structure IsInnermost (declarations : Declarations) (offset index : Nat) (type : TypeDecl) :
    Prop where
  isType : declarations.types[index]? = some type
  encloses : type.span.encloses offset = true
  inside : ∀ place other, declarations.types[place]? = some other →
    other.span.encloses offset = true → place = index ∨
      (other.span.start < type.span.start ∧ other.span.contains type.span = true)

variable {declarations : Declarations} {offset : Nat}

/-- Following the types outwards finds all of them, if it goes far enough. -/
theorem LeadsOut.outwardsWithin_eq {index : Option Nat} {chain : List Nat}
    (leadsOut : declarations.LeadsOut index chain) {fuel : Nat} (enough : chain.length ≤ fuel) :
    index.elim [] (declarations.outwardsWithin fuel) = chain := by
  induction leadsOut generalizing fuel with
  | outside => rfl
  | @inside index type further isType leadsOut ih =>
    obtain ⟨fuel, rfl⟩ : ∃ less, fuel = less + 1 := ⟨fuel - 1, by simp at enough; omega⟩
    rw [Option.elim_some, outwardsWithin, isType]
    have further_eq := ih (Nat.le_of_succ_le_succ enough)
    cases outer_eq : type.outer with
    | none => simpa [outer_eq] using further_eq
    | some outer => simpa [outer_eq] using further_eq

theorem LeadsOut.of_areNested {outer : Option Nat} {nested : List (TypeDecl × Nat)}
    (areNested : AreNested outer nested)
    (areTypes : ∀ entry ∈ nested, declarations.types[entry.2]? = some entry.1) {further : List Nat}
    (leadsOut : declarations.LeadsOut outer further) :
    declarations.LeadsOut ((nested.map (·.2)).reverse ++ further).head?
      ((nested.map (·.2)).reverse ++ further) := by
  induction areNested generalizing further with
  | nil =>
    cases leadsOut with
    | outside => exact .outside
    | inside isType further => exact .inside isType further
  | @cons outer type index rest isOuter _ _ ih =>
    rw [List.forall_mem_cons] at areTypes
    rw [List.map_cons, List.reverse_cons, List.append_assoc]
    exact ih areTypes.2 (.inside areTypes.1 (isOuter ▸ leadsOut))

theorem LeadsOut.head?_eq {index : Nat} {chain : List Nat}
    (leadsOut : declarations.LeadsOut (some index) chain) : chain.head? = some index := by
  cases leadsOut
  rfl

theorem length_enclosingTypes_le :
    (declarations.enclosingTypes offset).length ≤ declarations.types.length := by
  rw [enclosingTypes, List.length_map, List.length_mergeSort]
  exact (List.length_filter_le _ _).trans_eq List.length_zipIdx

/-- The types around an offset are found from the first one outwards. -/
theorem LeadsOut.outwards_eq {index : Nat}
    (leadsOut : declarations.LeadsOut (some index) (declarations.enclosingTypes offset)) :
    declarations.outwards index = declarations.enclosingTypes offset :=
  leadsOut.outwardsWithin_eq (Nat.le_succ_of_le length_enclosingTypes_le)

theorem mem_typesAround {entry : TypeDecl × Nat} :
    entry ∈ typesAround offset declarations.types ↔
      declarations.types[entry.2]? = some entry.1 ∧ entry.1.span.encloses offset = true := by
  rw [typesAround, List.mem_filter, List.mk_mem_zipIdx_iff_getElem?]

/-- Types that start one behind the other are sorted from the last one to the first one. -/
theorem enclosingTypes_of_ascending
    (ascending : (typesAround offset declarations.types).Pairwise fun left right =>
      left.1.span.start < right.1.span.start) :
    declarations.enclosingTypes offset =
      ((typesAround offset declarations.types).map (·.2)).reverse := by
  let start (entry : TypeDecl × Nat) : Nat := entry.1.span.start
  let sorted := (typesAround offset declarations.types).mergeSort fun left right =>
    start right ≤ start left
  have perm : sorted.Perm (typesAround offset declarations.types) := List.mergeSort_perm _ _
  have apart : sorted.Pairwise fun left right => start left ≠ start right :=
    perm.symm.pairwise (ascending.imp Nat.ne_of_lt) Ne.symm
  have descending : sorted.Pairwise fun left right => start right < start left :=
    (pairwise_mergeSort_start start _).imp₂ (fun _ _ le ne => Nat.lt_of_le_of_ne le ne.symm) apart
  have sorted_eq : sorted = (typesAround offset declarations.types).reverse := by
    refine (perm.trans (List.reverse_perm _).symm).eq_of_pairwise ?_ descending
      (List.pairwise_reverse.mpr ascending)
    intro one other _ _ lt gt
    omega
  rw [← List.map_reverse, ← sorted_eq]
  rfl

theorem map_enclosing_of_ascending
    (ascending : (typesAround offset declarations.types).Pairwise fun left right =>
      left.1.span.start < right.1.span.start) :
    (declarations.enclosingTypes offset).map
        (fun place => declarations.types[place]?.map (·.enclosing)) =
      ((typesAround offset declarations.types).map fun entry =>
        some entry.1.enclosing).reverse := by
  rw [enclosingTypes_of_ascending ascending, List.map_reverse, List.map_map]
  congr 1
  refine List.map_congr_left fun entry isEntry => ?_
  simp [(mem_typesAround.mp isEntry).1]

theorem IsInnermost.of_reverse_eq {index : Nat} {type : TypeDecl} {others : List (TypeDecl × Nat)}
    (reverse_eq : (typesAround offset declarations.types).reverse = (type, index) :: others)
    (inside : ∀ outer ∈ others, outer.1.span.start < type.span.start ∧
      outer.1.span.contains type.span = true) : declarations.IsInnermost offset index type := by
  have mem_iff (entry : TypeDecl × Nat) : entry ∈ (type, index) :: others ↔
      declarations.types[entry.2]? = some entry.1 ∧ entry.1.span.encloses offset = true := by
    rw [← reverse_eq, List.mem_reverse, mem_typesAround]
  rcases (mem_iff (type, index)).mp List.mem_cons_self with ⟨isType, encloses⟩
  refine ⟨isType, encloses, fun place other isOther around => ?_⟩
  rcases List.mem_cons.mp ((mem_iff (other, place)).mpr ⟨isOther, around⟩) with same | isOuter
  · exact .inl (Prod.mk.inj same).2
  · exact .inr (inside _ isOuter)

/-- Of nested types around an offset one is the innermost one. The others are found from it
outwards, and all of them stand in its namespace. -/
theorem exists_isInnermost (areNested : AreNested none (typesAround offset declarations.types))
    (isAround : ∃ type ∈ declarations.types, type.span.encloses offset = true) :
    ∃ index type, declarations.IsInnermost offset index type ∧
      declarations.LeadsOut (some index) (declarations.enclosingTypes offset) ∧
      ∀ place ∈ declarations.enclosingTypes offset, ∃ other,
        declarations.types[place]? = some other ∧ other.enclosing = type.enclosing := by
  have enclosing_eq := enclosingTypes_of_ascending
    (areNested.pairwise.imp fun standsIn => standsIn.behind)
  have leadsOut := LeadsOut.of_areNested areNested (fun entry isEntry =>
    (mem_typesAround.mp isEntry).1) .outside
  rw [List.append_nil, ← enclosing_eq] at leadsOut
  have inwards := List.pairwise_reverse.mpr areNested.pairwise
  cases reverse_eq : (typesAround offset declarations.types).reverse with
  | nil =>
    rcases isAround with ⟨type, isType, encloses⟩
    rcases List.getElem?_of_mem isType with ⟨place, isPlace⟩
    have isEntry : (type, place) ∈ typesAround offset declarations.types :=
      mem_typesAround.mpr ⟨isPlace, encloses⟩
    rw [List.reverse_eq_nil_iff.mp reverse_eq] at isEntry
    cases isEntry
  | cons innermost others =>
    rcases innermost with ⟨type, index⟩
    rw [reverse_eq, List.pairwise_cons] at inwards
    rw [← List.map_reverse, reverse_eq] at enclosing_eq
    rw [enclosing_eq] at leadsOut ⊢
    refine ⟨index, type, .of_reverse_eq reverse_eq fun outer isOuter =>
      ⟨(inwards.1 outer isOuter).behind, (inwards.1 outer isOuter).contains⟩, leadsOut, ?_⟩
    intro place isPlace
    rcases List.mem_map.mp isPlace with ⟨⟨other, _⟩, isEntry, rfl⟩
    refine ⟨other, ?_, ?_⟩
    · rw [← reverse_eq, List.mem_reverse, mem_typesAround] at isEntry
      exact isEntry.1
    · rcases List.mem_cons.mp isEntry with same | isOuter
      · rw [(Prod.mk.inj same).1]
      · exact (inwards.1 _ isOuter).enclosing_eq.symm

end Declarations

namespace Node

variable {node : Node} {offset : Nat}

/-- The part stands inside of a type declaration. -/
def HoldsInType (node part : Node) : Prop :=
  ∃ type kind, node.HasPart type ∧ type.form = .typeDeclaration kind ∧ type.HasPart part

theorem keepsTypes_of_holdsInType
    (fileScoped : ∀ part, node.HoldsInType part → part.form ≠ .fileScopedNamespace)
    (outside : ∀ part, node.HoldsInType part → part.form = .namespaceDeclaration →
      part.span.encloses offset = false) : node.KeepsTypes offset := by
  intro type kind isType form_eq _ part isPart
  have inType : node.HoldsInType part := ⟨type, kind, isType, form_eq, isPart⟩
  unfold opensNamespaceAt
  split
  · exact outside part inType ‹_›
  · exact absurd ‹_› (fileScoped part inType)
  · rfl

/-- A form that no part of an item has stands inside of no type. -/
theorem form_ne_of_holdsInType {part : Node} {form : Form}
    (outermost : ∀ child ∈ node.children, ∀ part ∈ child.children, part.holdsForm form = false)
    (inType : node.HoldsInType part) : part.form ≠ form := by
  have free {child : Node} (isChild : child ∈ node.children) (isPart : child.HasPart part) :
      part.form ≠ form := by
    rcases isPart.outermost with ⟨between, isBetween, rfl | inner⟩
    · exact form_ne_of_holdsForm (outermost child isChild _ isBetween)
    · exact form_ne_of_holdsForm
        (inner.holdsForm_eq_false (outermost child isChild between isBetween))
  rcases inType with ⟨type, kind, isType, -, isPart⟩
  rcases isType.outermost with ⟨child, isChild, rfl | inner⟩
  · exact free isChild isPart
  · exact free isChild (inner.trans isPart)

end Node

namespace ParsedDocument

variable {source : String} {node : Node} {offset : Nat}

theorem areNested_typesAround (isDocument : node.IsDocument source)
    (keeps : node.KeepsTypes offset) :
    AreNested none (typesAround offset (ofNode source node).declarations.types) := by
  rcases Node.addsNested_declare isDocument.laidOut isDocument.ordered keeps none "" .empty
    (by simp) with ⟨nested, after_eq, areNested, -⟩
  have types_eq : (ofNode source node).declarations.types =
      (node.declare source none "" .empty).types := rfl
  rw [types_eq, after_eq]
  exact areNested

/-- Inside of a type of a document without errors, the types around an offset are the innermost one
and those that it refers to outwards, so a type name at the offset is looked up like one in the
signature of a member of the innermost type. A namespace without a body stands inside of no type;
the offset must not stand in a namespace with a body that does. -/
theorem scopeAt_eq_memberScope (isTree : node.IsTreeOf source) (noErrors : node.hasError = false)
    (fileScoped : ∀ part, node.HoldsInType part → part.form ≠ .fileScopedNamespace)
    (outside : ∀ part, node.HoldsInType part → part.form = .namespaceDeclaration →
      part.span.encloses offset = false)
    {table : TypeTable} (documentIs : table.document = (ofNode source node).declarations)
    (isAround : ∃ type ∈ table.document.types, type.span.encloses offset = true) :
    ∃ index innermost, table.document.IsInnermost offset index innermost ∧
      table.document.LeadsOut (some index) (table.document.enclosingTypes offset) ∧
      table.document.enclosingTypes offset = (table.memberScope ⟨.document, index⟩).enclosing ∧
      (∀ place ∈ table.document.enclosingTypes offset, ∃ other,
        table.document.types[place]? = some other ∧ other.enclosing = innermost.enclosing) ∧
      table.scopeAt offset = { table.memberScope ⟨.document, index⟩ with
        typeParameters :=
          (table.document.bodiesAround offset).flatMap (·.typeParameters) ++
            (table.memberScope ⟨.document, index⟩).typeParameters } ∧
      ∀ name arity, table.lookup? (table.scopeAt offset) name arity =
        table.lookup? (table.memberScope ⟨.document, index⟩) name arity := by
  have keeps := Node.keepsTypes_of_holdsInType fileScoped outside
  have areNested : AreNested none (typesAround offset table.document.types) :=
    documentIs ▸ areNested_typesAround (isTree noErrors) keeps
  rcases Declarations.exists_isInnermost areNested isAround with
    ⟨index, innermost, isInnermost, leadsOut, sameNamespace⟩
  have memberScope_eq : table.memberScope ⟨.document, index⟩ =
      ⟨.document, table.document.enclosingTypes offset, innermost.enclosing,
        table.document.typeParametersOf (table.document.enclosingTypes offset)⟩ := by
    simp [TypeTable.memberScope, TypeTable.decl?, TypeTable.declarations, isInnermost.isType,
      leadsOut.outwards_eq]
  have scopeAt_eq : table.scopeAt offset = { table.memberScope ⟨.document, index⟩ with
      typeParameters :=
        (table.document.bodiesAround offset).flatMap (·.typeParameters) ++
          (table.memberScope ⟨.document, index⟩).typeParameters } := by
    rw [memberScope_eq]
    simp [TypeTable.scopeAt, Declarations.typeScopeAt, leadsOut.head?_eq, isInnermost.isType]
  refine ⟨index, innermost, isInnermost, leadsOut, by rw [memberScope_eq], sameNamespace,
    scopeAt_eq, fun name arity => ?_⟩
  rw [scopeAt_eq]
  rfl

/-- A class with two classes in it, behind a namespace for the whole document. -/
def twoTypesInType : String :=
  "namespace Space; class Outer \x7b class Item \x7b \x7d class Fixture \x7b Item field; " ++
    "void Test() \x7b Use(field, new Item()); \x7d \x7d \x7d"

theorem scopeAt_eq_memberScope_twoTypesInType :
    (Node.ofSource twoTypesInType).hasError = false ∧
      (∀ part, (Node.ofSource twoTypesInType).HoldsInType part →
        part.form ≠ .fileScopedNamespace ∧ part.form ≠ .namespaceDeclaration) ∧
      (∃ type ∈ (ofSource twoTypesInType).table.document.types,
        type.span.encloses 90 = true) ∧
      (ofSource twoTypesInType).table.document.enclosingTypes 90 = [2, 0] ∧
      ∀ name arity,
        (ofSource twoTypesInType).table.lookup?
            ((ofSource twoTypesInType).table.scopeAt 90) name arity =
          (ofSource twoTypesInType).table.lookup?
            ((ofSource twoTypesInType).table.memberScope ⟨.document, 2⟩) name arity := by
  have evaluated : (Node.ofSource twoTypesInType).hasError = false ∧
      (∀ child ∈ (Node.ofSource twoTypesInType).children, ∀ part ∈ child.children,
        part.holdsForm .fileScopedNamespace = false) ∧
      (∀ child ∈ (Node.ofSource twoTypesInType).children, ∀ part ∈ child.children,
        part.holdsForm .namespaceDeclaration = false) ∧
      (∃ type ∈ (ofSource twoTypesInType).table.document.types,
        type.span.encloses 90 = true) ∧
      ((typesAround 90 (ofSource twoTypesInType).table.document.types).Pairwise
        fun left right => left.1.span.start < right.1.span.start) ∧
      ((typesAround 90 (ofSource twoTypesInType).table.document.types).map (·.2)).reverse =
        [2, 0] := by
    decide +kernel
  rcases evaluated with ⟨noErrors, noFile, noBlock, isAround, ascending, reverse_eq⟩
  have enclosing_eq := Declarations.enclosingTypes_of_ascending ascending
  rw [reverse_eq] at enclosing_eq
  rcases scopeAt_eq_memberScope (Node.isTreeOf_ofSource twoTypesInType) noErrors
    (fun _ => Node.form_ne_of_holdsInType noFile)
    (fun _ inType isBlock => absurd isBlock (Node.form_ne_of_holdsInType noBlock inType)) rfl
    isAround with ⟨index, innermost, -, leadsOut, -, -, -, lookup_eq⟩
  rw [enclosing_eq] at leadsOut
  cases leadsOut.head?_eq
  exact ⟨noErrors, fun _ inType => ⟨Node.form_ne_of_holdsInType noFile inType,
    Node.form_ne_of_holdsInType noBlock inType⟩, isAround, enclosing_eq, lookup_eq⟩

/-- A class in a namespace in a class that has another class in it. -/
def namespaceInType : String :=
  "class Outer \x7b class Item \x7b \x7d namespace Inner \x7b class Fixture \x7b Item field; " ++
    "void Test() \x7b Use(field, new Item()); \x7d \x7d \x7d \x7d"

/-- A type in a namespace in a type does not refer to the type around the namespace, but it stands
in it. So a name for a type of the outer one is found in a body, but not in the signature of a
member, and the types around the body stand in two namespaces. -/
theorem exists_type_in_namespace_in_type :
    ∃ source offset index, (Node.ofSource source).hasError = false ∧
      (∃ innermost, (ofSource source).table.document.IsInnermost offset index innermost) ∧
      (ofSource source).table.document.enclosingTypes offset ≠
        ((ofSource source).table.memberScope ⟨.document, index⟩).enclosing ∧
      ((ofSource source).table.document.enclosingTypes offset).map (fun place =>
        (ofSource source).table.document.types[place]?.map (·.enclosing)) =
          [some "Inner", some ""] ∧
      (ofSource source).table.lookup? ((ofSource source).table.scopeAt offset) "Item" 0 =
        some ⟨.document, 1⟩ ∧
      (ofSource source).table.lookup?
        ((ofSource source).table.memberScope ⟨.document, index⟩) "Item" 0 = none := by
  have evaluated : (Node.ofSource namespaceInType).hasError = false ∧
      ((typesAround 90 (ofSource namespaceInType).table.document.types).map fun entry =>
        (entry.2, entry.1.span, entry.1.enclosing)) =
          [(0, ⟨0, 120⟩, ""), (2, ⟨47, 116⟩, "Inner")] ∧
      (ofSource namespaceInType).table.lookup? ⟨.document, [2, 0], "Inner", []⟩ "Item" 0 =
        some ⟨.document, 1⟩ ∧
      ((ofSource namespaceInType).table.memberScope ⟨.document, 2⟩).enclosing = [2] ∧
      (ofSource namespaceInType).table.lookup?
        ((ofSource namespaceInType).table.memberScope ⟨.document, 2⟩) "Item" 0 = none := by
    decide +kernel
  rcases evaluated with ⟨noError, around, outside, memberScope_eq, inMember⟩
  refine ⟨namespaceInType, 90, 2, noError, ?_⟩
  obtain ⟨outer, fixture, around_eq, outerIs, fixtureIs⟩ : ∃ outer fixture,
      typesAround 90 (ofSource namespaceInType).table.document.types =
          [(outer, 0), (fixture, 2)] ∧
        (outer.span, outer.enclosing) = (⟨0, 120⟩, "") ∧
        (fixture.span, fixture.enclosing) = (⟨47, 116⟩, "Inner") := by
    simpa [List.map_eq_cons_iff] using around
  rw [Prod.mk.injEq] at outerIs fixtureIs
  have ascending : (typesAround 90 (ofSource namespaceInType).table.document.types).Pairwise
      fun left right => left.1.span.start < right.1.span.start := by
    simp [around_eq, outerIs, fixtureIs]
  have enclosing_eq :
      (ofSource namespaceInType).table.document.enclosingTypes 90 = [2, 0] := by
    rw [Declarations.enclosingTypes_of_ascending ascending, around_eq]
    rfl
  have isFixture : (ofSource namespaceInType).table.document.types[2]? = some fixture := by
    have isEntry : (fixture, 2) ∈
        typesAround 90 (ofSource namespaceInType).table.document.types := by simp [around_eq]
    exact (Declarations.mem_typesAround.mp isEntry).1
  refine ⟨⟨fixture, ?_⟩, by simp [enclosing_eq, memberScope_eq], ?_, ?_, inMember⟩
  · refine .of_reverse_eq (by rw [around_eq]; rfl) fun other isOther => ?_
    simp [List.mem_singleton.mp isOther, outerIs, fixtureIs, Span.contains_iff]
  · simp [Declarations.map_enclosing_of_ascending ascending, around_eq, outerIs, fixtureIs]
  · -- the parameters of types do not matter to this lookup
    have path_eq : ((ofSource namespaceInType).table.scopeAt 90).path = "Inner" := by
      simp [TypeTable.scopeAt, Declarations.typeScopeAt, enclosing_eq, isFixture, fixtureIs]
    have inside_eq : ((ofSource namespaceInType).table.scopeAt 90).enclosing = [2, 0] :=
      enclosing_eq
    rw [← outside]
    simp only [TypeTable.lookup?, TypeTable.visibleNamespaces, path_eq, inside_eq]
    rfl

end ParsedDocument

end AssertionLint
