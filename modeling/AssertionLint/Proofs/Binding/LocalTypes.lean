import AssertionLint.Proofs.Binding.Locals
import AssertionLint.Proofs.Binding.MethodGroup
import Mathlib.Logic.Relation

/-!
# Types of locals

The type of a local that is declared with `var` is inferred from an expression, and so it depends
on the locals that the names of this expression stand for. A dependence leads to a local that
became visible earlier, with one exception: the variable of a loop is visible in the collection
that the loop runs over, and a collection that names it leads back to it
(`Declarations.DependsOn.earlier`). So exactly the variables of such loops depend on themselves,
and unless a name leads to one of them, binding an expression ends without a limit on the depth
(`ParsedDocument.inference_ends`).
-/

namespace AssertionLint

namespace Expr

/-- The only name of a simple name is the name itself. -/
theorem nameUses_name {name : SimpleName} {span : Span} (simple : name.typeArguments = none) :
    (Expr.name name (some span)).nameUses = [⟨name.identifier, span.start⟩] := by
  rcases name with ⟨identifier, typeArguments, nameSpan⟩
  cases simple
  simp [nameUses, walk_eq, children, nameUse?]

theorem mem_nameUses_of_mem_children {expr part : Expr} {use : NameUse}
    (isChild : part ∈ expr.children) (isUse : use ∈ part.nameUses) : use ∈ expr.nameUses := by
  rcases List.mem_filterMap.mp isUse with ⟨name, inPart, nameIs⟩
  exact List.mem_filterMap.mpr ⟨name, mem_walk_of_mem_children isChild inPart, nameIs⟩

end Expr

/-- The variable of a loop has no written type, and the collection of the loop has its name. -/
def LocalDecl.runsOverItself (found : LocalDecl) : Bool :=
  match found.type, found.value with
  | none, .elementOf collection => collection.nameUses.any (·.name == found.name)
  | _, _ => false

namespace Declarations

/-- The type of the first local is inferred from an expression in which a name stands for the second
one. -/
structure DependsOn (declarations : Declarations) (found other : LocalDecl) : Prop where
  isLocal : found ∈ declarations.locals
  untyped : found.type = none
  named : ∃ use ∈ found.nameUses, declarations.visibleLocal? use.name use.offset = some other

/-- A local that binding an expression may come to: a name of the expression stands for it, or for a
local that depends on it. -/
inductive Needs (declarations : Declarations) (expr : Expr) : LocalDecl → Prop
  | named {use : NameUse} {found : LocalDecl} (isUse : use ∈ expr.nameUses)
      (visible : declarations.visibleLocal? use.name use.offset = some found) :
      Needs declarations expr found
  | depends {found other : LocalDecl} (needs : Needs declarations expr found)
      (dependsOn : declarations.DependsOn found other) : Needs declarations expr other

variable {declarations : Declarations} {name : String} {offset : Nat} {found other : LocalDecl}

theorem mem_visible_iff : found ∈ (declarations.locals.filter fun found =>
      found.name == name && found.scope.encloses offset && found.visibleFrom ≤ offset) ↔
    found ∈ declarations.locals ∧ found.name = name ∧ found.IsVisibleAt offset := by
  simp [LocalDecl.IsVisibleAt, and_assoc]

/-- The local that a name stands for is one that became visible last. -/
theorem of_visibleLocal? (visible : declarations.visibleLocal? name offset = some found) :
    (found ∈ declarations.locals ∧ found.name = name ∧ found.IsVisibleAt offset) ∧
      ∀ other ∈ declarations.locals, other.name = name → other.IsVisibleAt offset →
        other.visibleFrom ≤ found.visibleFrom := by
  rcases latest_of_foldl_laterLocal visible with ⟨member | none, bounds⟩
  · refine ⟨mem_visible_iff.mp member, fun other isLocal nameIs isVisible => ?_⟩
    exact bounds other (.inl (mem_visible_iff.mpr ⟨isLocal, nameIs, isVisible⟩))
  · cases none

theorem eq_none_of_foldl_laterLocal {locals : List LocalDecl} {latest : Option LocalDecl}
    (none : locals.foldl laterLocal latest = none) : latest = .none ∧ locals = [] := by
  induction locals generalizing latest with
  | nil => exact ⟨none, rfl⟩
  | cons next rest ih =>
    have later := (ih none).1
    cases latest with
    | none => cases later
    | some first =>
      simp only [laterLocal] at later
      split at later <;> cases later

theorem exists_visibleLocal? (isLocal : found ∈ declarations.locals)
    (isVisible : found.IsVisibleAt offset) :
    ∃ latest, declarations.visibleLocal? found.name offset = some latest := by
  rw [← Option.ne_none_iff_exists']
  intro none
  have noneVisible := (eq_none_of_foldl_laterLocal none).2
  have member := mem_visible_iff.mpr ⟨isLocal, rfl, isVisible⟩
  rw [noneVisible] at member
  cases member

theorem Needs.mem {expr : Expr} (needs : declarations.Needs expr found) :
    found ∈ declarations.locals := by
  cases needs with
  | named _ visible => exact mem_of_visibleLocal? visible
  | depends _ dependsOn =>
    rcases dependsOn.named with ⟨use, -, visible⟩
    exact mem_of_visibleLocal? visible

/-- What the value of a local needs, an expression needs that needs the local. -/
theorem Needs.of_value {expr value : Expr} (needs : declarations.Needs expr found)
    (untyped : found.type = none) (valueIs : found.value.expr? = some value)
    (further : declarations.Needs value other) : declarations.Needs expr other := by
  induction further with
  | named isUse visible =>
    have isUse := LocalDecl.nameUses_of_expr? valueIs ▸ isUse
    exact needs.depends ⟨needs.mem, untyped, _, isUse, visible⟩
  | depends _ dependsOn ih => exact ih.depends dependsOn

end Declarations

namespace LocalDecl

variable {found : LocalDecl}

theorem runsOverItself_iff : found.runsOverItself = true ↔ found.type = none ∧
    (∃ collection, found.value = .elementOf collection) ∧
      ∃ use ∈ found.nameUses, use.name = found.name := by
  unfold runsOverItself nameUses
  cases found.type <;> cases found.value <;> simp [LocalValue.expr?]

/-- A loop over the name of its variable. -/
theorem runsOverItself_of_name {name : SimpleName} {span : Span} (untyped : found.type = none)
    (loop : found.value = .elementOf (.name name (some span)))
    (simple : name.typeArguments = none) (named : name.identifier = found.name) :
    found.runsOverItself = true := by
  simp [runsOverItself, untyped, loop, Expr.nameUses_name simple, named]

end LocalDecl

namespace Declarations

variable {declarations : Declarations} {found other : LocalDecl}

/-- A dependence leads to a local that became visible earlier, or from the variable of a loop that
runs over itself back to it. -/
theorem DependsOn.earlier (ordered : declarations.HasOrderedLocals)
    (dependsOn : declarations.DependsOn found other) :
    other.visibleFrom < found.visibleFrom ∨ (other = found ∧ found.runsOverItself = true) := by
  rcases dependsOn.named with ⟨use, isUse, visible⟩
  rcases (of_visibleLocal? visible).1 with ⟨isLocal, nameIs, isVisible⟩
  rcases ordered.looksBackAt found dependsOn.isLocal other isLocal with rfl | looksBack
  · refine .inr ⟨rfl, ?_⟩
    cases ordered.isPlaced found dependsOn.isLocal with
    | behind _ before =>
      have := before use isUse
      have := isVisible.2
      omega
    | inFront loop _ =>
      exact LocalDecl.runsOverItself_iff.mpr
        ⟨dependsOn.untyped, ⟨_, loop⟩, use, isUse, nameIs.symm⟩
  · exact .inl (looksBack use isUse isVisible)

/-- The variable of a loop that runs over itself depends on itself. -/
theorem dependsOn_self (ordered : declarations.HasOrderedLocals)
    (isLocal : found ∈ declarations.locals) (runs : found.runsOverItself = true) :
    declarations.DependsOn found found := by
  rcases LocalDecl.runsOverItself_iff.mp runs with ⟨untyped, ⟨collection, loop⟩, use, isUse, nameIs⟩
  refine ⟨isLocal, untyped, use, isUse, ?_⟩
  have isVisible : found.IsVisibleAt use.offset := by
    cases ordered.isPlaced found isLocal with
    | behind noLoop _ => exact absurd loop (noLoop collection)
    | inFront _ sees => exact sees use isUse
  rcases exists_visibleLocal? isLocal isVisible with ⟨latest, latestIs⟩
  rw [nameIs, latestIs]
  rcases of_visibleLocal? latestIs with ⟨⟨isLatest, -, latestVisible⟩, bounds⟩
  -- every other local that the collection sees became visible before the variable of the loop
  rcases ordered.looksBackAt found isLocal latest isLatest with rfl | looksBack
  · rfl
  · have earlier := looksBack use isUse latestVisible
    have notLater := bounds found isLocal rfl isVisible
    omega

/-- A chain of dependences leads to an earlier local, or it stays at the variable of a loop that
runs over itself. -/
theorem earlier_of_transGen (ordered : declarations.HasOrderedLocals)
    (chain : Relation.TransGen declarations.DependsOn found other) :
    other.visibleFrom < found.visibleFrom ∨ (other = found ∧ found.runsOverItself = true) := by
  induction chain with
  | single dependsOn => exact dependsOn.earlier ordered
  | tail _ dependsOn ih =>
    rcases dependsOn.earlier ordered with earlier | ⟨rfl, _⟩
    · rcases ih with before | ⟨rfl, _⟩
      · exact .inl (Nat.lt_trans earlier before)
      · exact .inl earlier
    · exact ih

end Declarations

namespace TypeTable

variable {table : TypeTable} {expr : Expr}

/-- Binding the expression ends, however deep it has to go. -/
def Ends (table : TypeTable) (expr : Expr) : Prop :=
  ∃ depth bound, table.bindPlain depth expr = some bound

/-- Several bindings that end are found within one depth. -/
theorem exists_depth {exprs : List Expr} (ends : ∀ expr ∈ exprs, table.Ends expr) :
    ∃ depth, ∀ expr ∈ exprs, ∃ bound, table.bindPlain depth expr = some bound := by
  induction exprs with
  | nil => exact ⟨0, by simp⟩
  | cons expr exprs ih =>
    rcases ends expr List.mem_cons_self with ⟨depth, bound, bindsTo⟩
    rcases ih fun other member => ends other (List.mem_cons_of_mem _ member) with ⟨other, rest⟩
    refine ⟨max depth other, ?_⟩
    rw [List.forall_mem_cons]
    refine ⟨⟨bound, bindPlain_of_le (Nat.le_max_left _ _) bindsTo⟩, fun member isMember => ?_⟩
    rcases rest member isMember with ⟨bound, bindsTo⟩
    exact ⟨bound, bindPlain_of_le (Nat.le_max_right _ _) bindsTo⟩

/-- Binding an expression ends if it ends for everything that its step may ask for. -/
theorem ends_of_asked (asked : ∀ span, expr.span = some span →
    ∀ part ∈ table.asked span.start expr, table.Ends part) : table.Ends expr := by
  cases spanIs : expr.span with
  | none => exact ⟨0, _, bindPlain_of_span_eq_none spanIs⟩
  | some span =>
    rcases exists_depth (asked span spanIs) with ⟨depth, bound⟩
    have alike : ∀ part ∈ table.asked span.start expr, StepRelation.defined.Alike
        (table.plainBinder depth) (table.completedBinder depth) part := by
      intro part isAsked
      rcases bound part isAsked with ⟨bound, bindsTo⟩
      change table.bindPlain depth part = some ((table.bindPlain depth part).getD .unknown)
      rw [bindsTo]
      rfl
    have sameTable : (table.plainBinder depth).table = (table.completedBinder depth).table := rfl
    have step := StepRelation.rel_bindStep sameTable span.start alike
    exact ⟨depth + 1, _, (bindPlain_succ spanIs).trans step⟩

/-- A step asks for the parts of an expression, or for what the type of a local is inferred from
that a name of the expression stands for. -/
theorem of_mem_asked {span : Span} {part : Expr} (spanIs : expr.span = some span)
    (isAsked : part ∈ table.asked span.start expr) :
    part ∈ expr.children ∨ ∃ use ∈ expr.nameUses, ∃ found,
      table.document.visibleLocal? use.name use.offset = some found ∧ found.type = none ∧
        found.value.expr? = some part := by
  unfold asked at isAsked
  split at isAsked
  · rename_i name place
    split at isAsked
    · simp at isAsked
    · rename_i noArguments
      rw [Option.mem_toList, Option.bind_eq_some_iff] at isAsked
      rcases isAsked with ⟨found, visible, inferred⟩
      unfold LocalDecl.inferredFrom? at inferred
      split at inferred
      · cases inferred
      · rename_i untyped
        refine .inr ⟨⟨name.identifier, span.start⟩, ?_, found, visible, by simpa using untyped,
          inferred⟩
        refine List.mem_filterMap.mpr ⟨_, Expr.mem_walk_self _, ?_⟩
        rcases name with ⟨identifier, typeArguments, nameSpan⟩
        have none : typeArguments = none := by simpa using noArguments
        have placeIs : place = some span := spanIs
        rw [none, placeIs]
        rfl
  · exact .inl isAsked

/-- Binding an expression ends if it ends for what the types of the locals are inferred from that
its names stand for. -/
theorem ends_of_values {expr : Expr} (values : ∀ use ∈ expr.nameUses, ∀ found,
    table.document.visibleLocal? use.name use.offset = some found → found.type = none →
      ∀ value, found.value.expr? = some value → table.Ends value) : table.Ends expr := by
  apply ends_of_asked
  intro span spanIs part isAsked
  rcases of_mem_asked spanIs isAsked with isChild | ⟨use, isUse, found, visible, untyped, valueIs⟩
  · exact ends_of_values fun use isUse =>
      values use (Expr.mem_nameUses_of_mem_children isChild isUse)
  · exact values use isUse found visible untyped part valueIs
termination_by sizeOf expr
decreasing_by exact Expr.sizeOf_lt_of_mem_children isChild

end TypeTable

namespace TypeTable

variable {table : TypeTable}

/-- Binding what the type of a local is inferred from ends, unless it comes to a loop that runs over
itself. -/
theorem ends_of_inferred (ordered : table.document.HasOrderedLocals) {found : LocalDecl}
    {value : Expr} (isLocal : found ∈ table.document.locals) (untyped : found.type = none)
    (valueIs : found.value.expr? = some value) (notItself : found.runsOverItself = false)
    (grounded : ∀ other, table.document.Needs value other → other.runsOverItself = false) :
    table.Ends value := by
  apply ends_of_values
  intro use isUse other visible otherUntyped otherValue otherValueIs
  have needs : table.document.Needs value other := .named isUse visible
  have dependsOn : table.document.DependsOn found other :=
    ⟨isLocal, untyped, use, LocalDecl.nameUses_of_expr? valueIs ▸ isUse, visible⟩
  have earlier : other.visibleFrom < found.visibleFrom := by
    rcases dependsOn.earlier ordered with earlier | ⟨-, runs⟩
    · exact earlier
    · rw [notItself] at runs
      cases runs
  exact ends_of_inferred ordered needs.mem otherUntyped otherValueIs (grounded other needs)
    fun third further => grounded third (needs.of_value otherUntyped otherValueIs further)
termination_by found.visibleFrom

/-- Binding an expression ends unless one of its names leads to a loop that runs over itself. -/
theorem ends_of_grounded (ordered : table.document.HasOrderedLocals) {expr : Expr}
    (grounded : ∀ found, table.document.Needs expr found → found.runsOverItself = false) :
    table.Ends expr := by
  apply ends_of_values
  intro use isUse found visible untyped value valueIs
  have needs : table.document.Needs expr found := .named isUse visible
  exact ends_of_inferred ordered needs.mem untyped valueIs (grounded found needs)
    fun other further => grounded other (needs.of_value untyped valueIs further)

end TypeTable

namespace ParsedDocument

variable {source : String} {node : Node}

/-- In a document without errors a local depends on itself, directly or through others, only if it
is the variable of a loop whose collection has its name, and all other chains of dependences lead to
locals that became visible earlier. Binding an expression ends without a limit on the depth unless a
name leads to such a loop. -/
theorem inference_ends (isTree : node.IsTreeOf source) (noErrors : node.hasError = false) :
    (∀ found other, Relation.TransGen (ofNode source node).declarations.DependsOn found other →
      other.visibleFrom < found.visibleFrom ∨ (other = found ∧ found.runsOverItself = true)) ∧
    (∀ found, Relation.TransGen (ofNode source node).declarations.DependsOn found found ↔
      found ∈ (ofNode source node).declarations.locals ∧ found.runsOverItself = true) ∧
    ∀ expr, (∀ found, (ofNode source node).declarations.Needs expr found →
        found.runsOverItself = false) →
      ∃ depth bound, (ofNode source node).table.bindPlain depth expr = some bound := by
  have ordered := hasOrderedLocals (isTree noErrors)
  refine ⟨fun found other => Declarations.earlier_of_transGen ordered,
    fun found => ⟨fun chain => ?_, ?_⟩, fun expr grounded => ?_⟩
  · rcases Declarations.earlier_of_transGen ordered chain with earlier | ⟨-, runs⟩
    · exact absurd earlier (Nat.lt_irrefl _)
    · rcases Relation.TransGen.head'_iff.mp chain with ⟨_, dependsOn, -⟩
      exact ⟨dependsOn.isLocal, runs⟩
  · rintro ⟨isLocal, runs⟩
    exact .single (Declarations.dependsOn_self ordered isLocal runs)
  · change (ofNode source node).table.Ends expr
    exact TypeTable.ends_of_grounded ordered grounded

/-- A document in which the types of two locals are inferred from the variable of a loop. -/
def localsInLoop : String :=
  "class C \x7b void M(int[] a) \x7b foreach (var x in a) \x7b var y = x; var z = y; \x7d\x7d\x7d"

/-- No local of `localsInLoop` depends on itself, and binding ends for every expression. -/
theorem inference_ends_localsInLoop :
    (Node.ofSource localsInLoop).hasError = false ∧
      (ofSource localsInLoop).declarations.locals.map (·.name) = ["x", "y", "z"] ∧
      (∀ found, ¬Relation.TransGen (ofSource localsInLoop).declarations.DependsOn found found) ∧
      ∀ expr, ∃ depth bound, (ofSource localsInLoop).table.bindPlain depth expr = some bound := by
  obtain ⟨noErrors, areNamed, noLoop⟩ : (Node.ofSource localsInLoop).hasError = false ∧
      (ofSource localsInLoop).declarations.locals.map (·.name) = ["x", "y", "z"] ∧
      ∀ found ∈ (ofSource localsInLoop).declarations.locals, found.runsOverItself = false := by
    decide +kernel
  rcases inference_ends (Node.isTreeOf_ofSource localsInLoop) noErrors with ⟨-, itself, ends⟩
  refine ⟨noErrors, areNamed, fun found chain => ?_, fun expr => ?_⟩
  · rcases (itself found).mp chain with ⟨isLocal, runs⟩
    rw [noLoop found isLocal] at runs
    cases runs
  · exact ends expr fun found needs => noLoop found needs.mem

/-- If the collection of a loop is the name of its variable, then binding the collection never ends
but for a limit on the depth. -/
theorem bindPlain_collection_eq_none (isDocument : node.IsDocument source) {found : LocalDecl}
    {name : SimpleName} {span : Span}
    (isLocal : found ∈ (ofNode source node).declarations.locals) (untyped : found.type = none)
    (loop : found.value = .elementOf (.name name (some span)))
    (simple : name.typeArguments = none) (named : name.identifier = found.name) (depth : Nat) :
    (ofNode source node).table.bindPlain depth (.name name (some span)) = none := by
  have visible : (ofNode source node).table.document.visibleLocal? name.identifier span.start =
      some found := by
    have runs := LocalDecl.runsOverItself_of_name untyped loop simple named
    rcases (Declarations.dependsOn_self (hasOrderedLocals isDocument) isLocal runs).named with
      ⟨use, isUse, visible⟩
    rw [LocalDecl.nameUses_of_expr? (by rw [loop]; rfl), Expr.nameUses_name simple,
      List.mem_singleton] at isUse
    rw [isUse] at visible
    exact visible
  induction depth with
  | zero => exact TypeTable.bindPlain_zero rfl
  | succ depth ih =>
    rw [TypeTable.bindPlain_succ rfl]
    simp [Binder.bindStep, Binder.bindName, Binder.localType, simple, visible, untyped, loop,
      TypeTable.plainBinder, ih]

/-- A loop that runs over a field of the name of its variable. -/
def loopOverField : String :=
  "class C \x7b int[] items; void M() \x7b foreach (var items in items) \x7b F(items); \x7d\x7d\x7d"

/-- The document `loopOverField` has no syntax errors, the variable of its loop depends on itself,
and binding the collection of the loop never ends without a limit on the depth. -/
theorem inference_loops_loopOverField :
    (Node.ofSource loopOverField).hasError = false ∧
      ∃ found ∈ (ofSource loopOverField).declarations.locals, ∃ collection,
        found.value = .elementOf collection ∧
          (ofSource loopOverField).declarations.DependsOn found found ∧
          ∀ depth, (ofSource loopOverField).table.bindPlain depth collection = none := by
  obtain ⟨noErrors, shown⟩ : (Node.ofSource loopOverField).hasError = false ∧
      ((ofSource loopOverField).declarations.locals.map fun found =>
        (found.name, found.type.isNone, found.value.name, found.value.expr?.bind Expr.nameUse?)) =
          [("items", true, "ElementOf", some ⟨"items", 56⟩)] := by
    decide +kernel
  refine ⟨noErrors, ?_⟩
  rcases List.mem_map.mp (shown ▸ List.mem_singleton_self _) with ⟨found, isLocal, same⟩
  simp only [Prod.mk.injEq, Option.isNone_iff_eq_none] at same
  rcases same with ⟨nameIs, untyped, kind, isUse⟩
  cases loop : found.value with
  | none => simp [loop, LocalValue.name] at kind
  | initializer value => simp [loop, LocalValue.name] at kind
  | elementOf collection =>
    rw [loop] at isUse
    rcases Expr.exists_of_nameUse? isUse with ⟨name, span, rfl, simple, named, -⟩
    have named : name.identifier = found.name := by rw [named, nameIs]
    have runs := LocalDecl.runsOverItself_of_name untyped loop simple named
    have isDocument := Node.isDocument_ofSource loopOverField
    exact ⟨found, isLocal, _, loop,
      Declarations.dependsOn_self (hasOrderedLocals isDocument) isLocal runs,
      bindPlain_collection_eq_none isDocument isLocal untyped loop simple named⟩

end ParsedDocument

end AssertionLint
