import AssertionLint.Proofs.Binding.Answers

/-!
# Groups of methods

Where a name stands for methods, it stands for a group of them: the methods of its name that a type
has, and the extensions of its name, if there is a value in front of the dot. A call resolves to a
method of the group that its target stands for. So the model of a document takes a call only for a
method with the name that the call ends with (`ParsedDocument.resolvesByName_totalBinder`).
-/

namespace AssertionLint

/-- Only extensions take the receiver of a call as an argument. -/
structure MethodGroup.IsWellFormed (group : MethodGroup) : Prop where
  members : ∀ candidate ∈ group.candidates, candidate.isReduced = false
  extensions : ∀ candidate ∈ group.extensions, candidate.isReduced = true

/-- The methods of the group have this name. -/
structure MethodGroup.IsNamed (group : MethodGroup) (name : String) : Prop
    extends group.IsWellFormed where
  named : ∀ candidate, candidate ∈ group.candidates ∨ candidate ∈ group.extensions →
    candidate.method.name = name

namespace TypeTable

variable {table : TypeTable} {group : MethodGroup} {candidate : MethodCandidate}

theorem of_mem_memberMethods {owner : MemberOwner} {name : String}
    (member : candidate ∈ memberMethods owner name) :
    candidate.isReduced = false ∧ candidate.method.name = name := by
  rcases List.mem_map.mp member with ⟨⟨method, place⟩, found, rfl⟩
  have passes := (List.mem_filter.mp found).2
  simp only [Bool.and_eq_true, beq_iff_eq] at passes
  exact ⟨rfl, passes.2⟩

theorem of_mem_extensionMethods {scope : TypeScope} {name : String}
    (member : candidate ∈ table.extensionMethods scope name) :
    candidate.isReduced = true ∧ candidate.method.name = name := by
  rcases List.mem_flatMap.mp member with ⟨id, -, declared⟩
  split at declared
  · cases declared
  · rcases List.mem_map.mp declared with ⟨written, isWritten, rfl⟩
    rcases List.mem_map.mp isWritten with ⟨⟨method, place⟩, found, rfl⟩
    have passes := (List.mem_filter.mp found).2
    simp only [Bool.and_eq_true, beq_iff_eq] at passes
    exact ⟨rfl, passes.2⟩

theorem not_methods_of_memberValue? {owner : MemberOwner} {name : String} :
    table.memberValue? owner name ≠ some (.methods group) := by
  unfold memberValue?
  split
  · simp
  · simp

theorem isNamed_of_member {scope : TypeScope} {type : TypeSymbol} {name : SimpleName}
    {receiver : Option TypeSymbol}
    (found : table.member scope type name receiver = .methods group) :
    group.IsNamed name.identifier := by
  unfold member at found
  dsimp only at found
  split at found
  · rename_i value isValue
    split at isValue
    · rcases Option.bind_eq_some_iff.mp isValue with ⟨owner, -, isMember⟩
      exact absurd (found ▸ isMember) not_methods_of_memberValue?
    · cases isValue
  · have ofExtensions (extensions : List MethodCandidate)
        (areExtensions : ∀ candidate ∈ extensions,
          candidate.isReduced = true ∧ candidate.method.name = name.identifier)
        (isGroup : (if ((table.memberOwners type).flatMap fun owner =>
          memberMethods owner name.identifier).isEmpty && extensions.isEmpty then .unknown
          else .methods ⟨receiver, table.writtenArguments scope name,
            (table.memberOwners type).flatMap fun owner => memberMethods owner name.identifier,
            extensions⟩) = Bound.methods group) : group.IsNamed name.identifier := by
      split at isGroup <;> cases isGroup
      have areMembers : ∀ candidate ∈ (table.memberOwners type).flatMap fun owner =>
          memberMethods owner name.identifier,
          candidate.isReduced = false ∧ candidate.method.name = name.identifier := by
        intro candidate member
        rcases List.mem_flatMap.mp member with ⟨owner, -, isMethod⟩
        exact of_mem_memberMethods isMethod
      refine ⟨⟨fun candidate member => (areMembers candidate member).1,
        fun candidate member => (areExtensions candidate member).1⟩, ?_⟩
      rintro candidate (member | member)
      · exact (areMembers candidate member).2
      · exact (areExtensions candidate member).2
    cases receiver with
    | none => exact ofExtensions [] (by simp) found
    | some receiver =>
      refine ofExtensions (if receiver.isUnknown then [] else
        table.extensionMethods scope name.identifier) (fun candidate member => ?_) found
      split at member
      · cases member
      · exact of_mem_extensionMethods member

theorem isNamed_of_bindOuterName {scope : TypeScope} {name : SimpleName}
    (found : table.bindOuterName scope name = .methods group) :
    group.IsNamed name.identifier := by
  unfold bindOuterName at found
  dsimp only at found
  split at found
  · rename_i bound isInside
    subst found
    rcases List.exists_of_findSome?_eq_some isInside with ⟨index, -, isKnown⟩
    have isMember : table.member scope (table.selfType ⟨.document, index⟩) name none =
        .methods group := by
      unfold Bound.known? at isKnown
      split at isKnown
      · cases isKnown
      · exact Option.some.inj isKnown
    exact isNamed_of_member isMember
  · split at found
    · cases found
    · split at found <;> cases found

theorem eq_methods_of_bindInside {scope : TypeScope} {path : String} {name : SimpleName}
    {otherwise : Bound} (found : table.bindInside scope path name otherwise = .methods group) :
    otherwise = .methods group := by
  unfold bindInside at found
  dsimp only at found
  split at found
  · cases found
  · exact found

theorem isNamed_of_bindMember {scope : TypeScope} {target : Bound} {name : SimpleName}
    (found : table.bindMember scope target name = .methods group) :
    group.IsNamed name.identifier := by
  unfold bindMember at found
  split at found
  · have inside := eq_methods_of_bindInside found
    split at inside <;> cases inside
  · exact isNamed_of_member (eq_methods_of_bindInside found)
  · exact isNamed_of_member found
  · cases found
  · cases found

end TypeTable

theorem Bound.ofType?_ne_methods {type : Option TypeSymbol} {group : MethodGroup} :
    Bound.ofType? type ≠ .methods group := by
  cases type <;> simp [ofType?, ofType]

theorem Binder.getD_bindOperator?_ne_methods {binder : Binder Id} {token : String}
    {operands : List Expr} {types : List TypeSymbol} {type : Option TypeSymbol}
    {group : MethodGroup} :
    (Id.run (binder.bindOperator? token operands types)).getD (.ofType? type) ≠
      .methods group := by
  simp only [bindOperator?, Bind.bind, pure, Id.run]
  split
  · exact Bound.ofType?_ne_methods
  · rcases binder.table.resolveAmong? _ _ _ with _ | method
    · exact Bound.ofType?_ne_methods
    · simp [Bound.ofMethod]

/-- Where one step of binding finds methods, they are a group of the name that the expression ends
with. -/
theorem Binder.isNamed_of_bindStep {binder : Binder Id} {offset : Nat} {expr : Expr}
    {group : MethodGroup} (found : Id.run (binder.bindStep offset expr) = .methods group) :
    ∃ name, expr.trailingName? = some name ∧ group.IsNamed name.identifier := by
  cases expr with
  | name name span =>
    refine ⟨name, rfl, ?_⟩
    simp only [bindStep, bindName, Bind.bind, pure, Id.run] at found
    split at found
    · exact TypeTable.isNamed_of_bindOuterName found
    · split at found
      · cases found
      · split at found
        · cases found
        · exact TypeTable.isNamed_of_bindOuterName found
  | memberAccess target name span => exact ⟨name, rfl, TypeTable.isNamed_of_bindMember found⟩
  | invocation target arguments span =>
    simp only [bindStep, bindInvocation, Bind.bind, pure, Id.run] at found
    split at found
    · split at found <;> cases found
    · split at found
      · split at found <;> cases found
      · cases found
    · cases found
  | parenthesized inner span =>
    simp only [bindStep, Bind.bind, pure, Id.run] at found
    split at found <;> cases found
  | binary operator left right span =>
    simp only [bindStep, bindBinary, Bind.bind, pure, Id.run] at found
    split at found
    · exact absurd found getD_bindOperator?_ne_methods
    · exact absurd found Bound.ofType?_ne_methods
  | unary operator operand span =>
    simp only [bindStep, bindUnary, Bind.bind, pure, Id.run] at found
    split at found
    · cases found
    · exact absurd found getD_bindOperator?_ne_methods
  | literal | conditional => exact absurd found Bound.ofType?_ne_methods
  | arrayCreation elementType elements span =>
    cases elementType with
    | none => exact absurd found Bound.ofType?_ne_methods
    | some type => cases found
  | thisInstance span =>
    simp only [bindStep, TypeTable.bindInstance, pure, Id.run] at found
    split at found <;> cases found
  | _ => cases found

namespace TypeTable

variable {table : TypeTable} {group : MethodGroup} {slots : List ArgumentSlot}
  {explicit : List TypeSymbol} {candidates : List MethodCandidate} {candidate : MethodCandidate}
  {applicable : ApplicableMethod}

theorem applicable_of_mem_applicableMethods
    (member : (candidate, applicable) ∈ table.applicableMethods slots explicit candidates) :
    candidate ∈ candidates ∧ table.applicable? slots explicit candidate = some applicable := by
  refine List.foldlRecOn (motive := fun kept : List (MethodCandidate × ApplicableMethod) =>
    ∀ entry ∈ kept, entry.1 ∈ candidates ∧ table.applicable? slots explicit entry.1 = some entry.2)
    candidates _ (by simp) ?_ _ member
  intro kept areApplicable next isNext
  split
  · exact areApplicable
  · rename_i found isFound
    split
    · exact areApplicable
    · intro entry isEntry
      rcases List.mem_append.mp isEntry with earlier | now
      · exact areApplicable entry earlier
      · rw [List.mem_singleton.mp now]
        exact ⟨isNext, isFound⟩

theorem mem_of_best? {methods : List (MethodCandidate × ApplicableMethod)}
    {entry : MethodCandidate × ApplicableMethod} (isBest : table.best? slots methods = some entry) :
    entry ∈ methods := by
  rcases Option.map_eq_some_iff.mp isBest with ⟨⟨_, index⟩, found, rfl⟩
  exact (List.mem_zipIdx_iff_getElem?.mp (List.mem_of_find?_eq_some found)) |>
    List.mem_of_getElem?

/-- The best of several candidates for a call with some arguments in front. -/
def bestBehind? (table : TypeTable) (slots : List ArgumentSlot) (explicit : List TypeSymbol)
    (front : List ArgumentSlot) (candidates : List MethodCandidate) :
    Option (List ArgumentSlot × MethodCandidate × ApplicableMethod) :=
  (table.best? (front ++ slots)
    (table.applicableMethods (front ++ slots) explicit candidates)).map fun best => (front, best)

/-- The candidate of a group that a call resolves to, in the form that it is applicable in, and what
it takes in front of the arguments of the call. -/
def chosen? (table : TypeTable) (group : MethodGroup) (slots : List ArgumentSlot) :
    Option (List ArgumentSlot × MethodCandidate × ApplicableMethod) :=
  table.bestBehind? slots group.typeArguments [] group.candidates <|>
    group.receiver.bind fun receiver =>
      table.bestBehind? slots group.typeArguments [⟨none, none, some receiver⟩] group.extensions

theorem resolveOverload?_eq_map_chosen? :
    table.resolveOverload? group slots = (table.chosen? group slots).map fun chosen =>
      methodSymbol chosen.2.1 chosen.2.2 := by
  have ofBest (front : List ArgumentSlot) (candidates : List MethodCandidate) :
      table.resolveAmong? candidates (front ++ slots) group.typeArguments =
        (table.bestBehind? slots group.typeArguments front candidates).map fun chosen =>
          methodSymbol chosen.2.1 chosen.2.2 := by
    simp only [resolveAmong?, bestBehind?, Option.map_map]
    rfl
  have member := ofBest [] group.candidates
  rw [List.nil_append] at member
  rw [resolveOverload?, chosen?, Option.orElse_eq_orElse, member]
  cases table.bestBehind? slots group.typeArguments [] group.candidates with
  | some best => rfl
  | none =>
    cases group.receiver with
    | none => rfl
    | some receiver => exact ofBest [⟨none, none, some receiver⟩] group.extensions

theorem applicable_of_bestBehind? {front behind : List ArgumentSlot}
    (isBest : table.bestBehind? slots explicit front candidates =
      some (behind, candidate, applicable)) :
    behind = front ∧ candidate ∈ candidates ∧
      table.applicable? (front ++ slots) explicit candidate = some applicable := by
  rcases Option.map_eq_some_iff.mp isBest with ⟨best, isBest, same⟩
  cases same
  exact ⟨rfl, applicable_of_mem_applicableMethods (mem_of_best? isBest)⟩

/-- What is chosen is applicable, and it is a candidate or else an extension of the receiver. -/
theorem mem_of_chosen? {front : List ArgumentSlot}
    (isChosen : table.chosen? group slots = some (front, candidate, applicable)) :
    table.applicable? (front ++ slots) group.typeArguments candidate = some applicable ∧
      (front = [] ∧ candidate ∈ group.candidates ∨
        ∃ receiver, front = [⟨none, none, some receiver⟩] ∧ candidate ∈ group.extensions) := by
  rw [chosen?, Option.orElse_eq_orElse, Option.orElse_eq_or, Option.or_eq_some_iff] at isChosen
  rcases isChosen with isMember | ⟨-, isExtension⟩
  · rcases applicable_of_bestBehind? isMember with ⟨rfl, isCandidate, isApplicable⟩
    exact ⟨isApplicable, .inl ⟨rfl, isCandidate⟩⟩
  · rcases Option.bind_eq_some_iff.mp isExtension with ⟨receiver, -, isBest⟩
    rcases applicable_of_bestBehind? isBest with ⟨rfl, isCandidate, isApplicable⟩
    exact ⟨isApplicable, .inr ⟨receiver, rfl, isCandidate⟩⟩

/-- A call resolves to a method of the name of its group. -/
theorem name_of_resolveOverload? {name : String} {method : MethodSymbol}
    (isNamed : group.IsNamed name) (resolved : table.resolveOverload? group slots = some method) :
    method.name = name := by
  rw [resolveOverload?_eq_map_chosen?] at resolved
  rcases Option.map_eq_some_iff.mp resolved with ⟨⟨front, candidate, applicable⟩, isChosen, rfl⟩
  refine isNamed.named candidate ?_
  rcases (mem_of_chosen? isChosen).2 with ⟨-, isCandidate⟩ | ⟨receiver, -, isExtension⟩
  · exact .inl isCandidate
  · exact .inr isExtension

end TypeTable

namespace Binder

variable {binder : Binder Id} {expr : Expr}

theorem resolveMethod_eq_some_iff {method : MethodSymbol} :
    Id.run (binder.toModel.resolveMethod expr) = some method ↔
      (Id.run (binder.bind expr)).symbol? = some (.method method) := by
  simp only [toModel, Bind.bind, pure, Id.run]
  split
  · rename_i found isFound
    rw [isFound]
    simp
  · rename_i notMethod
    exact iff_of_false (by simp) (notMethod method)

/-- If a method is found for a call, then its target stands for a group of methods, and resolution
has found the method in this group. -/
theorem exists_of_bindInvocation {target : Expr} {arguments : List Argument}
    {method : MethodSymbol} (found : (Id.run (binder.bindInvocation target arguments)).symbol? =
      some (.method method)) :
    ∃ group, Id.run (binder.bind target) = .methods group ∧
      binder.table.resolveOverload? group
        (arguments.map fun argument => Id.run (binder.argumentSlot argument)) = some method := by
  simp only [bindInvocation, Bind.bind, Id.run] at found
  split at found
  · rename_i group calls
    refine ⟨group, calls, ?_⟩
    rw [← List.idRun_mapM]
    split at found
    · rename_i resolved isResolved
      cases found
      exact isResolved
    · cases found
  · split at found
    · split at found <;> cases found
    · cases found
  · cases found

end Binder

/-- If the computation gives a result, then it is this one. -/
def StepRelation.completes : StepRelation Option Id where
  Rel computation result := ∀ answer, computation = some answer → Id.run result = answer
  pure _ _ same := Option.some.inj same
  bind := by
    intro α β computation result next rest first then_ answer answered
    rcases Option.bind_eq_some_iff.mp answered with ⟨middle, computed, nextIs⟩
    cases first middle computed
    exact then_ _ answer nextIs

namespace TypeTable

variable {table : TypeTable} {depth : Nat} {expr : Expr} {group : MethodGroup}

/-- Binding without memory, with nothing known of what nests deeper than `depth`. -/
def completedBinder (table : TypeTable) (depth : Nat) : Binder Id :=
  ⟨table, fun expr => (table.bindPlain depth expr).getD .unknown⟩

theorem related_completedBinder (table : TypeTable) (depth : Nat) :
    Binder.Related .completes (fun _ => True) (table.plainBinder depth)
      (table.completedBinder depth) := by
  refine ⟨rfl, table.isClosed_univ, ?_⟩
  intro expr _ bound bindsTo
  change table.bindPlain depth expr = some bound at bindsTo
  change (table.bindPlain depth expr).getD .unknown = bound
  rw [bindsTo]
  rfl

/-- What is known of an expression is found in one step from bindings that nest less deep. -/
theorem exists_bindStep_of_bind
    (known : Id.run ((table.completedBinder depth).bind expr) ≠ .unknown) :
    ∃ less offset, Id.run ((table.completedBinder less).bindStep offset expr) =
      Id.run ((table.completedBinder depth).bind expr) := by
  change (table.bindPlain depth expr).getD .unknown ≠ .unknown at known
  change ∃ less offset, _ = (table.bindPlain depth expr).getD .unknown
  cases bindsTo : table.bindPlain depth expr with
  | none => simp [bindsTo] at known
  | some bound =>
    rw [bindsTo] at known
    cases spanIs : expr.span with
    | none =>
      rw [bindPlain_of_span_eq_none spanIs] at bindsTo
      cases bindsTo
      exact absurd rfl known
    | some span =>
      cases depth with
      | zero =>
        rw [bindPlain_zero spanIs] at bindsTo
        cases bindsTo
      | succ less =>
        rw [bindPlain_succ spanIs] at bindsTo
        exact ⟨less, span.start,
          (table.related_completedBinder less).bindStep span.start trivial bound bindsTo⟩

theorem isNamed_of_bind
    (calls : Id.run ((table.completedBinder depth).bind expr) = .methods group) :
    ∃ name, expr.trailingName? = some name ∧ group.IsNamed name.identifier := by
  have known : Id.run ((table.completedBinder depth).bind expr) ≠ .unknown := by
    rw [calls]
    simp
  rcases exists_bindStep_of_bind known with ⟨less, offset, step⟩
  exact Binder.isNamed_of_bindStep (step.trans calls)

/-- A call is taken only for a method with the name that the call ends with. -/
theorem resolvesByName_completedBinder (table : TypeTable) (depth : Nat) :
    (table.completedBinder depth).toModel.ResolvesByName := by
  intro call method isCall resolved
  rw [Binder.resolveMethod_eq_some_iff] at resolved
  have known : Id.run ((table.completedBinder depth).bind call) ≠ .unknown := by
    intro unknown
    rw [unknown] at resolved
    cases resolved
  rcases exists_bindStep_of_bind known with ⟨less, offset, step⟩
  rw [← step] at resolved
  cases call with
  | invocation target arguments span =>
    rcases Binder.exists_of_bindInvocation resolved with ⟨group, calls, found⟩
    rcases isNamed_of_bind calls with ⟨name, nameIs, isNamed⟩
    rw [Expr.trailingName?, nameIs, Option.map_some, name_of_resolveOverload? isNamed found]
  | _ => cases isCall

end TypeTable

/-- The model of a document takes a call only for a method with the name that the call ends with. -/
theorem ParsedDocument.resolvesByName_totalBinder (document : ParsedDocument) :
    document.totalBinder.toModel.ResolvesByName :=
  document.table.resolvesByName_completedBinder TypeTable.maxBindDepth

end AssertionLint
