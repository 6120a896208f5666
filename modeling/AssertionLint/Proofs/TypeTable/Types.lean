import AssertionLint.Proofs.Syntax.Shape
import AssertionLint.Proofs.TypeTable.Supertypes

/-!
# Types of a table

The types that can be named with the declarations of a table are built from declarations with as
many type arguments as they have type parameters, from arrays and from type parameters. Resolving a
written type, replacing type parameters and going to the supertypes leads to such types only
(`TypeTable.IsConsistent.isType_of_mem_supertypes`).
-/

namespace AssertionLint.TypeTable

/-- A type that can be named with the declarations of a table, or one that the language has by
itself. -/
inductive IsType (table : TypeTable) : TypeSymbol → Prop
  | declared {id : TypeId} {type : TypeDecl} {typeArguments : List TypeSymbol}
      (isDecl : table.decl? id = some type) (arity : typeArguments.length = type.arity)
      (areTypes : ∀ argument ∈ typeArguments, IsType table argument) :
      IsType table (table.symbolOf id typeArguments)
  | array {element : TypeSymbol} (isType : IsType table element) :
      IsType table (.arrayOf element)
  | typeParameter (name : String) : IsType table (.typeParameter name)
  | null : IsType table .nullLiteral
  | void : IsType table (.named "System" "Void" .void)
  | unresolved (name : String) : IsType table (.unresolved name)

/-- The kinds of the declared types can be declared, and a declaration is found by its full name and
by the number of its type parameters. -/
structure IsConsistent (table : TypeTable) : Prop where
  isDeclared : ∀ {id : TypeId} {type : TypeDecl}, table.decl? id = some type →
    type.kind.isDeclared = true
  found : ∀ {name : String} {arity : Nat} {id : TypeId}, table.find? name arity = some id →
    ∃ type, table.decl? id = some type ∧ type.arity = arity ∧ table.fullName id = name

theorem idOf?_of_isDeclared {table : TypeTable} {symbol : TypeSymbol}
    (isDeclared : symbol.kind.isDeclared = true) :
    table.idOf? symbol = table.find? symbol.fullName symbol.arity := by
  unfold idOf?
  split <;> simp_all [TypeKind.isDeclared]

theorem length_resolveAll {table : TypeTable} {scope : TypeScope} (written : List TypeExpr) :
    (table.resolveAll scope written).length = written.length := by
  induction written with
  | nil => rfl
  | cons first rest ih => rw [resolveAll, List.length_cons, ih, List.length_cons]

theorem exists_find?_of_lookup? {table : TypeTable} {scope : TypeScope} {name : String}
    {arity : Nat} {id : TypeId} (isFound : table.lookup? scope name arity = some id) :
    ∃ path, table.find? path arity = some id := by
  rcases (Option.orElse_eq_some _ _ _).mp isFound with inside | ⟨-, outside⟩
  · rcases List.exists_of_findSome?_eq_some inside with ⟨path, -, isFound⟩
    exact ⟨_, isFound⟩
  · rcases List.exists_of_findSome?_eq_some outside with ⟨path, -, isFound⟩
    exact ⟨_, isFound⟩

theorem exists_find?_of_lookupQualified? {table : TypeTable} {scope : TypeScope}
    {outer : TypeSymbol} {path : Option String} {name : String} {arity : Nat} {id : TypeId}
    (isFound : table.lookupQualified? scope outer path name arity = some id) :
    ∃ path, table.find? path arity = some id := by
  unfold lookupQualified? at isFound
  split at isFound
  · rcases Option.bind_eq_some_iff.mp isFound with ⟨path, -, isFound⟩
    rcases (Option.orElse_eq_some _ _ _).mp isFound with isFound | ⟨-, outside⟩
    · exact ⟨_, isFound⟩
    · rcases List.exists_of_findSome?_eq_some outside with ⟨path, -, isFound⟩
      exact ⟨_, isFound⟩
  · exact ⟨_, isFound⟩

theorem substituteAll_eq_map (substitution : Substitution) (types : List TypeSymbol) :
    TypeSymbol.substituteAll substitution types = types.map (·.substitute substitution) := by
  induction types with
  | nil => rfl
  | cons type rest ih => rw [TypeSymbol.substituteAll, ih, List.map_cons]

theorem substitute_eq (substitution : Substitution) {symbol : TypeSymbol}
    (noParameter : symbol.kind ≠ .typeParameter) :
    symbol.substitute substitution =
      { symbol with
        typeArguments := symbol.typeArguments.map (·.substitute substitution)
        elementType := symbol.elementType.map (·.substitute substitution) } := by
  rcases symbol with ⟨name, container, kind, special, typeArguments, elementType, isRefLike⟩
  rw [TypeSymbol.substitute.eq_def]
  dsimp only at noParameter ⊢
  rw [if_neg noParameter, substituteAll_eq_map]
  cases elementType <;> rfl

theorem mem_types_of_find?_ofLists {names : List String} {types : List TypeSymbol} {name : String}
    {type : TypeSymbol} (isFound : (Substitution.ofLists names types).find? name = some type) :
    type ∈ types := by
  have entries : ∀ entry ∈ (Substitution.ofLists names types).entries, entry.2 ∈ types := by
    unfold Substitution.ofLists
    refine List.foldlRecOn (motive := fun substitution : Substitution =>
      ∀ entry ∈ substitution.entries, entry.2 ∈ types) _ _ (by simp [Substitution.empty]) ?_
    rintro substitution before ⟨name, type⟩ isPair entry isEntry
    rcases List.mem_cons.mp isEntry with rfl | isOld
    · exact (List.of_mem_zip isPair).2
    · exact before entry isOld
  rcases Option.map_eq_some_iff.mp isFound with ⟨entry, isEntry, rfl⟩
  exact entries entry (List.mem_of_find?_eq_some isEntry)

namespace IsConsistent

variable {table : TypeTable} (consistent : table.IsConsistent) {name : String}
  {typeArguments : List TypeSymbol} {symbol base : TypeSymbol}

include consistent

theorem isType_found (areTypes : ∀ argument ∈ typeArguments, table.IsType argument)
    {id : Option TypeId}
    (isFound : ∀ place, id = some place →
      ∃ path, table.find? path typeArguments.length = some place) :
    table.IsType (table.found id name typeArguments) := by
  cases id with
  | none => exact .unresolved name
  | some id =>
    rcases isFound id rfl with ⟨path, isFound⟩
    rcases consistent.found isFound with ⟨type, isDecl, arity, -⟩
    exact .declared isDecl arity.symm areTypes

theorem isType_constructed (areTypes : ∀ argument ∈ typeArguments, table.IsType argument) :
    table.IsType (table.constructed name typeArguments) := by
  unfold constructed
  split
  · rename_i id isFound
    rcases consistent.found isFound with ⟨type, isDecl, arity, -⟩
    exact .declared isDecl arity.symm areTypes
  · exact .unresolved name

theorem isType_special (special : SpecialType) : table.IsType (table.special special) := by
  unfold TypeTable.special
  split
  · exact .void
  · split
    · exact consistent.isType_constructed (by simp)
    · exact .unresolved "?"

omit consistent

mutual

/-- Each written type stands for a type. -/
theorem isType_resolve (consistent : table.IsConsistent) (scope : TypeScope)
    (written : TypeExpr) :
    table.IsType (table.resolve scope written) := by
  cases written with
  | predefined keyword span =>
    rw [resolve]
    split
    · exact consistent.isType_special _
    · exact .unresolved keyword
  | named qualifier name typeArguments span =>
    have areTypes := isType_of_mem_resolveAll consistent scope typeArguments
    cases qualifier with
    | none =>
      rw [resolve]
      split
      · exact .typeParameter name
      · exact consistent.isType_found areTypes fun _ => exists_find?_of_lookup?
    | some qualifier =>
      rw [resolve]
      exact consistent.isType_found areTypes fun _ => exists_find?_of_lookupQualified?
  | array element rank span =>
    rw [resolve]
    exact .array (isType_resolve consistent scope element)
  | nullable inner span =>
    have isType := isType_resolve consistent scope inner
    rw [resolve]
    split
    · exact consistent.isType_constructed (List.forall_mem_singleton.mpr isType)
    · exact isType
  | inferred span => exact .unresolved "var"
  | other text span => exact .unresolved text

theorem isType_of_mem_resolveAll (consistent : table.IsConsistent) (scope : TypeScope)
    (written : List TypeExpr) :
    ∀ type ∈ table.resolveAll scope written, table.IsType type := by
  cases written with
  | nil => simp [resolveAll]
  | cons first rest =>
    rw [resolveAll]
    exact List.forall_mem_cons.mpr ⟨isType_resolve consistent scope first,
      isType_of_mem_resolveAll consistent scope rest⟩

end

include consistent

theorem substitute_symbolOf {id : TypeId} {type : TypeDecl} (substitution : Substitution)
    (isDecl : table.decl? id = some type) :
    (table.symbolOf id typeArguments).substitute substitution =
      table.symbolOf id (typeArguments.map (·.substitute substitution)) := by
  have isDeclared := consistent.isDeclared isDecl
  have noParameter : type.kind ≠ .typeParameter := by
    intro kind_eq
    rw [kind_eq] at isDeclared
    cases isDeclared
  rw [substitute_eq]
  · simp [symbolOf, isDecl, TypeSymbol.named, TypeSymbol.empty]
  · simpa [symbolOf, isDecl, TypeSymbol.named] using noParameter

/-- Types in the place of type parameters. -/
theorem isType_substitute {substitution : Substitution}
    (areTypes : ∀ name type, substitution.find? name = some type → table.IsType type)
    (isType : table.IsType symbol) : table.IsType (symbol.substitute substitution) := by
  induction isType with
  | declared isDecl arity _ ih =>
    rw [consistent.substitute_symbolOf substitution isDecl]
    refine .declared isDecl (by rw [List.length_map, arity]) ?_
    rw [List.forall_mem_map]
    exact ih
  | array _ ih =>
    rw [substitute_eq _ (by simp [TypeSymbol.arrayOf])]
    exact .array ih
  | typeParameter name =>
    rw [TypeSymbol.typeParameter, TypeSymbol.substitute.eq_def]
    dsimp only [TypeSymbol.empty]
    rw [if_pos rfl]
    cases isFound : substitution.find? name with
    | none => exact .typeParameter name
    | some type => exact areTypes name type isFound
  | null =>
    rw [substitute_eq _ (by simp [TypeSymbol.nullLiteral])]
    exact .null
  | void =>
    rw [substitute_eq _ (by simp [TypeSymbol.named])]
    exact .void
  | unresolved name =>
    rw [substitute_eq _ (by simp [TypeSymbol.unresolved, TypeSymbol.unknown])]
    exact .unresolved name

theorem isType_of_mem_declaredBases {id : TypeId} {type : TypeDecl} (isType : table.IsType symbol)
    (isBase : base ∈ table.declaredBases id type symbol) : table.IsType base := by
  rcases List.mem_map.mp (List.mem_of_mem_filter isBase) with ⟨written, isWritten, rfl⟩
  refine consistent.isType_substitute (fun name argument isFound => ?_)
    (isType_of_mem_resolveAll consistent _ _ written isWritten)
  have isArgument := mem_types_of_find?_ofLists isFound
  cases isType with
  | @declared id type typeArguments isDecl arity areTypes =>
    rw [symbolOf, isDecl] at isArgument
    exact areTypes argument isArgument
  | array | typeParameter | null | void | unresolved => cases isArgument

theorem isType_of_mem_directSupertypes (isType : table.IsType symbol)
    (isBase : base ∈ table.directSupertypes symbol) : table.IsType base := by
  have isObject := consistent.isType_special .object
  unfold directSupertypes at isBase
  split at isBase
  · have isElement : table.IsType (symbol.elementType.getD .unknown) := by
      cases isType with
      | array isType => exact isType
      | declared isDecl => simpa [symbolOf, isDecl, TypeSymbol.named] using .unresolved "?"
      | typeParameter | null | void | unresolved => exact .unresolved "?"
    rcases List.mem_cons.mp isBase with rfl | isInterface
    · exact consistent.isType_constructed (by simp)
    · rcases List.mem_map.mp isInterface with ⟨name, -, rfl⟩
      exact consistent.isType_constructed (List.forall_mem_singleton.mpr isElement)
  · rw [List.mem_singleton.mp isBase]
    exact isObject
  · simp at isBase
  · simp at isBase
  · simp at isBase
  · split at isBase
    · simp at isBase
    · rename_i id _
      split at isBase
      · simp at isBase
      · rename_i type _
        have ofBases (isBase : base ∈ table.declaredBases id type symbol) : table.IsType base :=
          consistent.isType_of_mem_declaredBases isType isBase
        dsimp only at isBase
        split at isBase
        · split at isBase
          · exact ofBases isBase
          · rcases List.mem_cons.mp isBase with rfl | isBase
            · exact isObject
            · exact ofBases isBase
        · rcases List.mem_cons.mp isBase with rfl | isBase
          · exact consistent.isType_special _
          · exact ofBases isBase
        · rw [List.mem_singleton.mp isBase]
          exact consistent.isType_constructed (by simp)
        · rw [List.mem_singleton.mp isBase]
          exact consistent.isType_constructed (by simp)
        · exact ofBases isBase

end IsConsistent

variable {table : TypeTable} {symbol type base : TypeSymbol}

/-- What holds of a type and with each type of its direct supertypes holds of all its
supertypes. -/
theorem supertypes_induction {motive : TypeSymbol → Prop} (starts : motive symbol)
    (step : ∀ type, motive type → ∀ base ∈ table.directSupertypes type, motive base)
    (isSupertype : type ∈ table.supertypes symbol) :
    motive type ∨ (symbol.kind = .interface ∧ type = table.object) := by
  have visit (seen round : List TypeSymbol)
      (holds : (∀ type ∈ seen, motive type) ∧ ∀ type ∈ round, motive type) :
      (∀ type ∈ (table.visit seen round).1, motive type) ∧
        ∀ type ∈ (table.visit seen round).2, motive type := by
    rcases table.exists_visit seen round with ⟨fresh, isFresh, visited⟩
    have ofFresh : ∀ type ∈ fresh, motive type :=
      fun type member => holds.2 type (isFresh.sublist.subset member)
    rw [visited]
    refine ⟨List.forall_mem_append.mpr ⟨holds.1, ofFresh⟩, fun base isBase => ?_⟩
    rcases List.mem_flatMap.mp isBase with ⟨type, member, isBase⟩
    exact step type (ofFresh type member) base isBase
  have start : (∀ type ∈ ([] : List TypeSymbol), motive type) ∧ ∀ type ∈ [symbol], motive type :=
    ⟨by simp, List.forall_mem_singleton.mpr starts⟩
  rcases exists_last_round visit maxSupertypes (by simp) start with ⟨-, ⟨holds, -⟩, -⟩
  unfold supertypes at isSupertype
  dsimp only at isSupertype
  split at isSupertype
  · rename_i isInterface
    rw [Bool.and_eq_true, decide_eq_true_eq] at isInterface
    rcases List.mem_append.mp isSupertype with found | isObject
    · exact .inl (holds type found)
    · exact .inr ⟨isInterface.1, List.mem_singleton.mp isObject⟩
  · exact .inl (holds type isSupertype)

theorem IsConsistent.isType_of_mem_supertypes (consistent : table.IsConsistent)
    (isType : table.IsType symbol) (isSupertype : type ∈ table.supertypes symbol) :
    table.IsType type := by
  rcases supertypes_induction isType
    (fun _ isType _ => consistent.isType_of_mem_directSupertypes isType) isSupertype with
    isType | ⟨-, rfl⟩
  · exact isType
  · exact consistent.isType_special .object

/-- If the search is not cut off, it finds the direct supertypes of everything that it finds. -/
theorem closed_of_length_lt
    (few : (table.closure maxSupertypes [] [symbol]).length < maxSupertypes) :
    ∀ type ∈ table.closure maxSupertypes [] [symbol],
      ∀ base ∈ table.directSupertypes type, base ∈ table.closure maxSupertypes [] [symbol] := by
  have visit (seen round : List TypeSymbol)
      (holds : seen.length < maxSupertypes →
        ∀ type ∈ seen, ∀ base ∈ table.directSupertypes type, base ∈ seen ∨ base ∈ round)
      (few : (table.visit seen round).1.length < maxSupertypes) :
      ∀ type ∈ (table.visit seen round).1, ∀ base ∈ table.directSupertypes type,
        base ∈ (table.visit seen round).1 ∨ base ∈ (table.visit seen round).2 := by
    rcases table.exists_visit seen round with ⟨fresh, isFresh, visited⟩
    rw [visited] at few ⊢
    intro type member base isBase
    rcases List.mem_append.mp member with isOld | isNew
    · have shorter : seen.length < maxSupertypes := by
        rw [List.length_append] at few
        omega
      rcases holds shorter type isOld base isBase with isSeen | isNext
      · exact .inl (List.mem_append_left _ isSeen)
      · exact .inl (isFresh.complete few base isNext)
    · exact .inr (List.mem_flatMap.mpr ⟨type, isNew, isBase⟩)
  have start : ([] : List TypeSymbol).length < maxSupertypes → ∀ type ∈ ([] : List TypeSymbol),
      ∀ base ∈ table.directSupertypes type, base ∈ ([] : List TypeSymbol) ∨ base ∈ [symbol] := by
    simp
  rcases exists_last_round visit maxSupertypes (by simp) start with ⟨last, holds, ends⟩
  have ended := ends.resolve_right (by omega)
  rw [ended] at holds
  intro type member base isBase
  exact (holds few type member base isBase).resolve_right List.not_mem_nil

/-- The supertypes of a type that leads to few types are among these, each of them once, and the
direct supertypes of each of them are among them as well. -/
theorem supertypes_of_few {types : List TypeSymbol} (few : types.length < maxSupertypes)
    (starts : symbol ∈ types)
    (closed : ∀ type ∈ types, ∀ base ∈ table.directSupertypes type, base ∈ types)
    (noInterface : symbol.kind ≠ .interface) :
    (∀ type ∈ table.supertypes symbol, type ∈ types) ∧ (table.supertypes symbol).Nodup ∧
      ∀ type ∈ table.supertypes symbol, ∀ base ∈ table.directSupertypes type,
        base ∈ table.supertypes symbol := by
  have inside : ∀ type ∈ table.supertypes symbol, type ∈ types := by
    intro type isSupertype
    have isListed := supertypes_induction (motive := (· ∈ types)) starts closed isSupertype
    exact isListed.resolve_right fun isInterface => noInterface isInterface.1
  have supertypes_eq : table.supertypes symbol = table.closure maxSupertypes [] [symbol] := by
    simp [supertypes, noInterface]
  rw [supertypes_eq] at inside ⊢
  rcases table.closure_isLimited symbol with ⟨nodup, -⟩
  exact ⟨inside, nodup, closed_of_length_lt ((nodup.subperm inside).length_le.trans_lt few)⟩

end AssertionLint.TypeTable
