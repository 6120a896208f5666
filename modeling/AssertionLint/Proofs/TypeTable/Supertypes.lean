import AssertionLint.Binding.Document
import Mathlib.Data.Set.Card
import Mathlib.Logic.Function.Iterate
import Mathlib.Order.Lattice.Nat

/-!
# The closure of the direct supertypes

Declarations may be cyclic, and generic ones may have bases that grow without end, so the supertypes
of a type are only a part of what its direct supertypes reach. Taken one by one from a queue, the
search comes to an end with an empty queue (`SupertypeSearch`), each type is found once, and there
are never more than the limit allows. If the reachable types are fewer than that, the search finds
exactly these, and a type in front of another one is no further away
(`TypeTable.supertypes_isClosure`).

What carries the proof is the round: after some rounds the types found are those that fewer steps
reach, and the next round holds all that are left of those that exactly so many steps reach
(`TypeTable.IsSearched`).
-/

namespace AssertionLint

/-- The types found so far, in the order in which they were found, and those still to be looked
at. -/
structure SupertypeSearch where
  found : List TypeSymbol
  waiting : List TypeSymbol

namespace TypeTable

/-- The first type in the queue is looked at. If it was found before, or if there are enough types,
it is dropped; else its direct supertypes are put at the end of the queue. -/
def searchNext (table : TypeTable) : SupertypeSearch → SupertypeSearch
  | ⟨found, []⟩ => ⟨found, []⟩
  | ⟨found, type :: waiting⟩ =>
    if maxSupertypes ≤ found.length || found.contains type then ⟨found, waiting⟩
    else ⟨found ++ [type], waiting ++ table.directSupertypes type⟩

/-- A type is reached from another one in a number of steps, each to a direct supertype. -/
inductive ReachesIn (table : TypeTable) (symbol : TypeSymbol) : Nat → TypeSymbol → Prop
  | start : ReachesIn table symbol 0 symbol
  | step {steps : Nat} {type base : TypeSymbol} (reaches : ReachesIn table symbol steps type)
      (isBase : base ∈ table.directSupertypes type) : ReachesIn table symbol (steps + 1) base

/-- The types that the direct supertypes of a type lead to. -/
def reachable (table : TypeTable) (symbol : TypeSymbol) : Set TypeSymbol :=
  {type | ∃ steps, table.ReachesIn symbol steps type}

/-- The least number of steps to a type. -/
noncomputable def distance (table : TypeTable) (symbol type : TypeSymbol) : Nat :=
  sInf {steps | table.ReachesIn symbol steps type}

variable {table : TypeTable} {symbol type : TypeSymbol} {seen round : List TypeSymbol}

theorem ReachesIn.distance_le {steps : Nat} (reaches : table.ReachesIn symbol steps type) :
    table.distance symbol type ≤ steps :=
  Nat.sInf_le reaches

theorem ReachesIn.reachesIn_distance {steps : Nat} (reaches : table.ReachesIn symbol steps type) :
    table.ReachesIn symbol (table.distance symbol type) type :=
  Nat.sInf_mem (s := {steps | table.ReachesIn symbol steps type}) ⟨steps, reaches⟩

/-- The types reachable from a type are among those of a list that has the type and, with each of
its members, the direct supertypes of this member. -/
theorem reachable_subset_of_closed {types : List TypeSymbol} (starts : symbol ∈ types)
    (closed : ∀ type ∈ types, ∀ base ∈ table.directSupertypes type, base ∈ types) :
    table.reachable symbol ⊆ {type | type ∈ types} := by
  rintro type ⟨steps, reaches⟩
  induction reaches with
  | start => exact starts
  | step _ isBase ih => exact closed _ ih _ isBase

/-- What one round adds to the types found so far. -/
structure IsFresh (seen round fresh : List TypeSymbol) : Prop where
  sublist : fresh.Sublist round
  unseen : ∀ type ∈ fresh, type ∉ seen
  nodup : fresh.Nodup
  limited : seen.length ≤ maxSupertypes → (seen ++ fresh).length ≤ maxSupertypes
  complete : (seen ++ fresh).length < maxSupertypes → ∀ type ∈ round, type ∈ seen ++ fresh

theorem IsFresh.nodup_append {fresh : List TypeSymbol} (isFresh : IsFresh seen round fresh)
    (nodup : seen.Nodup) : (seen ++ fresh).Nodup := by
  refine List.nodup_append.mpr ⟨nodup, isFresh.nodup, ?_⟩
  rintro type isSeen other member rfl
  exact isFresh.unseen type member isSeen

/-- A round adds some of its types to those found so far, and the next round consists of their
direct supertypes. -/
theorem exists_visit (table : TypeTable) (seen round : List TypeSymbol) :
    ∃ fresh, IsFresh seen round fresh ∧
      table.visit seen round = (seen ++ fresh, fresh.flatMap table.directSupertypes) := by
  induction round generalizing seen with
  | nil => exact ⟨[], ⟨.slnil, by simp, .nil, by simp, by simp⟩, by simp [visit]⟩
  | cons type rest ih =>
    rw [visit]
    -- a type is left out because the closure is full or because it was seen before
    split
    · rename_i dropped
      rcases ih seen with ⟨fresh, isFresh, visited⟩
      refine ⟨fresh, ⟨isFresh.sublist.cons _, isFresh.unseen, isFresh.nodup, isFresh.limited, ?_⟩,
        visited⟩
      intro few
      refine List.forall_mem_cons.mpr ⟨?_, isFresh.complete few⟩
      simp only [Bool.or_eq_true, decide_eq_true_eq, List.contains_iff_mem] at dropped
      rcases dropped with full | isSeen
      · rw [List.length_append] at few
        omega
      · exact List.mem_append_left _ isSeen
    · rename_i taken
      simp only [Bool.or_eq_true, decide_eq_true_eq, List.contains_iff_mem, not_or] at taken
      rcases ih (seen ++ [type]) with ⟨fresh, isFresh, visited⟩
      rw [visited]
      refine ⟨type :: fresh, ⟨isFresh.sublist.cons_cons _, ?_, ?_, ?_, ?_⟩, by simp⟩
      · refine List.forall_mem_cons.mpr ⟨taken.2, fun other member isSeen => ?_⟩
        exact isFresh.unseen other member (List.mem_append_left _ isSeen)
      · refine List.nodup_cons.mpr ⟨fun again => ?_, isFresh.nodup⟩
        exact isFresh.unseen type again (by simp)
      · intro _
        have limited := isFresh.limited (by
          rw [List.length_append, List.length_singleton]
          omega)
        simpa using limited
      · intro few
        have complete := isFresh.complete (by simpa using few)
        refine List.forall_mem_cons.mpr ⟨by simp, fun other member => ?_⟩
        simpa using complete other member

/-- Looking at all types of a round puts those of the next round behind what waits already. -/
theorem iterate_searchNext_visit (table : TypeTable) (seen round behind : List TypeSymbol) :
    table.searchNext^[round.length] ⟨seen, round ++ behind⟩ =
      ⟨(table.visit seen round).1, behind ++ (table.visit seen round).2⟩ := by
  induction round generalizing seen behind with
  | nil => simp [visit]
  | cons type rest ih =>
    rw [List.length_cons, Function.iterate_succ_apply, List.cons_append, searchNext, visit]
    split
    · exact ih seen behind
    · rw [List.append_assoc, ih]
      simp

theorem visit_of_full (full : maxSupertypes ≤ seen.length) (round : List TypeSymbol) :
    table.visit seen round = (seen, []) := by
  induction round with
  | nil => rfl
  | cons type rest ih => rw [visit, if_pos (by simp [full]), ih]

theorem closure_nil (table : TypeTable) (rounds : Nat) (seen : List TypeSymbol) :
    table.closure rounds seen [] = seen := by
  cases rounds <;> rfl

/-- What every round keeps holds of the whole search, which ends with an empty round unless there
are enough types. -/
theorem exists_last_round {motive : List TypeSymbol → List TypeSymbol → Prop}
    (step : ∀ seen round, motive seen round →
      motive (table.visit seen round).1 (table.visit seen round).2)
    (rounds : Nat) (enough : maxSupertypes ≤ rounds + seen.length) (holds : motive seen round) :
    ∃ last, motive (table.closure rounds seen round) last ∧
      (last = [] ∨ maxSupertypes ≤ (table.closure rounds seen round).length) := by
  induction rounds generalizing seen round with
  | zero => exact ⟨round, holds, .inr (by simpa [closure] using enough)⟩
  | succ rounds ih =>
    rcases round with _ | ⟨type, rest⟩
    · exact ⟨[], holds, .inl rfl⟩
    · have next := step seen (type :: rest) holds
      rw [closure]
      rcases table.exists_visit seen (type :: rest) with ⟨fresh, -, visited⟩
      rw [visited] at next ⊢
      rcases fresh with _ | ⟨first, others⟩
      · rw [List.flatMap_nil] at next ⊢
        dsimp only
        rw [closure_nil]
        exact ⟨[], next, .inl rfl⟩
      · refine ih ?_ next
        simp only [List.length_append, List.length_cons]
        omega

/-- The search with a queue ends, with the types that the rounds give. -/
theorem exists_iterate_searchNext (table : TypeTable) (symbol : TypeSymbol) :
    ∃ steps, table.searchNext^[steps] ⟨[], [symbol]⟩ =
      ⟨table.closure maxSupertypes [] [symbol], []⟩ := by
  have step (seen round : List TypeSymbol)
      (searched : ∃ steps, table.searchNext^[steps] ⟨[], [symbol]⟩ = ⟨seen, round⟩) :
      ∃ steps, table.searchNext^[steps] ⟨[], [symbol]⟩ =
        ⟨(table.visit seen round).1, (table.visit seen round).2⟩ := by
    rcases searched with ⟨steps, searched⟩
    refine ⟨round.length + steps, ?_⟩
    have next := table.iterate_searchNext_visit seen round []
    rw [List.append_nil, List.nil_append] at next
    rw [Function.iterate_add_apply, searched, next]
  rcases exists_last_round step maxSupertypes (by simp) ⟨0, rfl⟩ with
    ⟨last, searched, rfl | full⟩
  · exact searched
  · have drained := step _ _ searched
    rwa [visit_of_full full] at drained

/-- Every type is found once, the first one is where the search starts, and there are no more types
than the limit allows. -/
theorem closure_isLimited (table : TypeTable) (symbol : TypeSymbol) :
    (table.closure maxSupertypes [] [symbol]).Nodup ∧
      (table.closure maxSupertypes [] [symbol]).length ≤ maxSupertypes ∧
      (table.closure maxSupertypes [] [symbol]).head? = some symbol := by
  have step (seen round : List TypeSymbol)
      (kept : seen.Nodup ∧ seen.length ≤ maxSupertypes ∧
        (seen.head? = some symbol ∨ seen = [] ∧ round = [symbol])) :
      (table.visit seen round).1.Nodup ∧ (table.visit seen round).1.length ≤ maxSupertypes ∧
        ((table.visit seen round).1.head? = some symbol ∨
          (table.visit seen round).1 = [] ∧ (table.visit seen round).2 = [symbol]) := by
    rcases kept with ⟨nodup, limited, starts⟩
    rcases table.exists_visit seen round with ⟨fresh, isFresh, visited⟩
    rw [visited]
    refine ⟨isFresh.nodup_append nodup, isFresh.limited limited, .inl ?_⟩
    rcases starts with starts | ⟨rfl, rfl⟩
    · rw [List.head?_append, starts, Option.some_or]
    · rcases List.sublist_singleton.mp isFresh.sublist with rfl | rfl
      · exact absurd (isFresh.complete (by decide)) (by simp)
      · rfl
  rcases exists_last_round step maxSupertypes (by simp)
    ⟨.nil, by simp, .inr ⟨rfl, rfl⟩⟩ with ⟨last, ⟨nodup, limited, starts⟩, ends⟩
  refine ⟨nodup, limited, starts.resolve_right ?_⟩
  rintro ⟨isEmpty, rfl⟩
  rw [isEmpty] at ends
  simp [maxSupertypes] at ends

theorem head?_supertypes (table : TypeTable) (symbol : TypeSymbol) :
    (table.supertypes symbol).head? = some symbol := by
  rcases table.closure_isLimited symbol with ⟨-, -, starts⟩
  unfold supertypes
  dsimp only
  split
  · rw [List.head?_append, starts, Option.some_or]
  · exact starts

theorem length_lt_of_few (few : (table.reachable symbol).encard < maxSupertypes)
    {types : List TypeSymbol} (nodup : types.Nodup)
    (inside : ∀ type ∈ types, type ∈ table.reachable symbol) : types.length < maxSupertypes := by
  have counted : (types.length : ℕ∞) ≤ (table.reachable symbol).encard := by
    rw [← List.toFinset_card_of_nodup nodup, ← Set.encard_coe_eq_coe_finsetCard]
    exact Set.encard_le_encard fun type member => inside type (by simpa using member)
  exact_mod_cast counted.trans_lt few

/-- The types found so far are those that fewer than `steps` steps reach, the nearest ones first,
and those that exactly `steps` steps reach are found or come next. -/
structure IsSearched (table : TypeTable) (symbol : TypeSymbol) (steps : Nat)
    (seen round : List TypeSymbol) : Prop where
  nodup : seen.Nodup
  mem_iff : ∀ type, type ∈ seen ↔ ∃ fewer < steps, table.ReachesIn symbol fewer type
  sound : ∀ type ∈ round, table.ReachesIn symbol steps type
  complete : ∀ type, table.ReachesIn symbol steps type → type ∈ seen ∨ type ∈ round
  ordered : (seen.map (table.distance symbol)).Pairwise (· ≤ ·)

theorem isSearched_start (table : TypeTable) (symbol : TypeSymbol) :
    table.IsSearched symbol 0 [] [symbol] where
  nodup := .nil
  mem_iff := by simp
  sound := by
    rintro type member
    rw [List.mem_singleton.mp member]
    exact .start
  complete := by
    rintro type ⟨⟩
    exact .inr (List.mem_singleton_self symbol)
  ordered := .nil

namespace IsSearched

variable {steps : Nat}

theorem distance_eq (searched : table.IsSearched symbol steps seen round) (member : type ∈ round)
    (unseen : type ∉ seen) : table.distance symbol type = steps := by
  have reaches := searched.sound type member
  refine Nat.le_antisymm reaches.distance_le (Nat.le_of_not_lt fun nearer => unseen ?_)
  exact (searched.mem_iff type).mpr ⟨_, nearer, reaches.reachesIn_distance⟩

theorem subset_reachable (searched : table.IsSearched symbol steps seen round) :
    ∀ type ∈ seen, type ∈ table.reachable symbol := by
  intro type member
  rcases (searched.mem_iff type).mp member with ⟨fewer, -, reaches⟩
  exact ⟨fewer, reaches⟩

variable {fresh : List TypeSymbol}

/-- If nothing of the round is left out, one more round finds the types that one more step
reaches. -/
theorem mem_append_iff (searched : table.IsSearched symbol steps seen round)
    (isFresh : IsFresh seen round fresh) (complete : ∀ type ∈ round, type ∈ seen ++ fresh)
    (type : TypeSymbol) :
    type ∈ seen ++ fresh ↔ ∃ fewer < steps + 1, table.ReachesIn symbol fewer type := by
  constructor
  · intro member
    rcases List.mem_append.mp member with member | member
    · rcases (searched.mem_iff type).mp member with ⟨fewer, lt, reaches⟩
      exact ⟨fewer, by omega, reaches⟩
    · exact ⟨steps, by omega, searched.sound type (isFresh.sublist.subset member)⟩
  · rintro ⟨fewer, lt, reaches⟩
    rcases Nat.lt_succ_iff_lt_or_eq.mp lt with lt | rfl
    · exact List.mem_append_left _ ((searched.mem_iff type).mpr ⟨fewer, lt, reaches⟩)
    · rcases searched.complete type reaches with member | member
      · exact List.mem_append_left _ member
      · exact complete type member

/-- What a round adds is further away than what was found before, and all of it equally far. -/
theorem pairwise_distance_append (searched : table.IsSearched symbol steps seen round)
    (isFresh : IsFresh seen round fresh) :
    ((seen ++ fresh).map (table.distance symbol)).Pairwise (· ≤ ·) := by
  have fresh_eq (type : TypeSymbol) (member : type ∈ fresh) : table.distance symbol type = steps :=
    searched.distance_eq (isFresh.sublist.subset member) (isFresh.unseen type member)
  rw [List.map_append, List.pairwise_append]
  refine ⟨searched.ordered, ?_, ?_⟩
  · rw [List.pairwise_map]
    refine List.pairwise_of_forall_mem_list fun one isOne other isOther => ?_
    rw [fresh_eq one isOne, fresh_eq other isOther]
  · simp only [List.forall_mem_map]
    intro one isOne other isOther
    rcases (searched.mem_iff one).mp isOne with ⟨fewer, lt, reaches⟩
    rw [fresh_eq other isOther]
    exact Nat.le_of_lt (Nat.lt_of_le_of_lt reaches.distance_le lt)

/-- One more round searches the types that one more step reaches. -/
theorem visit (few : (table.reachable symbol).encard < maxSupertypes)
    (searched : table.IsSearched symbol steps seen round) :
    table.IsSearched symbol (steps + 1) (table.visit seen round).1
      (table.visit seen round).2 := by
  rcases table.exists_visit seen round with ⟨fresh, isFresh, visited⟩
  rw [visited]
  have sound (type : TypeSymbol) (member : type ∈ fresh) : table.ReachesIn symbol steps type :=
    searched.sound type (isFresh.sublist.subset member)
  have inside : ∀ type ∈ seen ++ fresh, type ∈ table.reachable symbol := by
    intro type member
    rcases List.mem_append.mp member with member | member
    · exact searched.subset_reachable type member
    · exact ⟨steps, sound type member⟩
  have nodup := isFresh.nodup_append searched.nodup
  -- the limit is not met, so the whole round is found
  have mem_iff := searched.mem_append_iff isFresh
    (isFresh.complete (length_lt_of_few few nodup inside))
  refine ⟨nodup, mem_iff, ?_, ?_, searched.pairwise_distance_append isFresh⟩
  · intro base member
    rcases List.mem_flatMap.mp member with ⟨type, member, isBase⟩
    exact .step (sound type member) isBase
  · rintro base (_ | ⟨reaches, isBase⟩)
    rename_i type
    rcases List.mem_append.mp ((mem_iff type).mpr ⟨steps, by omega, reaches⟩) with
      member | member
    · rcases (searched.mem_iff type).mp member with ⟨fewer, lt, reaches⟩
      exact .inl ((mem_iff base).mpr ⟨fewer + 1, by omega, .step reaches isBase⟩)
    · exact .inr (List.mem_flatMap.mpr ⟨type, member, isBase⟩)

/-- Where nothing is left to be looked at, all reachable types are found. -/
theorem mem_of_reachable (searched : table.IsSearched symbol steps seen []) :
    ∀ type ∈ table.reachable symbol, type ∈ seen := by
  have found (type : TypeSymbol) (reaches : table.ReachesIn symbol steps type) : type ∈ seen :=
    (searched.complete type reaches).resolve_right (by simp)
  rintro type ⟨taken, reaches⟩
  induction reaches with
  | start =>
    rcases Nat.eq_zero_or_pos steps with rfl | positive
    · exact found symbol .start
    · exact (searched.mem_iff symbol).mpr ⟨0, positive, .start⟩
  | step _ isBase ih =>
    rcases (searched.mem_iff _).mp ih with ⟨fewer, lt, reaches⟩
    rcases Nat.lt_or_eq_of_le (Nat.succ_le_of_lt lt) with lt | same
    · exact (searched.mem_iff _).mpr ⟨fewer + 1, lt, .step reaches isBase⟩
    · exact found _ (same ▸ .step reaches isBase)

end IsSearched

/-- If there are few of them, the search finds exactly the reachable types, the nearest ones
first. -/
theorem closure_of_few (few : (table.reachable symbol).encard < maxSupertypes) :
    {type | type ∈ table.closure maxSupertypes [] [symbol]} = table.reachable symbol ∧
      ((table.closure maxSupertypes [] [symbol]).map (table.distance symbol)).Pairwise
        (· ≤ ·) := by
  rcases exists_last_round
    (motive := fun seen round => ∃ steps, table.IsSearched symbol steps seen round)
    (fun seen round => fun ⟨steps, searched⟩ => ⟨steps + 1, searched.visit few⟩)
    maxSupertypes (by simp) ⟨0, table.isSearched_start symbol⟩ with
    ⟨last, ⟨steps, searched⟩, ends⟩
  have notFull := length_lt_of_few few searched.nodup searched.subset_reachable
  rcases ends with rfl | full
  · refine ⟨?_, searched.ordered⟩
    exact Set.Subset.antisymm searched.subset_reachable searched.mem_of_reachable
  · omega

/-- The supertypes of a type start with the type, none of them comes twice, and one more than the
limit is the most there are. They are what the search with a queue ends with, and behind that the
type of all objects, if the type is an interface and the search has not found it. If fewer types
than the limit are reachable, then the search has found exactly these, and none of them is further
away than one behind it. -/
theorem supertypes_isClosure (table : TypeTable) (symbol : TypeSymbol) :
    ∃ found, (∃ steps, table.searchNext^[steps] ⟨[], [symbol]⟩ = ⟨found, []⟩) ∧
      table.supertypes symbol =
        found ++ (if symbol.kind = .interface ∧ table.object ∉ found then [table.object]
          else []) ∧
      (table.supertypes symbol).head? = some symbol ∧ (table.supertypes symbol).Nodup ∧
      (table.supertypes symbol).length ≤ maxSupertypes + 1 ∧
      ((table.reachable symbol).encard < maxSupertypes →
        {type | type ∈ found} = table.reachable symbol ∧
          (found.map (table.distance symbol)).Pairwise (· ≤ ·)) := by
  rcases table.closure_isLimited symbol with ⟨nodup, limited, starts⟩
  have supertypes_eq : table.supertypes symbol = table.closure maxSupertypes [] [symbol] ++
      (if symbol.kind = .interface ∧ table.object ∉ table.closure maxSupertypes [] [symbol] then
        [table.object] else []) := by
    simp only [supertypes, Bool.and_eq_true, decide_eq_true_eq, Bool.not_eq_true',
      List.contains_eq_mem, decide_eq_false_iff_not]
    split <;> simp
  refine ⟨_, table.exists_iterate_searchNext symbol, supertypes_eq, ?_, ?_, ?_, closure_of_few⟩
  · rw [supertypes_eq, List.head?_append, starts, Option.some_or]
  · rw [supertypes_eq]
    split
    · rename_i isMissing
      refine List.nodup_append.mpr ⟨nodup, List.nodup_singleton _, ?_⟩
      rintro type member other isObject rfl
      exact isMissing.2 (List.mem_singleton.mp isObject ▸ member)
    · rwa [List.append_nil]
  · rw [supertypes_eq, List.length_append]
    split <;> simp <;> omega

/-- Three interfaces, two of which derive from each other and both from the third one. -/
def cyclicInterfaces : TypeTable :=
  (ParsedDocument.ofSource "interface A : B, C { } interface B : C, A { } interface C { }").table
where
  first : TypeSymbol := .named "" "A" .interface
  interfaces : List TypeSymbol := [first, .named "" "B" .interface, .named "" "C" .interface]

theorem reachable_cyclicInterfaces :
    cyclicInterfaces.reachable cyclicInterfaces.first ⊆
      {type | type ∈ cyclicInterfaces.interfaces} :=
  reachable_subset_of_closed (by decide) (by decide +kernel)

/-- The supertypes of an interface in a cycle are the three interfaces, each of them once, and the
type of all objects. -/
theorem supertypes_isClosure_cyclicInterfaces :
    (cyclicInterfaces.reachable cyclicInterfaces.first).encard < maxSupertypes ∧
      (∃ steps, cyclicInterfaces.searchNext^[steps] ⟨[], [cyclicInterfaces.first]⟩ =
        ⟨cyclicInterfaces.interfaces, []⟩) ∧
      cyclicInterfaces.supertypes cyclicInterfaces.first =
        cyclicInterfaces.interfaces ++ [cyclicInterfaces.object] ∧
      {type | type ∈ cyclicInterfaces.interfaces} =
        cyclicInterfaces.reachable cyclicInterfaces.first ∧
      (cyclicInterfaces.interfaces.map
        (cyclicInterfaces.distance cyclicInterfaces.first)).Pairwise (· ≤ ·) := by
  have few : (cyclicInterfaces.reachable cyclicInterfaces.first).encard < maxSupertypes := by
    have finite : {type | type ∈ cyclicInterfaces.interfaces} =
        ((cyclicInterfaces.interfaces.toFinset : Finset TypeSymbol) : Set TypeSymbol) := by
      ext type
      simp
    have counted := Set.encard_le_encard reachable_cyclicInterfaces
    rw [finite, Set.encard_coe_eq_coe_finsetCard] at counted
    refine counted.trans_lt ?_
    exact_mod_cast (List.toFinset_card_le _).trans_lt (by decide : 3 < maxSupertypes)
  have listed : cyclicInterfaces.supertypes cyclicInterfaces.first =
      cyclicInterfaces.interfaces ++ [cyclicInterfaces.object] := by
    decide +kernel
  rcases supertypes_isClosure cyclicInterfaces cyclicInterfaces.first with
    ⟨found, searched, supertypes_eq, -, -, -, ofFew⟩
  rcases ofFew few with ⟨exactly, ordered⟩
  have isMissing : cyclicInterfaces.object ∉ found := by
    intro member
    have isReachable : cyclicInterfaces.object ∈
        cyclicInterfaces.reachable cyclicInterfaces.first := exactly ▸ member
    exact absurd (reachable_cyclicInterfaces isReachable) (by decide +kernel)
  rw [if_pos ⟨rfl, isMissing⟩, listed] at supertypes_eq
  have found_eq := List.append_cancel_right supertypes_eq
  subst found_eq
  exact ⟨few, searched, listed, exactly, ordered⟩

end TypeTable

end AssertionLint
