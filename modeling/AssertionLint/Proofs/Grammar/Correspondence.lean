import AssertionLint.CSharp.Grammar.Operands
import AssertionLint.Proofs.Syntax.Shape

/-!
# Reading two documents side by side

Two documents whose tokens differ only in their places are read in the same way: every rule of the
grammar fails on both or takes the same number of tokens from both, and what it builds corresponds.
What corresponding means is left open: `Correspondence` asks for a relation on nodes, indexed by
the range of tokens that a node is built from, that is closed under the few ways in which the
grammar builds nodes. With one document on both sides, such a relation is an invariant of the
concrete syntax.

`Reads` says that two readers correspond from every position on. It has one lemma per combinator
here, and one per rule of the grammar in the modules that follow.
-/

namespace AssertionLint

namespace Reader

variable {α β : Type} (tokens : Array Token) (position : Nat)

theorem bind_apply (reader : Reader α) (following : α → Reader β) :
    (reader >>= following) tokens position =
      (reader tokens position).bind fun x => following x.1 tokens x.2 := rfl

theorem orElse_apply (reader other : Reader α) :
    (reader <|> other) tokens position =
      (reader tokens position).or (other tokens position) := by
  cases read : reader tokens position <;> simp [HOrElse.hOrElse, OrElse.orElse, Alternative.orElse,
    ReaderT.orElse, StateT.orElse, read]

end Reader

namespace Grammar

open Reader

/-- From the start of the first token of a range to the end of the last one. -/
def coverOf (tokens : Array Token) (start stop : Nat) : Span :=
  ⟨(tokens[start]?.map (·.span.start)).getD 0, (tokens[stop - 1]?.map (·.span.stop)).getD 0⟩

/-- The tokens of a range follow each other without a gap and make up a text. -/
inductive Spelled (tokens : Array Token) : Nat → Nat → String → Prop
  | single {start : Nat} {token : Token} (isToken : tokens[start]? = some token) :
      Spelled tokens start (start + 1) token.text
  | cons {start stop : Nat} {token next : Token} {text : String}
      (isToken : tokens[start]? = some token) (isNext : tokens[start + 1]? = some next)
      (touches : token.span.stop = next.span.start) (rest : Spelled tokens (start + 1) stop text) :
      Spelled tokens start stop (token.text ++ text)

theorem Spelled.range {tokens : Array Token} {start stop : Nat} {text : String}
    (spelled : Spelled tokens start stop text) : start < stop ∧ stop ≤ tokens.size := by
  induction spelled with
  | single isToken => exact ⟨Nat.lt_succ_self _, (Array.getElem?_eq_some_iff.mp isToken).1⟩
  | cons _ _ _ _ ih => exact ⟨by omega, ih.2⟩

/-- Values that are read one behind the other. -/
inductive Chain {α : Type} (V : Nat → Nat → α → α → Prop) : Nat → Nat → List α → List α → Prop
  | nil {start : Nat} : Chain V start start [] []
  | cons {start middle stop : Nat} {x y : α} {xs ys : List α} (first : V start middle x y)
      (following : Chain V middle stop xs ys) : Chain V start stop (x :: xs) (y :: ys)

/-- A value that may be missing. -/
inductive Maybe {α : Type} (V : Nat → Nat → α → α → Prop) :
    Nat → Nat → Option α → Option α → Prop
  | none {start : Nat} : Maybe V start start none none
  | some {start stop : Nat} {x y : α} (present : V start stop x y) :
      Maybe V start stop (some x) (some y)

namespace Chain

variable {α : Type} {V W : Nat → Nat → α → α → Prop} {start middle stop : Nat}
  {x y : α} {xs ys : List α}

theorem single (only : V start stop x y) : Chain V start stop [x] [y] :=
  .cons only .nil

theorem append {xs' ys' : List α} (front : Chain V start middle xs ys)
    (back : Chain V middle stop xs' ys') : Chain V start stop (xs ++ xs') (ys ++ ys') := by
  induction front with
  | nil => exact back
  | cons first _ ih => exact .cons first (ih back)

theorem mono (chain : Chain V start stop xs ys)
    (weaker : ∀ {start stop : Nat} {x y : α}, V start stop x y → W start stop x y) :
    Chain W start stop xs ys := by
  induction chain with
  | nil => exact .nil
  | cons first _ ih => exact .cons (weaker first) ih

theorem flatten {xss yss : List (List α)} (chain : Chain (Chain V) start stop xss yss) :
    Chain V start stop xss.flatten yss.flatten := by
  induction chain with
  | nil => exact .nil
  | cons first _ ih => exact first.append ih

theorem length_eq (chain : Chain V start stop xs ys) : ys.length = xs.length := by
  induction chain with
  | nil => rfl
  | cons _ _ ih => simp [ih]

theorem isEmpty_eq (chain : Chain V start stop xs ys) : ys.isEmpty = xs.isEmpty := by
  cases chain <;> rfl

/-- What every value of a chain is like. -/
theorem forall_mem {P : α → Prop} (chain : Chain V start stop xs ys)
    (all : ∀ {start stop : Nat} {x y : α}, V start stop x y → P x) : ∀ x ∈ xs, P x := by
  induction chain with
  | nil => simp
  | cons first _ ih =>
    rw [List.forall_mem_cons]
    exact ⟨all first, ih⟩

end Chain

namespace Maybe

variable {α : Type} {V : Nat → Nat → α → α → Prop} {start stop : Nat} {x y : Option α}

theorem toList (possible : Maybe V start stop x y) : Chain V start stop x.toList y.toList := by
  cases possible with
  | none => exact .nil
  | some present => exact .single present

/-- The values behind functions that keep them related. -/
theorem map {β : Type} {W : Nat → Nat → β → β → Prop} {f g : α → β}
    (possible : Maybe V start stop x y)
    (related : ∀ {x y : α}, V start stop x y → W start stop (f x) (g y)) :
    Maybe W start stop (x.map f) (y.map g) := by
  cases possible with
  | none => exact .none
  | some present => exact .some (related present)

theorem isSome_eq (possible : Maybe V start stop x y) : y.isSome = x.isSome := by
  cases possible <;> rfl

end Maybe

/-- A relation between the nodes that are read from two documents, closed under the ways in which
nodes are built. -/
structure Correspondence (left right : Array Token) where
  /-- The nodes are built from the tokens of the range. -/
  Part : Nat → Nat → Node → Node → Prop
  size_eq : right.size = left.size
  alike : ∀ {position : Nat} {token other : Token}, left[position]? = some token →
    right[position]? = some other → other.kind = token.kind ∧ other.text = token.text
  touching : ∀ {position : Nat} {token token' other other' : Token},
    left[position]? = some token → left[position + 1]? = some token' →
      right[position]? = some other → right[position + 1]? = some other' →
        (other.span.stop = other'.span.start ↔ token.span.stop = token'.span.start)
  leaf : ∀ {form : Form} {start stop : Nat} {text : String}, Spelled left start stop text →
    form.text? = some text →
      Part start stop (.leaf form (coverOf left start stop))
        (.leaf form (coverOf right start stop))
  branch : ∀ {form : Form} {start stop : Nat} {xs ys : List Node}, Chain Part start stop xs ys →
    form.Admits xs → Part start stop (.branch form xs) (.branch form ys)
  withRole : ∀ (role : Role) {start stop : Nat} {x y : Node}, Part start stop x y →
    (role.holdsOperand = true → x.IsOperand) →
      Part start stop (x.withRole role) (y.withRole role)
  /-- The token `&&` in front of an operand is two operators. -/
  doubled : ∀ {start stop : Nat} {token other : Token} {x y : Node},
    left[start]? = some token → right[start]? = some other → token.is "&&" = true →
      Part (start + 1) stop x y → x.IsOperand →
        Part start stop
          (.branch .prefixUnary [.leaf (.token "&") ⟨token.span.start, token.span.start + 1⟩,
            .branch .prefixUnary
              [.leaf (.token "&") ⟨token.span.start + 1, token.span.stop⟩, x]])
          (.branch .prefixUnary [.leaf (.token "&") ⟨other.span.start, other.span.start + 1⟩,
            .branch .prefixUnary
              [.leaf (.token "&") ⟨other.span.start + 1, other.span.stop⟩, y]])
  form_eq : ∀ {start stop : Nat} {x y : Node}, Part start stop x y → y.form = x.form
  isAssignable_eq : ∀ {start stop : Nat} {x y : Node}, Part start stop x y →
    isAssignable y = isAssignable x

namespace Correspondence

variable {left right : Array Token}

/-- The readers both fail at a position, or both stop at the same place with values that are
related. -/
def At {α : Type} (_ : Correspondence left right) (position : Nat) (V : Nat → α → α → Prop)
    (reader other : Reader α) : Prop :=
  (reader left position = none ∧ other right position = none) ∨
    ∃ x y stop, reader left position = some (x, stop) ∧ other right position = some (y, stop) ∧
      V stop x y

/-- The readers correspond from every position on. -/
def Reads {α : Type} (C : Correspondence left right) (V : Nat → Nat → α → α → Prop)
    (reader other : Reader α) : Prop :=
  ∀ position, C.At position (V position) reader other

/-- The readers look ahead and give the same answer. -/
def Looks {α : Type} (C : Correspondence left right) (reader other : Reader α) : Prop :=
  C.Reads (fun start stop x y => stop = start ∧ y = x) reader other

variable {C : Correspondence left right} {α β : Type} {position : Nat}

section Sequencing

variable {V : Nat → α → α → Prop} {W : Nat → β → β → Prop} {reader other : Reader α}
  {following following' : α → Reader β}

theorem At.pure {x y : α} (related : V position x y) :
    C.At position V (pure x) (pure y) :=
  .inr ⟨x, y, position, rfl, rfl, related⟩

theorem At.failure : C.At position V failure failure :=
  .inl ⟨rfl, rfl⟩

theorem At.mono {V' : Nat → α → α → Prop} (at_ : C.At position V reader other)
    (weaker : ∀ {stop : Nat} {x y : α}, V stop x y → V' stop x y) :
    C.At position V' reader other := by
  rcases at_ with failed | ⟨x, y, stop, one, two, related⟩
  · exact .inl failed
  · exact .inr ⟨x, y, stop, one, two, weaker related⟩

theorem At.bind (first : C.At position V reader other)
    (then_ : ∀ stop x y, V stop x y → C.At stop W (following x) (following' y)) :
    C.At position W (reader >>= following) (other >>= following') := by
  unfold At
  rw [bind_apply, bind_apply]
  rcases first with ⟨one, two⟩ | ⟨x, y, stop, one, two, related⟩
  · exact .inl ⟨by rw [one]; rfl, by rw [two]; rfl⟩
  · rw [one, two]
    exact then_ stop x y related

theorem At.orElse {second second' : Reader α} (first : C.At position V reader other)
    (rest : C.At position V second second') :
    C.At position V (reader <|> second) (other <|> second') := by
  unfold At
  rw [orElse_apply, orElse_apply]
  rcases first with ⟨one, two⟩ | ⟨x, y, stop, one, two, related⟩
  · rw [one, two]
    exact rest
  · exact .inr ⟨x, y, stop, by rw [one]; rfl, by rw [two]; rfl, related⟩

theorem At.ite {condition condition' : Bool} (same : condition' = condition)
    {first first' second second' : Reader α}
    (positive : condition = true → C.At position V first first')
    (negative : condition = false → C.At position V second second') :
    C.At position V (if condition then first else second)
      (if condition' then first' else second') := by
  subst same
  cases condition' with
  | true => exact positive rfl
  | false => exact negative rfl

theorem At.check {condition condition' : Bool} {next next' : Unit → Reader β}
    (same : condition' = condition)
    (then_ : condition = true → C.At position W (next ()) (next' ())) :
    C.At position W (Reader.check condition >>= next) (Reader.check condition' >>= next') := by
  subst same
  cases condition' with
  | true => exact then_ rfl
  | false => exact .inl ⟨rfl, rfl⟩

theorem Looks.bind (looks : C.Looks reader other)
    (then_ : ∀ answer, C.At position W (following answer) (following' answer)) :
    C.At position W (reader >>= following) (other >>= following') := by
  apply (looks position).bind
  rintro stop x y ⟨rfl, rfl⟩
  exact then_ _

end Sequencing

section Readers

variable {V W : Nat → Nat → α → α → Prop} {reader other : Reader α}

theorem Reads.bind {U : Nat → β → β → Prop} {following following' : α → Reader β}
    (first : C.Reads V reader other)
    (then_ : ∀ stop x y, V position stop x y → C.At stop U (following x) (following' y)) :
    C.At position U (reader >>= following) (other >>= following') :=
  (first position).bind then_

theorem Reads.mono (reads : C.Reads V reader other)
    (weaker : ∀ {start stop : Nat} {x y : α}, V start stop x y → W start stop x y) :
    C.Reads W reader other :=
  fun start => (reads start).mono weaker

theorem Reads.orElse {second second' : Reader α} (first : C.Reads V reader other)
    (rest : C.Reads V second second') : C.Reads V (reader <|> second) (other <|> second') :=
  fun start => (first start).orElse (rest start)

theorem Reads.maybe (reads : C.Reads V reader other) :
    C.Reads (Maybe V) (maybe reader) (maybe other) := by
  intro start
  apply At.orElse
  · rw [map_eq_pure_bind, map_eq_pure_bind]
    apply reads.bind
    intro stop x y present
    exact .pure (.some present)
  · exact .pure .none

theorem Reads.maybeAll {reader other : Reader (List α)} (reads : C.Reads (Chain V) reader other) :
    C.Reads (Chain V) (maybeAll reader) (maybeAll other) :=
  fun start => (reads start).orElse (.pure .nil)

theorem Reads.many (reads : C.Reads V reader other) :
    C.Reads (Chain V) (many reader) (many other) := by
  intro start
  have both : (manyFrom other right start).2 = (manyFrom reader left start).2 ∧
      Chain V start (manyFrom reader left start).2 (manyFrom reader left start).1
        (manyFrom other right start).1 := by
    fun_induction manyFrom reader left start with
    | case1 start value next taken moves following stop rest ih =>
      rcases reads start with ⟨failed, -⟩ | ⟨x, y, stop', one, two, related⟩
      · rw [taken] at failed
        cases failed
      · rw [taken] at one
        cases one
        rw [manyFrom, two]
        simp only [C.size_eq, moves, and_self, ↓reduceIte]
        rw [rest] at ih
        exact ⟨ih.1, .cons related ih.2⟩
    | case2 start value next taken stays =>
      rcases reads start with ⟨failed, -⟩ | ⟨x, y, stop', one, two, related⟩
      · rw [taken] at failed
        cases failed
      · rw [taken] at one
        cases one
        rw [manyFrom, two]
        simp only [C.size_eq, stays, ↓reduceIte]
        exact ⟨trivial, .nil⟩
    | case3 start failed =>
      rcases reads start with ⟨-, two⟩ | ⟨x, y, stop', one, two, related⟩
      · rw [manyFrom, two]
        exact ⟨rfl, .nil⟩
      · rw [failed] at one
        cases one
  exact .inr ⟨_, _, _, rfl, congrArg (fun stop => some (_, stop)) both.1, both.2⟩

theorem At.iterate {U : Nat → α → α → Prop} {extend extend' : α → Reader α} {x y : α}
    (extends_ : ∀ stop x y, U stop x y → C.At stop U (extend x) (extend' y))
    (related : U position x y) : C.At position U (iterate extend x) (iterate extend' y) := by
  have both : (iterateFrom extend' right position y).2 =
        (iterateFrom extend left position x).2 ∧
      U (iterateFrom extend left position x).2 (iterateFrom extend left position x).1
        (iterateFrom extend' right position y).1 := by
    fun_induction iterateFrom extend left position x generalizing y with
    | case1 start value extended next taken moves ih =>
      rcases extends_ start value y related with ⟨failed, -⟩ | ⟨x, z, stop, one, two, further⟩
      · rw [taken] at failed
        cases failed
      · rw [taken] at one
        cases one
        rw [iterateFrom, two]
        simp only [C.size_eq, moves, and_self, ↓reduceIte]
        exact ih further
    | case2 start value extended next taken stays =>
      rcases extends_ start value y related with ⟨failed, -⟩ | ⟨x, z, stop, one, two, further⟩
      · rw [taken] at failed
        cases failed
      · rw [taken] at one
        cases one
        rw [iterateFrom, two]
        simp only [C.size_eq, stays, ↓reduceIte]
        exact ⟨trivial, related⟩
    | case3 start value failed =>
      rcases extends_ start value y related with ⟨-, two⟩ | ⟨x, z, stop, one, two, further⟩
      · rw [iterateFrom, two]
        exact ⟨rfl, related⟩
      · rw [failed] at one
        cases one
  exact .inr ⟨_, _, _, rfl, congrArg (fun stop => some (_, stop)) both.1, both.2⟩

end Readers

end Correspondence

end Grammar

end AssertionLint
