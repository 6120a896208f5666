/-!
# Slices at byte offsets

Documents are character sequences addressed by offsets into their UTF-8 encoding. This module
cuts a sequence at such offsets. An offset that falls inside a character or past the end cuts
nothing. Main statements: the two halves of a cut make up the whole (`append_of_cut?`), and a cut
at the size of a leading part is that part (`cut?_append`).
-/

namespace AssertionLint.Text

/-- The number of bytes that a sequence of characters takes in UTF-8. -/
def byteSize : List Char → Nat
  | [] => 0
  | c :: rest => c.utf8Size + byteSize rest

/-- Cuts a sequence at a byte offset, if the offset falls between two characters or at an end. -/
def cut? : List Char → Nat → Option (List Char × List Char)
  | rest, 0 => some ([], rest)
  | [], _ + 1 => none
  | c :: rest, offset + 1 =>
    if c.utf8Size ≤ offset + 1 then
      (cut? rest (offset + 1 - c.utf8Size)).map fun (before, after) => (c :: before, after)
    else
      none

/-- The part of a sequence between two byte offsets, if both are cut points in this order. -/
def slice? (text : List Char) (start stop : Nat) : Option (List Char) :=
  if start ≤ stop then do
    let (_, tail) ← cut? text start
    let (part, _) ← cut? tail (stop - start)
    pure part
  else
    none

/-- The longest common leading part of two sequences. -/
def sharedStart : List Char → List Char → List Char
  | a :: as, b :: bs => if a = b then a :: sharedStart as bs else []
  | _, _ => []

@[simp]
theorem byteSize_nil : byteSize [] = 0 := rfl

@[simp]
theorem byteSize_append (front back : List Char) :
    byteSize (front ++ back) = byteSize front + byteSize back := by
  induction front with
  | nil => simp
  | cons c rest ih => simp [byteSize, ih, Nat.add_assoc]

theorem append_of_cut? {text before after : List Char} {offset : Nat}
    (cut : cut? text offset = some (before, after)) :
    before ++ after = text ∧ byteSize before = offset := by
  fun_induction cut? text offset generalizing before after with
  | case1 rest => simp_all
  | case2 => simp at cut
  | case3 c rest offset fits ih =>
    obtain ⟨⟨front, back⟩, inner, same⟩ := Option.map_eq_some_iff.1 cut
    obtain ⟨rfl, rfl⟩ := Prod.mk.injEq .. ▸ same
    have := ih inner
    refine ⟨by simp [this.1], ?_⟩
    simp only [byteSize, this.2]
    omega
  | case4 => simp at cut

@[simp]
theorem cut?_append (front back : List Char) :
    cut? (front ++ back) (byteSize front) = some (front, back) := by
  induction front with
  | nil => simp [cut?]
  | cons c rest ih =>
    have positive : 0 < c.utf8Size := Char.utf8Size_pos c
    obtain ⟨size, equal⟩ : ∃ size, c.utf8Size + byteSize rest = size + 1 :=
      ⟨c.utf8Size + byteSize rest - 1, by omega⟩
    have remaining : size + 1 - c.utf8Size = byteSize rest := by omega
    have fits : c.utf8Size ≤ size + 1 := by omega
    simp [byteSize, equal, cut?, fits, remaining, ih]

end AssertionLint.Text
