/-
Trivia/ByteSet.lean

Byte strings, and the fixed sets of bytes that scanning tells apart.

Sources stay raw bytes from end to end: nothing is decoded before a tree is
built, so a tree can give back exactly the bytes it was built from.  The three
standing sets split whitespace into *blanks* (space and tab) and *line ends*
(carriage return and line feed, in any combination); `contains_whitespace` says
that the split is complete and `not_contains_both` that it does not overlap.
-/
namespace Trivia

/-- A byte string. -/
abbrev Bytes := List UInt8

/-- A fixed set of bytes, given by its members in any order. -/
structure ByteSet where
  members : Bytes
  deriving DecidableEq, Repr

namespace ByteSet

/-- Membership of one byte. -/
def contains (k : ByteSet) (b : UInt8) : Bool := k.members.contains b

/-- Horizontal whitespace: space and tab. -/
def blanks : ByteSet := ⟨[0x20, 0x09]⟩

/-- Line endings: carriage return and line feed. -/
def lineEnds : ByteSet := ⟨[0x0d, 0x0a]⟩

/-- Every byte a whitespace fragment may hold. -/
def whitespace : ByteSet := ⟨[0x20, 0x09, 0x0d, 0x0a]⟩

/-- The members of a set, each once, in ascending order. -/
def ascending (k : ByteSet) : Bytes :=
  ((List.range 256).map UInt8.ofNat).filter k.contains

/-! ### The split of whitespace -/

theorem contains_whitespace (b : UInt8) :
    whitespace.contains b = (blanks.contains b || lineEnds.contains b) := by
  simp [contains, whitespace, blanks, lineEnds, Bool.or_assoc]

theorem not_contains_both (b : UInt8) :
    ¬ (blanks.contains b = true ∧ lineEnds.contains b = true) := by
  simp only [contains, blanks, lineEnds, List.contains_cons, List.contains_nil, Bool.or_false,
    Bool.or_eq_true, beq_iff_eq]
  rintro ⟨h₁ | h₁, h₂ | h₂⟩ <;> subst h₁ <;> exact absurd h₂ (by decide)

end ByteSet

/-- A run finishes with a line ending. -/
def endsWithLineEnd (run : Bytes) : Bool :=
  run.getLast?.any ByteSet.lineEnds.contains

end Trivia
