/-
Trivia/Comment/Body.lean

Where the body of a comment ends.

A line comment ends with its line, and its body before the whitespace that ends
the line; blanks between words are body.  A block comment ends at the first
closing marker.  Both questions are about the bytes that follow the opening
marker alone, so both are answered by recursion on these bytes.
-/
import Trivia.Tree.Node

namespace Trivia

/-! ### Line comments -/

/-- The bytes of a line before the blanks that end it: up to the last byte,
before the first line end, that is no blank. -/
def LineComment.leadingBody : Bytes → Bytes
  | [] => []
  | b :: rest =>
    if ByteSet.lineEnds.contains b then []
    else
      let body := leadingBody rest
      if body.isEmpty && ByteSet.blanks.contains b then [] else b :: body

/-! ### Block comments -/

/-- The bytes before the first closing marker; `none` where it never comes. -/
def BlockComment.leadingBody? : Bytes → Option Bytes
  | [] => none
  | b :: rest =>
    if closer.isPrefixOf (b :: rest) then some []
    else (leadingBody? rest).map (b :: ·)

/-! ### Bodies are read off the front -/

theorem BlockComment.leadingBody?_prefix {bytes body : Bytes}
    (h : leadingBody? bytes = some body) : body ++ closer <+: bytes := by
  induction bytes generalizing body with
  | nil => cases h
  | cons b rest ih =>
    rw [leadingBody?] at h
    split at h
    · rename_i hclose
      obtain rfl := Option.some.inj h
      exact List.isPrefixOf_iff_prefix.mp hclose
    · obtain ⟨tail, htail, rfl⟩ := Option.map_eq_some_iff.mp h
      exact (List.prefix_cons_inj b).mpr (ih htail)

end Trivia
