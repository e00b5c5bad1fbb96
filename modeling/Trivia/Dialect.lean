/-
Trivia/Dialect.lean

The choices that a parse leaves open: which constructs belong to a file beside
comments, and whether a file may end before its source does.
-/
namespace Trivia

/-- The choices of a parse. -/
structure Dialect where
  /-- Whitespace that no comment claims is a construct of its own, and does not
  end the file. -/
  looseWhitespace : Bool
  /-- The file has to reach to the end of its source. -/
  wholeSource : Bool
  deriving DecidableEq, Repr

namespace Dialect

/-- Comments, up to the first byte that begins none. -/
def base : Dialect := ⟨false, false⟩

/-- Comments and whitespace and nothing else, so that a file gives back the
whole of its source. -/
def lossless : Dialect := ⟨true, true⟩

end Dialect

end Trivia
