/-
Trivia/Fault.lean

Broken contracts.

A fault is raised where an operation is called outside its contract: moving out
of the source, cutting a range that is not one, making a whitespace fragment of
bytes that are none, or calling a construct absent with a code that is not
recoverable.  A fault is no diagnostic: no source makes the comment grammar
raise one, only a wrong caller does.
-/
import Trivia.Code
import Trivia.Text.Quoted

namespace Trivia

/-- A call outside the contract of an operation. -/
inductive Fault
  /-- Moving on by more bytes than remain. -/
  | skipTooFar (count offset length : Nat)
  /-- Moving back by more bytes than were passed. -/
  | backTooFar (count offset : Nat)
  /-- Returning to an offset that the source does not have. -/
  | foreignMark (offset length : Nat)
  /-- Cutting a range that ends before it starts. -/
  | reversedCut (start stop : Nat)
  /-- Cutting a range that ends outside the source. -/
  | cutOutside (stop length : Nat)
  /-- A whitespace fragment without bytes. -/
  | emptyFragment
  /-- A whitespace fragment with other bytes than whitespace. -/
  | foreignBytes (bytes : Bytes)
  /-- An absent construct reported with a code that is not recoverable. -/
  | unrecoverable (code : Code)
  deriving DecidableEq, Repr

namespace Fault

/-- What a fault says to a reader.  A cut outside the source has no wording of
its own. -/
def message? : Fault → Option String
  | skipTooFar count offset length =>
    some ("cannot advance " ++ toString count ++ " bytes at offset " ++ toString offset ++ " of "
      ++ toString length)
  | backTooFar count offset =>
    some ("cannot rewind " ++ toString count ++ " bytes from offset " ++ toString offset)
  | foreignMark offset length =>
    some ("checkpoint " ++ toString offset ++ " is outside a buffer of " ++ toString length
      ++ " bytes")
  | reversedCut start stop =>
    some ("slice start " ++ toString start ++ " exceeds end " ++ toString stop)
  | cutOutside _ _ => none
  | emptyFragment => some "whitespace fragment must not be empty"
  | foreignBytes bytes =>
    some ("whitespace fragment contains non-whitespace bytes: " ++ Text.quoteBytes bytes)
  | unrecoverable code => some ("no_match requires a recoverable code, got " ++ code.name)

end Fault

end Trivia
