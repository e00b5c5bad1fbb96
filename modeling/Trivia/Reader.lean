/-
Trivia/Reader.lean

Sources that arrive in pieces.

A reader is the list of what its reads give in turn.  Reading to the end joins
the pieces; it tries again where a read was interrupted, ends at a read of no
bytes or behind the last one, and fails with any other read that fails,
whatever was read before.
-/
import Trivia.ByteSet
import Trivia.ReadError

namespace Trivia

/-- What one read gives. -/
inductive Read
  | chunk (bytes : Bytes)
  | failed (cause : ReadError)
  deriving DecidableEq, Repr

/-- All bytes of a reader. -/
def Read.contents : List Read → Except ReadError Bytes
  | [] | chunk [] :: _ => .ok []
  | chunk (b :: bytes) :: rest => (b :: bytes ++ ·) <$> contents rest
  | failed cause :: rest => if cause.isInterrupted then contents rest else .error cause

end Trivia
