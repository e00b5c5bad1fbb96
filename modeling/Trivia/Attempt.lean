/-
Trivia/Attempt.lean

The three ways an attempt at a construct can end.

A construct that is malformed is told apart from one that is not there: an
absent construct invites the next alternative, a malformed one ends everything.
Because the two are different constructors, an alternative can never be tried
behind a malformed construct (`Attempt.orElse`).
-/
import Trivia.Diagnostic
import Trivia.Fault

namespace Trivia

/-- How an attempt at a construct ended. -/
inductive Attempt (α : Type)
  /-- The construct was read. -/
  | found (value : α)
  /-- The construct does not begin at `offset`. -/
  | absent (expected : Code) (offset : Nat)
  /-- The construct begins but does not end. -/
  | malformed (cause : Diagnostic)
  deriving DecidableEq, Repr

namespace Attempt

variable {α β : Type}

/-- An absent construct.  The code has to be recoverable. -/
def absentAt (expected : Code) (offset : Nat) : Except Fault (Attempt α) :=
  if expected.recoverable then .ok (.absent expected offset)
  else .error (.unrecoverable expected)

/-- The construct was read. -/
def isFound : Attempt α → Bool
  | found _ => true
  | absent .. | malformed _ => false

/-- The next alternative is to be tried. -/
def isAbsent : Attempt α → Bool
  | absent .. => true
  | found _ | malformed _ => false

/-- The construct does not end. -/
def isMalformed : Attempt α → Bool
  | malformed _ => true
  | found _ | absent .. => false

/-- Applies a function to what was read. -/
def map (f : α → β) : Attempt α → Attempt β
  | found value => .found (f value)
  | absent expected offset => .absent expected offset
  | malformed cause => .malformed cause

/-- Tries an alternative behind an absent construct, and only there. -/
def orElse (a : Attempt α) (alternative : Unit → Except Fault (Attempt α)) :
    Except Fault (Attempt α) :=
  match a with
  | absent .. => alternative ()
  | found _ | malformed _ => .ok a

/-- What was read, where something was. -/
def value? : Attempt α → Option α
  | found value => some value
  | absent .. | malformed _ => none

/-- What was read or why nothing was; an absent construct is an error at its
offset. -/
def toExcept : Attempt α → Except Diagnostic α
  | found value => .ok value
  | absent expected offset => .error (.located expected offset offset)
  | malformed cause => .error cause

/-- The one-line form of an attempt, given that of its value. -/
def debug (text : α → String) : Attempt α → String
  | found value => Text.record "Matched" [("value", text value)]
  | absent expected offset =>
    Text.record "NoMatch" [("expected", expected.name), ("position", toString offset)]
  | malformed cause => Text.record "Fatal" [("error", cause.debug)]

end Attempt

end Trivia
