/-
Trivia/Scanner.lean

Scanners: actions that move through a source.

A scanner starts at a position and leaves one behind, whether it returns or
raises a fault; that a fault leaves the position as it was is therefore
something to prove of each operation, not a matter of how scanners are run.

Reading more bytes than remain is no fault.  Such a read answers `none` and
does not move; whoever reads decides what the end of the input means.
-/
import Trivia.Position
import Trivia.Fault

namespace Trivia

/-- An action that moves through `source` and may raise a fault. -/
abbrev Scanner (source : Bytes) := EStateM Fault (Position source)

namespace Scanner

variable {source : Bytes} {α : Type}

/-- A value whose making may raise a fault, as an action that does not move. -/
def ofExcept (value : Except Fault α) : Scanner source α :=
  match value with
  | .ok a => pure a
  | .error fault => throw fault

/-! ### Looking around -/

/-- The current offset. -/
def offset : Scanner source Nat := do return (← get).offset

/-- The bytes from here on. -/
def rest : Scanner source Bytes := do return (← get).rest

/-- Nothing remains. -/
def atEnd : Scanner source Bool := do return (← get).atEnd

/-- The current offset, to come back to. -/
def mark : Scanner source Mark := do return (← get).mark

/-- The next `n` bytes, without moving. -/
def peek (n : Nat) : Scanner source (Option Bytes) := do
  let ahead ← rest
  return if n ≤ ahead.length then some (ahead.take n) else none

/-! ### Moving -/

/-- The next `n` bytes, moving past them. -/
def take (n : Nat) : Scanner source (Option Bytes) := fun c =>
  if h : n ≤ c.rest.length then .ok (some (c.rest.take n)) (c.forward n h) else .ok none c

/-- The next byte, moving past it. -/
def takeByte : Scanner source (Option UInt8) := do
  return (← take 1).bind List.head?

/-- Past the next `n` bytes, which the caller has already looked at. -/
def skip (n : Nat) : Scanner source Unit := fun c =>
  if h : n ≤ c.rest.length then .ok () (c.forward n h)
  else .error (.skipTooFar n c.offset source.length) c

/-- Back over `n` bytes. -/
def back (n : Nat) : Scanner source Unit := fun c =>
  if n ≤ c.offset then
    .ok () (Position.seek (c.offset - n) (Nat.le_trans (Nat.sub_le _ _) c.offset_le))
  else .error (.backTooFar n c.offset) c

/-- To a saved offset, which the source has to have. -/
def goTo (saved : Mark) : Scanner source Unit := fun c =>
  if h : saved.offset ≤ source.length then .ok () (Position.seek saved.offset h)
  else .error (.foreignMark saved.offset source.length) c

/-! ### Cutting -/

/-- The bytes from `start` up to `stop`.  The order of the two is checked before
the end of the source is. -/
def cut (start stop : Nat) : Scanner source Bytes :=
  if stop < start then throw (.reversedCut start stop)
  else if source.length < stop then throw (.cutOutside stop source.length)
  else return (source.drop start).take (stop - start)

/-- The bytes passed since `saved`. -/
def passedSince (saved : Mark) : Scanner source Bytes := do
  cut saved.offset (← offset)

/-! ### Runs -/

/-- The longest run of bytes that satisfy `keep`, moving past it. -/
def takeWhile (keep : UInt8 → Bool) : Scanner source Bytes := fun c =>
  .ok (c.takeWhile keep) (c.dropWhile keep)

/-- The bytes before the next `byte`, moving up to it and not past it; `none`,
without moving, where it does not occur again. -/
def takeUntil (byte : UInt8) : Scanner source (Option Bytes) := do
  if (← rest).contains byte then
    return some (← takeWhile (· != byte))
  else return none

/-- The longest run of bytes in a set. -/
def runOf (k : ByteSet) : Scanner source Bytes := takeWhile k.contains

/-- A run of spaces and tabs. -/
def blanks : Scanner source Bytes := runOf .blanks

/-- A run of carriage returns and line feeds; how they pair does not matter. -/
def lineEnds : Scanner source Bytes := runOf .lineEnds

/-- What remains of a line behind its last word: blanks and then line ends, as
one run; `none` where there is neither. -/
def lineTail : Scanner source (Option Bytes) := do
  let start ← mark
  let _ ← blanks
  let _ ← lineEnds
  let run ← passedSince start
  return if run.isEmpty then none else some run

/-- Moves past as many bytes as `marker` has, and tells whether they were
`marker`.  Where fewer remain it does not move. -/
def passes (marker : Bytes) : Scanner source Bool := do
  return (← take marker.length) == some marker

end Scanner

end Trivia
