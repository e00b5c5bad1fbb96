/-
Trivia/Comment/Reading.lean

Reading one construct where a scanner stands.

    line comment  = indent? "//" gap? body trailing?
    block comment = indent? "/*" body "*/" trailing?
    whitespace    = [ \t\r\n]+

Indent and gap are runs of blanks, and trailing is what remains of the line.  A
reader whose construct does not begin here goes back to where it started and
says so.  A line comment is never malformed, because the end of the input ends
a line; a block comment that is not closed is.
-/
import Trivia.Attempt
import Trivia.Comment.Body
import Trivia.Event
import Trivia.Scanner

namespace Trivia

variable {source : Bytes}

/-! ### Fragments -/

namespace Fragment

/-- Spaces and tabs, where there are some. -/
def readBlanks : Scanner source (Option Fragment) := do
  Scanner.ofExcept (ofRun (← Scanner.blanks))

/-- Carriage returns and line feeds, where there are some. -/
def readLineEnds : Scanner source (Option Fragment) := do
  Scanner.ofExcept (ofRun (← Scanner.lineEnds))

/-- What remains of a line behind its last word, where something does. -/
def readTail : Scanner source (Option Fragment) := do
  match ← Scanner.lineTail with
  | some run => Scanner.ofExcept (ofRun run)
  | none => return none

/-- Any mix of whitespace, as one standalone fragment. -/
def read : Scanner source (Attempt Fragment) := do
  let start ← Scanner.offset
  match ← Scanner.ofExcept (ofRun (← Scanner.runOf .whitespace)) with
  | some w => return .found w
  | none => Scanner.ofExcept (Attempt.absentAt .notWhitespace start)

end Fragment

/-! ### Comments -/

/-- A comment that runs to the end of its line. -/
def LineComment.read : Scanner source (Logged (Attempt LineComment)) := do
  let start ← Scanner.mark
  let indent ← Fragment.readBlanks
  if ← Scanner.passes opener then
    let gap ← Fragment.readBlanks
    let body := leadingBody (← Scanner.rest)
    Scanner.skip body.length
    let trailing ← Fragment.readTail
    let stop ← Scanner.offset
    return ⟨[.lineComment start.offset stop body.length], .found ⟨indent, gap, body, trailing⟩⟩
  else
    Scanner.goTo start
    return ⟨[], ← Scanner.ofExcept (Attempt.absentAt .notLineComment start.offset)⟩

/-- A comment between two markers.  One that is not closed is malformed from its
opening marker to the end of the source. -/
def BlockComment.read : Scanner source (Logged (Attempt BlockComment)) := do
  let start ← Scanner.mark
  let indent ← Fragment.readBlanks
  let opening ← Scanner.offset
  if ← Scanner.passes opener then
    match leadingBody? (← Scanner.rest) with
    | none =>
      return ⟨[.unclosedBlock opening source.length],
        .malformed (.located .unclosedBlock opening source.length)⟩
    | some body =>
      Scanner.skip body.length
      Scanner.skip closer.length
      let trailing ← Fragment.readTail
      let stop ← Scanner.offset
      return ⟨[.blockComment start.offset stop body.length], .found ⟨indent, body, trailing⟩⟩
  else
    Scanner.goTo start
    return ⟨[], ← Scanner.ofExcept (Attempt.absentAt .notBlockComment start.offset)⟩

end Trivia
