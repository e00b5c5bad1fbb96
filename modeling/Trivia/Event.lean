/-
Trivia/Event.lean

The log of a run.

Events are data; their level, wording and fields are read off them.  A run that
gives a file logs its start, then for each node the rules that were tried in
vain and the one that found it, and last the completed file.
-/
import Trivia.Code

namespace Trivia

/-- Something that happened in a run. -/
inductive Event
  /-- A named source was taken up. -/
  | started (file : String) (length : Nat)
  /-- A line comment was read. -/
  | lineComment (start stop bodyLength : Nat)
  /-- A block comment was read. -/
  | blockComment (start stop bodyLength : Nat)
  /-- A block comment was opened and not closed up to `stop`. -/
  | unclosedBlock (opening stop : Nat)
  /-- A rule found a node and moved on. -/
  | found (rule : String) (start stop : Nat)
  /-- The construct of a rule was absent. -/
  | absent (rule : String) (expected : Code) (offset : Nat)
  /-- A rule found a node and did not move. -/
  | standstill (rule : String) (offset : Nat)
  /-- The construct of a rule was malformed. -/
  | malformed (rule : String) (code : Code)
  /-- The nodes ended without a comment among them. -/
  | missingBody (file : String) (offset : Nat)
  /-- The nodes ended before the source did, against the dialect. -/
  | trailingInput (file : String) (offset length : Nat)
  /-- The nodes made a file. -/
  | completed (file : String) (nodes consumed length : Nat)
  deriving DecidableEq, Repr

namespace Event

/-! ### Levels -/

/-- How much detail an event carries. -/
inductive Level
  | trace
  | debug
  deriving DecidableEq, Repr

/-- The name of a level. -/
def Level.name : Level → String
  | trace => "TRACE"
  | debug => "DEBUG"

/-- The level of an event: a step of a run is a detail, a result is not. -/
def level : Event → Level
  | lineComment .. | blockComment .. | found .. | absent .. => .trace
  | started .. | unclosedBlock .. | standstill .. | malformed .. | missingBody ..
  | trailingInput .. | completed .. => .debug

/-! ### Wording -/

/-- The event opens a span of the log and is no entry of its own. -/
def isSpan : Event → Bool
  | started .. => true
  | _ => false

/-- What an event says to a reader; the name of the span for one that opens it. -/
def message : Event → String
  | started .. => "parse_with_options"
  | lineComment .. => "single-line comment"
  | blockComment .. => "multi-line comment"
  | unclosedBlock .. => "unterminated multi-line comment"
  | found .. => "matched"
  | absent .. => "no match"
  | standstill .. => "empty match, stopping"
  | malformed .. => "fatal parse error"
  | missingBody .. => "no file body"
  | trailingInput .. => "input left after file body"
  | completed .. => "parsed file"

/-- The value of a field. -/
inductive Field
  | number (n : Nat)
  | text (s : String)
  deriving DecidableEq, Repr

/-- The named fields of an event. -/
def fields : Event → List (String × Field)
  | started file length => [("file", .text file), ("len", .number length)]
  | lineComment start stop bodyLength | blockComment start stop bodyLength =>
    [("start", .number start), ("end", .number stop), ("body_len", .number bodyLength)]
  | unclosedBlock opening stop => [("opener", .number opening), ("end", .number stop)]
  | found rule start stop =>
    [("production", .text rule), ("start", .number start), ("end", .number stop)]
  | absent rule expected offset =>
    [("production", .text rule), ("expected", .text expected.description),
     ("position", .number offset)]
  | standstill rule offset => [("production", .text rule), ("pos", .number offset)]
  | malformed rule code => [("production", .text rule), ("code", .text code.tag)]
  | missingBody file offset => [("file", .text file), ("pos", .number offset)]
  | trailingInput file offset length =>
    [("file", .text file), ("pos", .number offset), ("len", .number length)]
  | completed file nodes consumed length =>
    [("file", .text file), ("children", .number nodes), ("consumed", .number consumed),
     ("len", .number length)]

end Event

/-- A value together with the events of making it. -/
structure Logged (α : Type) where
  log : List Event
  value : α
  deriving DecidableEq, Repr

namespace Logged

/-- Applies a function to the value and keeps the events. -/
def map {α β : Type} (f : α → β) (x : Logged α) : Logged β := ⟨x.log, f x.value⟩

end Logged

end Trivia
