/-
Trivia/ReadError.lean

Failures of reading a source: a kind, and a text of its own where the reader
gave one.  Without a text the kind speaks for itself.  An interrupted read is
no failure of the source; whoever reads tries again.
-/
import Trivia.Text.Quoted
import Trivia.Text.Record

namespace Trivia

/-- The kinds of read failure.  Platforms know many; the ones listed here are told
apart by name, and the others are known by what they say of themselves. -/
inductive ReadError.Kind
  | notFound
  | permissionDenied
  | brokenPipe
  | unexpectedEnd
  | invalidData
  | timedOut
  | wouldBlock
  | other
  | interrupted
  /-- Any other kind. -/
  | unlisted (name description : String)
  deriving DecidableEq, Repr

/-- A failure to read from a source. -/
structure ReadError where
  kind : ReadError.Kind
  text? : Option String
  deriving DecidableEq, Repr

namespace ReadError

namespace Kind

/-- The kinds that are listed. -/
def all : List Kind :=
  [notFound, permissionDenied, brokenPipe, unexpectedEnd, invalidData, timedOut, wouldBlock, other,
    interrupted]

/-- The name of a kind. -/
def name : Kind → String
  | notFound => "NotFound"
  | permissionDenied => "PermissionDenied"
  | brokenPipe => "BrokenPipe"
  | unexpectedEnd => "UnexpectedEof"
  | invalidData => "InvalidData"
  | timedOut => "TimedOut"
  | wouldBlock => "WouldBlock"
  | other => "Other"
  | interrupted => "Interrupted"
  | unlisted name _ => name

/-- The listed kind of a given name. -/
def ofName? (name : String) : Option Kind := all.find? (·.name == name)

/-- What a kind says to a reader. -/
def description : Kind → String
  | notFound => "entity not found"
  | permissionDenied => "permission denied"
  | brokenPipe => "broken pipe"
  | unexpectedEnd => "unexpected end of file"
  | invalidData => "invalid data"
  | timedOut => "timed out"
  | wouldBlock => "operation would block"
  | other => "other error"
  | interrupted => "operation interrupted"
  | unlisted _ description => description

theorem ofName?_name : ∀ kind ∈ all, ofName? kind.name = some kind := by decide

end Kind

/-- The text of the failure, or what its kind says. -/
def message (e : ReadError) : String := e.text?.getD e.kind.description

/-- The one-line form of the failure. -/
def debug (e : ReadError) : String :=
  match e.text? with
  | none => Text.applied "Kind" e.kind.name
  | some text => Text.record "Custom" [("kind", e.kind.name), ("error", Text.quote text)]

/-- The read is to be tried again. -/
def isInterrupted (e : ReadError) : Bool := e.kind == .interrupted

end ReadError

end Trivia
