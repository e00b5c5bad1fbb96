/-
Trivia/Run.lean

Reading a file by a grammar.

A round tries the rules in order, each from the place where the round starts;
the first whose construct is not absent decides.  A found node and a new place
let the next round start there.  A found node without a new place ends the file
and is dropped, and a round in which everything is absent ends the file too.

Rules may move backward, so a run need not come to an end.  What a round does
depends on the dialect and on the offset where it starts, on nothing else.  A
source has one offset more than it has bytes, so a run that is not over after
that many rounds has started two of them at one offset and repeats itself: the
answer `endless` is exact, and no limit is put on a run that does end.
-/
import Trivia.Rule

namespace Trivia

variable {source : Bytes}

/-- Why there is no file. -/
inductive Failure
  /-- The source is no file of the grammar, or could not be read. -/
  | diagnosed (cause : Diagnostic)
  /-- A rule broke a contract. -/
  | fault (cause : Fault)
  /-- The rules lead in a circle. -/
  | endless
  deriving DecidableEq, Repr

/-! ### Rounds -/

/-- What the rules at one place came to. -/
inductive Round (source : Bytes)
  /-- A node, and the place behind it. -/
  | node (value : Node) (next : Position source)
  /-- The end of the nodes. -/
  | stop
  /-- The end of the run without a file. -/
  | failed (cause : Failure)

/-- Tries rules from `start`, each of them from there, until one finds its
construct or fails. -/
def Round.ofRules (dialect : Dialect) (start : Position source) :
    List Rule → Logged (Round source)
  | [] => ⟨[], .stop⟩
  | r :: rules =>
    match r.attempt dialect start with
    | .error cause _ => ⟨[], .failed (.fault cause)⟩
    | .ok ⟨log, .found value⟩ next =>
      if next.offset = start.offset then ⟨log ++ [.standstill r.name start.offset], .stop⟩
      else ⟨log ++ [.found r.name start.offset next.offset], .node value next⟩
    | .ok ⟨log, .absent expected offset⟩ _ =>
      let later := ofRules dialect start rules
      ⟨log ++ .absent r.name expected offset :: later.log, later.value⟩
    | .ok ⟨log, .malformed cause⟩ _ =>
      ⟨log ++ [.malformed r.name cause.code], .failed (.diagnosed cause)⟩

/-- The nodes of a file, and the place behind them. -/
structure Run (source : Bytes) where
  nodes : List Node
  stop : Position source

namespace Grammar

/-- At most `limit` rounds from `start`; a run of more is called endless. -/
def rounds (g : Grammar) (dialect : Dialect) :
    Nat → Position source → Logged (Except Failure (Run source))
  | 0, _ => ⟨[], .error .endless⟩
  | limit + 1, start =>
    match Round.ofRules dialect start g.rules with
    | ⟨log, .stop⟩ => ⟨log, .ok ⟨[], start⟩⟩
    | ⟨log, .failed cause⟩ => ⟨log, .error cause⟩
    | ⟨log, .node value next⟩ =>
      let later := g.rounds dialect limit next
      ⟨log ++ later.log, later.value.map fun run => ⟨value :: run.nodes, run.stop⟩⟩

/-- All the nodes from `start` on. -/
def run (g : Grammar) (dialect : Dialect) (start : Position source) :
    Logged (Except Failure (Run source)) :=
  g.rounds dialect (source.length + 1) start

/-! ### Files -/

/-- The file of a run, with the event that says how it ended.  There has to be a
comment in it, and nothing behind it where the dialect says so. -/
def finish (dialect : Dialect) (name : String) (run : Run source) :
    Logged (Except Failure File) :=
  let file : File := ⟨name, run.nodes⟩
  let stop := run.stop.offset
  let length := source.length
  if !file.hasComment then
    ⟨[.missingBody name stop], .error (.diagnosed (.located .missingBody stop stop))⟩
  else if dialect.wholeSource && !run.stop.atEnd then
    ⟨[.trailingInput name stop length],
      .error (.diagnosed (.located .trailingInput stop length))⟩
  else ⟨[.completed name run.nodes.length stop length], .ok file⟩

/-- The file from `start` on. -/
def fileFrom (g : Grammar) (dialect : Dialect) (name : String) (start : Position source) :
    Logged (Except Failure File) :=
  match g.run dialect start with
  | ⟨log, .error cause⟩ => ⟨log, .error cause⟩
  | ⟨log, .ok run⟩ =>
    let file := finish dialect name run
    ⟨log ++ file.log, file.value⟩

end Grammar

/-- The file of a whole source under the grammar of a dialect. -/
def File.ofSource (dialect : Dialect) (name : String) (source : Bytes) :
    Logged (Except Failure File) :=
  let file := (Grammar.ofDialect dialect).fileFrom dialect name (Position.start source)
  ⟨.started name source.length :: file.log, file.value⟩

end Trivia
