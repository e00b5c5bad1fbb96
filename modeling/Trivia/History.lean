/-
Trivia/History.lean

How a module comes to its files.

Each request is about one source, given whole or by a reader.  A request that
succeeds adds its file to the module, and one that fails leaves the module as
it was.  A history is a list of requests, carried out in order.
-/
import Trivia.Reader
import Trivia.Run

namespace Trivia

namespace Module

/-- Adds a file, where there is one. -/
def addResult (m : Module) : Except Failure File → Except Failure Unit × Module
  | .ok file => (.ok (), m.push file)
  | .error cause => (.error cause, m)

/-- Adds the file of a source. -/
def addSource (m : Module) (dialect : Dialect) (name : String) (source : Bytes) :
    Except Failure Unit × Module :=
  m.addResult (File.ofSource dialect name source).value

/-- Adds the file of what a reader gives, by the base grammar. -/
def addReads (m : Module) (name : String) (reads : List Read) :
    Except Failure Unit × Module :=
  match Read.contents reads with
  | .ok source => m.addSource .base name source
  | .error cause => (.error (.diagnosed (.ofRead cause)), m)

end Module

/-- One source for a module. -/
inductive Request
  | source (dialect : Dialect) (name : String) (bytes : Bytes)
  | reads (name : String) (pieces : List Read)

namespace Request

/-- Carries out one request. -/
def apply (m : Module) : Request → Except Failure Unit × Module
  | .source dialect name bytes => m.addSource dialect name bytes
  | .reads name pieces => m.addReads name pieces

/-- The module behind a history. -/
def applyAll (m : Module) (history : List Request) : Module :=
  history.foldl (fun m r => (r.apply m).2) m

end Request

end Trivia
