/-
Trivia/Rule.lean

Grammars as ordered lists of rules.

A rule is a name and an attempt.  The attempt sees the dialect and the place
where it starts, and may leave the scanner anywhere in the source: the type
asks neither that an absent construct leaves it at the start nor that a found
one moves it on, so a statement about all grammars covers careless rules too.
What a rule cannot do is exchange the source, change the dialect or read what
others logged: the offset is the only mutable state of a parse.
-/
import Trivia.Comment.Reading
import Trivia.Dialect

namespace Trivia

/-- One alternative of a grammar.  An attempt changes neither the source nor the dialect,
since the offset is the only mutable state of a parse: the source is borrowed for all of it,
and the dialect is chosen before it begins and only looked at from then on.  So both are
given to an attempt, and neither is part of what it leaves behind. -/
structure Rule where
  /-- The name under which it is logged. -/
  name : String
  /-- Tries to read one node from where the scanner stands. -/
  attempt : {source : Bytes} → Dialect → Scanner source (Logged (Attempt Node))

namespace Rule

/-- Comments to the end of a line. -/
def lineComment : Rule where
  name := "single-line comment"
  attempt _ := Logged.map (Attempt.map Node.line) <$> LineComment.read

/-- Comments between two markers. -/
def blockComment : Rule where
  name := "multi-line comment"
  attempt _ := Logged.map (Attempt.map Node.block) <$> BlockComment.read

/-- Whitespace that no comment claims. -/
def whitespace : Rule where
  name := "whitespace"
  attempt _ := do return ⟨[], (← Fragment.read).map Node.space⟩

end Rule

/-- Rules in order of priority. -/
structure Grammar where
  rules : List Rule

namespace Grammar

/-- The grammar without rules. -/
def empty : Grammar := ⟨[]⟩

/-- Adds a rule with the lowest priority so far. -/
def push (g : Grammar) (r : Rule) : Grammar := ⟨g.rules ++ [r]⟩

/-- Line comments, then block comments. -/
def comments : Grammar := ⟨[.lineComment, .blockComment]⟩

/-- The comments and what a dialect adds to them. -/
def ofDialect (dialect : Dialect) : Grammar :=
  if dialect.looseWhitespace then comments.push .whitespace else comments

/-- The names of the rules, the highest priority first. -/
def names (g : Grammar) : List String := g.rules.map (·.name)

/-- The number of rules. -/
def size (g : Grammar) : Nat := g.rules.length

/-- No rule at all. -/
def isEmpty (g : Grammar) : Bool := g.rules.isEmpty

end Grammar

end Trivia
