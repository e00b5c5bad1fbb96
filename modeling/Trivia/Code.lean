/-
Trivia/Code.lean

The codes of parse diagnostics.

Each code has a name, a stable tag that can be searched for, and a one-line
description.  Three of them are *recoverable*: they say that a construct does
not begin here, so that the next one may be tried.  The others end a parse.
-/
namespace Trivia

/-- What a diagnostic is about. -/
inductive Code
  /-- The file holds nothing but whitespace. -/
  | missingBody
  /-- No line comment begins here. -/
  | notLineComment
  /-- No block comment begins here. -/
  | notBlockComment
  /-- A block comment is opened and never closed. -/
  | unclosedBlock
  /-- No whitespace begins here. -/
  | notWhitespace
  /-- Bytes are left over behind the last construct. -/
  | trailingInput
  /-- The source could not be read. -/
  | unreadable
  deriving DecidableEq, Repr

namespace Code

/-- All codes, in the order of their tags. -/
def all : List Code :=
  [missingBody, notLineComment, notBlockComment, unclosedBlock, notWhitespace, trailingInput,
    unreadable]

/-- The name of a code. -/
def name : Code → String
  | missingBody => "ExpectedFileBody"
  | notLineComment => "NotSingleLineComment"
  | notBlockComment => "NotMultiLineComment"
  | unclosedBlock => "ExpectedMultiLineComment"
  | notWhitespace => "NotWhitespace"
  | trailingInput => "UnexpectedInput"
  | unreadable => "Io"

/-- The code of a given name. -/
def ofName? (name : String) : Option Code := all.find? (·.name == name)

/-- The stable tag of a code. -/
def tag : Code → String
  | missingBody => "M0001"
  | notLineComment => "M0002"
  | notBlockComment => "M0003"
  | unclosedBlock => "M0004"
  | notWhitespace => "M0005"
  | trailingInput => "M0006"
  | unreadable => "M0007"

/-- What a code says to a reader. -/
def description : Code → String
  | missingBody => "expected file body"
  | notLineComment => "expected single line comment"
  | notBlockComment => "expected multi-line comment"
  | unclosedBlock => "unterminated multi-line comment"
  | notWhitespace => "expected whitespace"
  | trailingInput => "unexpected input after file body"
  | unreadable => "failed to read source"

/-- The code only says that a construct does not begin here. -/
def recoverable : Code → Bool
  | notLineComment | notBlockComment | notWhitespace => true
  | missingBody | unclosedBlock | trailingInput | unreadable => false

theorem ofName?_name (code : Code) : ofName? code.name = some code := by
  cases code <;> decide

end Code

end Trivia
