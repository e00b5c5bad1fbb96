/-
Trivia/Tree/Debug.lean

The one-line text of trees, for people.  Fragments and bodies are shown as
quoted text, read without failing from their bytes.
-/
import Trivia.Text.Record
import Trivia.Tree.Node

namespace Trivia

/-- A fragment as quoted text. -/
def Fragment.debug (w : Fragment) : String := Text.quoteBytes w.bytes

/-- A fragment that may be absent. -/
def Fragment.debug? (w : Option Fragment) : String := Text.optional (w.map Fragment.debug)

/-- A line comment with its fields. -/
def LineComment.debug (c : LineComment) : String :=
  Text.record "SingleLineComment"
    [("pre_open", Fragment.debug? c.indent),
     ("post_open", Fragment.debug? c.gap),
     ("body", Text.quoteBytes c.body),
     ("post_body", Fragment.debug? c.trailing)]

/-- A block comment with its fields. -/
def BlockComment.debug (c : BlockComment) : String :=
  Text.record "MultiLineComment"
    [("pre_open", Fragment.debug? c.indent),
     ("body", Text.quoteBytes c.body),
     ("post_body", Fragment.debug? c.trailing)]

/-- A node under the name of its kind. -/
def Node.debug : Node → String
  | line c => Text.applied "SingleLineComment" c.debug
  | block c => Text.applied "MultiLineComment" c.debug
  | space w => Text.applied "Whitespace" w.debug

/-- A file with its nodes. -/
def File.debug (f : File) : String :=
  Text.record "File"
    [("name", Text.quote f.name), ("children", Text.listing (f.nodes.map Node.debug))]

/-- A group with its files. -/
def Module.debug (m : Module) : String :=
  Text.record "Module"
    [("name", Text.quote m.name), ("files", Text.listing (m.files.map File.debug))]

end Trivia
