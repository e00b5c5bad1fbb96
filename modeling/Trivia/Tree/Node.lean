/-
Trivia/Tree/Node.lean

The constructs of a file and the file as a sequence of them.

A node keeps every byte it was made of: markers are implied by the kind of
node, all else stands in its fields.  In a line comment the indent comes before
the marker, the gap and the body behind it, and the whitespace that ends the
line last; spaces between words belong to the body.  The body of a block
comment is verbatim, whitespace next to its markers included.
-/
import Trivia.Tree.Fragment

namespace Trivia

/-- A comment that runs to the end of its line. -/
structure LineComment where
  /-- Blanks before the marker. -/
  indent : Option Fragment
  /-- Blanks right behind the marker. -/
  gap : Option Fragment
  /-- The rest of the line, without the whitespace that ends it. -/
  body : Bytes
  /-- The whitespace that ends the line, line ends included. -/
  trailing : Option Fragment
  deriving DecidableEq, Repr

/-- A comment between two markers. -/
structure BlockComment where
  /-- Blanks before the opening marker. -/
  indent : Option Fragment
  /-- Everything between the markers. -/
  body : Bytes
  /-- Blanks and line ends behind the closing marker. -/
  trailing : Option Fragment
  deriving DecidableEq, Repr

namespace LineComment

/-- The opening marker. -/
def opener : Bytes := [0x2f, 0x2f]

end LineComment

namespace BlockComment

/-- The opening marker. -/
def opener : Bytes := [0x2f, 0x2a]

/-- The closing marker. -/
def closer : Bytes := [0x2a, 0x2f]

end BlockComment

/-- A construct at the top of a file. -/
inductive Node
  | line (comment : LineComment)
  | block (comment : BlockComment)
  /-- Whitespace that no comment claims. -/
  | space (fragment : Fragment)
  deriving DecidableEq, Repr

namespace Node

/-- Standalone whitespace, which is no body of a file. -/
def isSpace : Node → Bool
  | space _ => true
  | line _ | block _ => false

/-- The kind of a node, for people. -/
def kind : Node → String
  | line _ => "single-line comment"
  | block _ => "multi-line comment"
  | space _ => "whitespace"

end Node

/-- A file: its name, as it was given, and its nodes in source order. -/
structure File where
  name : String
  nodes : List Node
  deriving DecidableEq, Repr

namespace File

/-- At least one node is not whitespace, and so a comment. -/
def hasComment (f : File) : Bool := f.nodes.any (!·.isSpace)

theorem hasComment_append {f : File} (h : f.hasComment = true) (name : String)
    (more : List Node) : (⟨name, f.nodes ++ more⟩ : File).hasComment = true := by
  rw [hasComment, List.any_append]
  exact (Bool.or_eq_true _ _).mpr (.inl h)

end File

/-- A named group of files, in the order they were added. -/
structure Module where
  name : String
  files : List File
  deriving DecidableEq, Repr

namespace Module

/-- A group without files. -/
def empty (name : String) : Module := ⟨name, []⟩

/-- Adds a file behind those already there. -/
def push (m : Module) (f : File) : Module := ⟨m.name, m.files ++ [f]⟩

/-- The earliest file of a given name. -/
def file? (m : Module) (name : String) : Option File := m.files.find? (·.name == name)

end Module

end Trivia
