/-
Trivia/Tree/Printer.lean

Writing a tree back as bytes.

Each construct writes its fields and markers in source order, and an absent
fragment writes nothing.  The writer looks at nothing but the tree, so what it
gives is what the tree has kept.
-/
import Trivia.Tree.Node

namespace Trivia

/-- The bytes of a fragment that may be absent. -/
def Fragment.source? : Option Fragment → Bytes
  | some w => w.bytes
  | none => []

/-- The bytes of a line comment. -/
def LineComment.source (c : LineComment) : Bytes :=
  Fragment.source? c.indent ++ opener ++ Fragment.source? c.gap ++ c.body
    ++ Fragment.source? c.trailing

/-- The bytes of a block comment. -/
def BlockComment.source (c : BlockComment) : Bytes :=
  Fragment.source? c.indent ++ opener ++ c.body ++ closer ++ Fragment.source? c.trailing

/-- The bytes of a node. -/
def Node.source : Node → Bytes
  | line c => c.source
  | block c => c.source
  | space w => w.bytes

/-- The bytes of a sequence of nodes. -/
def Node.sources (nodes : List Node) : Bytes := nodes.flatMap Node.source

/-- The bytes of a file. -/
def File.source (f : File) : Bytes := Node.sources f.nodes

@[simp] theorem Node.sources_nil : Node.sources [] = [] := rfl

@[simp] theorem Node.sources_cons (n : Node) (nodes : List Node) :
    Node.sources (n :: nodes) = n.source ++ Node.sources nodes := rfl

@[simp] theorem Node.sources_append (xs ys : List Node) :
    Node.sources (xs ++ ys) = Node.sources xs ++ Node.sources ys := by
  simp [Node.sources]

end Trivia
