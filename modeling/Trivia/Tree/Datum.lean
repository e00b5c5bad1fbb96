/-
Trivia/Tree/Datum.lean

Trees and extents as self-describing data, written and read.

Reading checks the shape of the data and the range of its numbers and nothing
else: it does not ask whether the bytes of a fragment are whitespace, or
whether there are any.  An absent fragment may be left out of a map; every
other field has to be there, and none may be there twice.
-/
import Trivia.Datum
import Trivia.Extent
import Trivia.Tree.Node

namespace Trivia

/-! ### Extents -/

/-- An extent with its two sides. -/
def Extent.toDatum (s : Extent) : Datum :=
  .mapping [("start", .integer s.start.toNat), ("end", .integer s.stop.toNat)]

/-- Reads an extent. -/
def Extent.ofDatum? (d : Datum) : Option Extent := do
  match ← d.fields? ["start", "end"] with
  | [some start, some stop] => return ⟨← start.word?, ← stop.word?⟩
  | _ => none

/-! ### Fragments -/

/-- A fragment with its bytes. -/
def Fragment.toDatum (w : Fragment) : Datum := .mapping [("body", .ofBytes w.bytes)]

/-- Reads a fragment. -/
def Fragment.ofDatum? (d : Datum) : Option Fragment := do
  match ← d.fields? ["body"] with
  | [some body] => return ⟨← body.sequence? Datum.byte?⟩
  | _ => none

/-! ### Comments -/

/-- A line comment with its fields. -/
def LineComment.toDatum (c : LineComment) : Datum :=
  .mapping
    [("pre_open", .ofOption Fragment.toDatum c.indent),
     ("post_open", .ofOption Fragment.toDatum c.gap),
     ("body", .ofBytes c.body),
     ("post_body", .ofOption Fragment.toDatum c.trailing)]

/-- Reads a line comment. -/
def LineComment.ofDatum? (d : Datum) : Option LineComment := do
  match ← d.fields? ["pre_open", "post_open", "body", "post_body"] with
  | [indent, gap, some body, trailing] =>
    return {
      indent := ← Datum.optional? Fragment.ofDatum? indent
      gap := ← Datum.optional? Fragment.ofDatum? gap
      body := ← body.sequence? Datum.byte?
      trailing := ← Datum.optional? Fragment.ofDatum? trailing }
  | _ => none

/-- A block comment with its fields. -/
def BlockComment.toDatum (c : BlockComment) : Datum :=
  .mapping
    [("pre_open", .ofOption Fragment.toDatum c.indent),
     ("body", .ofBytes c.body),
     ("post_body", .ofOption Fragment.toDatum c.trailing)]

/-- Reads a block comment. -/
def BlockComment.ofDatum? (d : Datum) : Option BlockComment := do
  match ← d.fields? ["pre_open", "body", "post_body"] with
  | [indent, some body, trailing] =>
    return {
      indent := ← Datum.optional? Fragment.ofDatum? indent
      body := ← body.sequence? Datum.byte?
      trailing := ← Datum.optional? Fragment.ofDatum? trailing }
  | _ => none

/-! ### Nodes, files and groups -/

/-- A node under the name of its kind. -/
def Node.toDatum : Node → Datum
  | line c => .mapping [("SingleLineComment", c.toDatum)]
  | block c => .mapping [("MultiLineComment", c.toDatum)]
  | space w => .mapping [("Whitespace", w.toDatum)]

/-- Reads a node: one key, the name of its kind, and what it holds. -/
def Node.ofDatum? : Datum → Option Node
  | .mapping [("SingleLineComment", d)] => line <$> LineComment.ofDatum? d
  | .mapping [("MultiLineComment", d)] => block <$> BlockComment.ofDatum? d
  | .mapping [("Whitespace", d)] => space <$> Fragment.ofDatum? d
  | _ => none

/-- A file with its nodes. -/
def File.toDatum (f : File) : Datum :=
  .mapping [("name", .text f.name), ("children", .sequence (f.nodes.map Node.toDatum))]

/-- Reads a file. -/
def File.ofDatum? (d : Datum) : Option File := do
  match ← d.fields? ["name", "children"] with
  | [some name, some nodes] => return ⟨← name.text?, ← nodes.sequence? Node.ofDatum?⟩
  | _ => none

/-- A group with its files. -/
def Module.toDatum (m : Module) : Datum :=
  .mapping [("name", .text m.name), ("files", .sequence (m.files.map File.toDatum))]

/-- Reads a group. -/
def Module.ofDatum? (d : Datum) : Option Module := do
  match ← d.fields? ["name", "files"] with
  | [some name, some files] => return ⟨← name.text?, ← files.sequence? File.ofDatum?⟩
  | _ => none

end Trivia
