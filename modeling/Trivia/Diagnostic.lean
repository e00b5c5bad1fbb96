/-
Trivia/Diagnostic.lean

What is said of a parse that failed: a code, the byte range it is about where
there is one that an extent can hold, and the failure of the reader where
reading was what failed.
-/
import Trivia.Code
import Trivia.Extent
import Trivia.ReadError

namespace Trivia

/-- Why a parse failed, and where. -/
structure Diagnostic where
  code : Code
  extent? : Option Extent
  cause? : Option ReadError
  deriving DecidableEq, Repr

namespace Diagnostic

/-- A diagnostic about no place in particular. -/
def unlocated (code : Code) : Diagnostic := ⟨code, none, none⟩

/-- A diagnostic about a byte range.  A range that no extent holds leaves it
without a place. -/
def located (code : Code) (start stop : Nat) : Diagnostic :=
  ⟨code, (Extent.ofOffsets start stop).toOption, none⟩

/-- A diagnostic about reading the source. -/
def ofRead (cause : ReadError) : Diagnostic := ⟨.unreadable, none, some cause⟩

/-- What a diagnostic says to a reader: the words of the failed read where there
is one, and the description of the code otherwise. -/
def message (d : Diagnostic) : String :=
  match d.cause? with
  | some cause => cause.message
  | none => d.code.description

/-- The diagnostic only says that a construct does not begin at a place. -/
def recoverable (d : Diagnostic) : Bool := d.code.recoverable

/-- The one-line form of a diagnostic. -/
def debug (d : Diagnostic) : String :=
  Text.record "ParseError"
    [("code", d.code.name),
     ("span", Text.optional (d.extent?.map Extent.text)),
     ("io", Text.optional (d.cause?.map ReadError.debug))]

/-! ### Places -/

/-- A range whose sides fit into an extent is kept as it is. -/
theorem exists_extent_located (code : Code) {start stop : Nat} (hstart : start < UInt32.size)
    (hstop : stop < UInt32.size) :
    ∃ s, (located code start stop).extent? = some s ∧ s.offsets = (start, stop) := by
  have hfits := Extent.ofOffsets_of_lt hstart hstop
  refine ⟨_, ?_, Extent.offsets_of_ofOffsets hfits⟩
  rw [located, hfits]
  rfl

end Diagnostic

end Trivia
