/-
Trivia/Extent.lean

Half-open byte ranges, kept in 32 bits a side.

An extent locates a diagnostic inside a source.  Offsets come as natural numbers;
`ofOffsets` refuses the first side that does not fit, the start before the stop.
Nothing orders the two sides of an extent, so its length is partial: a reversed
extent has none.
-/
import Trivia.Text.Record

namespace Trivia

/-- The byte range from `start` up to, not including, `stop`. -/
structure Extent where
  start : UInt32
  stop : UInt32
  deriving DecidableEq, Repr

namespace Extent

/-- A side of a range that does not fit into an extent. -/
inductive Overflow
  | start (offset : Nat)
  | stop (offset : Nat)
  deriving DecidableEq, Repr

namespace Overflow

/-- The name of the failure. -/
def name : Overflow → String
  | start _ => "StartTooLarge"
  | stop _ => "EndTooLarge"

/-- The offset that did not fit. -/
def offset : Overflow → Nat
  | start n | stop n => n

/-- What the failure says to a reader. -/
def message (o : Overflow) : String :=
  let side := match o with
    | start _ => "start"
    | stop _ => "end"
  "span " ++ side ++ " " ++ toString o.offset ++ " exceeds u32::MAX (0xFFFFFFFF)"

/-- The one-line form of the failure. -/
def debug (o : Overflow) : String := Text.applied o.name (toString o.offset)

end Overflow

/-- The empty extent at an offset. -/
def point (offset : UInt32) : Extent := ⟨offset, offset⟩

/-- The empty extent at the start of a source. -/
def zero : Extent := point 0

/-- The extent of a range, where both sides fit. -/
def ofOffsets (start stop : Nat) : Except Overflow Extent :=
  if start < UInt32.size then
    if stop < UInt32.size then .ok ⟨start.toUInt32, stop.toUInt32⟩ else .error (.stop stop)
  else .error (.start start)

/-- The number of bytes; a reversed extent has no length. -/
def length? (s : Extent) : Option UInt32 :=
  if s.start ≤ s.stop then some (s.stop - s.start) else none

/-- Both sides are the same offset. -/
def isEmpty (s : Extent) : Bool := s.start == s.stop

/-- An offset lies within the extent; the stop does not. -/
def contains (s : Extent) (offset : UInt32) : Bool := s.start ≤ offset && offset < s.stop

/-- The two sides as offsets. -/
def offsets (s : Extent) : Nat × Nat := (s.start.toNat, s.stop.toNat)

/-- The sides with two dots between them. -/
def text (s : Extent) : String := toString s.start.toNat ++ ".." ++ toString s.stop.toNat

/-! ### Offsets and extents -/

theorem offsets_of_ofOffsets {start stop : Nat} {s : Extent} (h : ofOffsets start stop = .ok s) :
    s.offsets = (start, stop) := by
  unfold ofOffsets at h
  split at h
  · split at h
    · rename_i hstart hstop
      obtain rfl := Except.ok.inj h
      simp [offsets, Nat.toUInt32, Nat.mod_eq_of_lt hstart, Nat.mod_eq_of_lt hstop]
    · cases h
  · cases h

theorem ofOffsets_of_lt {start stop : Nat} (hstart : start < UInt32.size)
    (hstop : stop < UInt32.size) : ofOffsets start stop = .ok ⟨start.toUInt32, stop.toUInt32⟩ := by
  rw [ofOffsets, if_pos hstart, if_pos hstop]

end Extent

end Trivia
