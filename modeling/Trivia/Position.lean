/-
Trivia/Position.lean

A place in a source that is held in memory, and what can be read from there.

The source is a parameter of the type, so no operation can exchange it, and the
bound on the offset is a field, so no operation can leave the source.  The
bytes from the offset on are kept beside it; they are determined by the offset
(`rest_eq`), and two positions with one offset are equal (`Position.ext_offset`).

There are two movements only: `forward` past bytes that remain, and `seek` to
any offset of the source.  Every scanner is built from these two.
-/
import Trivia.ByteSet

namespace Trivia

/-- A position in `source`, with the bytes from there on. -/
structure Position (source : Bytes) where
  offset : Nat
  rest : Bytes
  rest_eq : rest = source.drop offset
  offset_le : offset ≤ source.length

/-- A saved offset.  It belongs to the source it was taken in, but nothing keeps
it from being used in another. -/
structure Mark where
  offset : Nat
  deriving DecidableEq, Repr, Ord

namespace Position

variable {source : Bytes}

/-! ### The two movements -/

/-- The start of a source. -/
def start (source : Bytes) : Position source :=
  ⟨0, source, rfl, Nat.zero_le _⟩

/-- Any offset of the source. -/
def seek (offset : Nat) (h : offset ≤ source.length) : Position source :=
  ⟨offset, source.drop offset, rfl, h⟩

@[simp] theorem length_rest (c : Position source) : c.rest.length = source.length - c.offset := by
  rw [c.rest_eq, List.length_drop]

/-- Past the next `n` bytes. -/
def forward (c : Position source) (n : Nat) (h : n ≤ c.rest.length) : Position source where
  offset := c.offset + n
  rest := c.rest.drop n
  rest_eq := by rw [c.rest_eq, List.drop_drop]
  offset_le := by
    have hlen := c.length_rest
    have hle := c.offset_le
    omega

/-! ### Looking around -/

/-- Nothing remains. -/
def atEnd (c : Position source) : Bool := c.rest.isEmpty

/-- The offset, to come back to. -/
def mark (c : Position source) : Mark := ⟨c.offset⟩

/-- The longest run of next bytes that satisfy `keep`. -/
def takeWhile (c : Position source) (keep : UInt8 → Bool) : Bytes := c.rest.takeWhile keep

theorem length_takeWhile_le (c : Position source) (keep : UInt8 → Bool) :
    (c.takeWhile keep).length ≤ c.rest.length :=
  (List.takeWhile_prefix keep).length_le

/-- The position behind that run. -/
def dropWhile (c : Position source) (keep : UInt8 → Bool) : Position source :=
  c.forward (c.takeWhile keep).length (c.length_takeWhile_le keep)

/-! ### Offsets determine positions -/

theorem ext_offset {c d : Position source} (h : c.offset = d.offset) : c = d := by
  obtain ⟨o, r, hr, _⟩ := c
  obtain ⟨o', r', hr', _⟩ := d
  obtain rfl : o = o' := h
  subst hr hr'
  rfl

@[simp] theorem offset_start : (start source).offset = 0 := rfl

@[simp] theorem rest_forward (c : Position source) {n : Nat} (h : n ≤ c.rest.length) :
    (c.forward n h).rest = c.rest.drop n := rfl

@[simp] theorem rest_dropWhile (c : Position source) (keep : UInt8 → Bool) :
    (c.dropWhile keep).rest = c.rest.dropWhile keep := by
  have hsplit : c.rest = c.takeWhile keep ++ c.rest.dropWhile keep :=
    (List.takeWhile_append_dropWhile (p := keep)).symm
  rw [dropWhile, rest_forward]
  conv => lhs; rw [hsplit]
  exact List.drop_left

@[simp] theorem seek_offset (c : Position source) : seek c.offset c.offset_le = c :=
  ext_offset rfl

theorem atEnd_iff (c : Position source) : c.atEnd = true ↔ c.offset = source.length := by
  have hlen := c.length_rest
  have hle := c.offset_le
  rw [atEnd, List.isEmpty_iff_length_eq_zero]
  omega

end Position

end Trivia
